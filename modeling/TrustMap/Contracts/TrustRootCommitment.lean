import TrustMap.Contracts.Interface
import TrustMap.Library.Frontier

/-!
`TrustRootCommitment`: the block-local incremental Merkle commitment. The storage of the
contract is a `Commitment`; its internal functions return the new storage together with the
event they emit. `TreeOf` relates a storage to the leaves of its active tree.
-/

namespace TrustMap.Contracts.TrustRootCommitment

open Merkle

/-- The storage of the contract. Block numbers are natural numbers: no arithmetic on them
comes near the word size. -/
structure Commitment where
  currentTrustRoot : Bytes32
  activeTreeBlock : ℕ
  currentLeafCount : UInt64
  anchorRootForActiveBlock : Bytes32
  trustRootByUpdateBlock : ℕ → Bytes32
  hasTrustRootUpdateAtBlock : ℕ → Bool
  frontier : List Bytes32
  zeroSubtrees : List Bytes32

/-- The array `zeroSubtrees` of the constructor after a number of iterations; iteration `k`
writes level `k + 1`. -/
def zeroSubtreesLoop (keccak : Keccak) (depth : TreeDepth) : ℕ → List Bytes32
  | 0 => List.replicate depth.levels 0
  | k + 1 =>
      let zeroSubtrees := zeroSubtreesLoop keccak depth k
      zeroSubtrees.set (k + 1)
        (hashPair keccak (zeroSubtrees.getD k 0) (zeroSubtrees.getD k 0))

/-- The storage after the constructor, for a depth that passed its check. -/
def initial (keccak : Keccak) (depth : TreeDepth) (initialTrustRoot : Bytes32) : Commitment where
  currentTrustRoot := initialTrustRoot
  activeTreeBlock := 0
  currentLeafCount := 0
  anchorRootForActiveBlock := 0
  trustRootByUpdateBlock _ := 0
  hasTrustRootUpdateAtBlock _ := false
  frontier := List.replicate depth.levels 0
  zeroSubtrees := zeroSubtreesLoop keccak depth (depth.levels - 1)

/-- The constructor. -/
def constructor (keccak : Keccak) (depth : UInt8) (initialTrustRoot : Bytes32) :
    Except GatewayError (TreeDepth × Commitment) :=
  if h : 0 < depth.toNat ∧ depth.toNat ≤ 32 then
    let depth : TreeDepth := ⟨depth, TreeDepth.pos_of_checked h, TreeDepth.le_of_checked h⟩
    .ok (depth, initial keccak depth initialTrustRoot)
  else .error .invalidCommitmentDepth

/-- The variables `frontier`, `node` and `index` of `_appendLeaf` after a number of levels. -/
def appendLeafLoop (keccak : Keccak) (zeroSubtrees frontier : List Bytes32) (leaf : Bytes32)
    (count : UInt64) : ℕ → List Bytes32 × Bytes32 × UInt64
  | 0 => (frontier, leaf, count)
  | level + 1 =>
      let (frontier, node, index) :=
        appendLeafLoop keccak zeroSubtrees frontier leaf count level
      if index &&& 1 = 0 then
        (frontier.set level node, hashPair keccak node (zeroSubtrees.getD level 0), index >>> 1)
      else
        (frontier, hashPair keccak (frontier.getD level 0) node, index >>> 1)

/-- `_appendLeaf` in the block `blockNumber`: the leaf index, the new storage and the event. -/
def appendLeaf (keccak : Keccak) (depth : TreeDepth) (blockNumber : ℕ) (requestId leaf : Bytes32)
    (isAnchor : Bool) (c : Commitment) :
    Except GatewayError (UInt32 × Commitment × GatewayEvent) :=
  let count := c.currentLeafCount
  if depth.capacity ≤ count then .error .treeFull
  else
    let leafIndex := count.toUInt32
    let (frontier, node, _) :=
      appendLeafLoop keccak c.zeroSubtrees c.frontier leaf count depth.levels
    let oldTrustRoot := c.currentTrustRoot
    .ok (leafIndex,
      { c with
        currentTrustRoot := node
        currentLeafCount := count + 1
        trustRootByUpdateBlock := Function.update c.trustRootByUpdateBlock blockNumber node
        hasTrustRootUpdateAtBlock :=
          Function.update c.hasTrustRootUpdateAtBlock blockNumber true
        frontier := frontier },
      .trustRootUpdated requestId leafIndex leaf oldTrustRoot node isAnchor)

/-- `_beginBlockTree`. -/
def beginBlockTree (keccak : Keccak) (depth : TreeDepth) (blockNumber : ℕ)
    (requestId anchorLeaf : Bytes32) (c : Commitment) :
    Except GatewayError (Commitment × GatewayEvent) :=
  let cleared : Commitment :=
    { c with
      frontier := c.frontier.map fun _ => 0
      activeTreeBlock := blockNumber
      currentLeafCount := 0 }
  match appendLeaf keccak depth blockNumber requestId anchorLeaf true cleared with
  | .error e => .error e
  | .ok (_, c', event) =>
      .ok ({ c' with anchorRootForActiveBlock := c'.currentTrustRoot }, event)

/-- The contract's loop is the frontier append on natural-number indices. -/
theorem appendLeafLoop_eq (keccak : Keccak) (zeroSubtrees frontier : List Bytes32)
    (leaf : Bytes32) (count : UInt64) (levels : ℕ) :
    let s := appendLeafLoop keccak zeroSubtrees frontier leaf count levels
    Frontier.appendLoop (hashPair keccak) 0 zeroSubtrees frontier leaf count.toNat levels =
      ⟨s.1, s.2.1, s.2.2.toNat⟩ := by
  induction levels with
  | zero => rfl
  | succ levels ih =>
      simp only [Frontier.appendLoop, ih, Frontier.appendLevel, appendLeafLoop,
        ← Words.uint64_and_one_eq_zero_iff]
      split <;> simp only [Words.uint64_shiftRight_one]

theorem zeroSubtreesLoop_length (keccak : Keccak) (depth : TreeDepth) (k : ℕ) :
    (zeroSubtreesLoop keccak depth k).length = depth.levels := by
  induction k with
  | zero => simp [zeroSubtreesLoop]
  | succ k ih => simp [zeroSubtreesLoop, ih]

/-- After `k` iterations the levels up to `k` hold the empty subtrees. -/
theorem zeroSubtreesLoop_getD (keccak : Keccak) (depth : TreeDepth) {k level : ℕ}
    (hLevel : level ≤ k) (hDepth : level < depth.levels) :
    (zeroSubtreesLoop keccak depth k).getD level 0 = zeroRoot (hashPair keccak) 0 level := by
  induction k generalizing level with
  | zero =>
      obtain rfl : level = 0 := Nat.le_zero.mp hLevel
      simp [zeroSubtreesLoop, zeroRoot]
  | succ k ih =>
      rcases Nat.le_succ_iff.mp hLevel with hBelow | rfl
      · rw [← ih hBelow hDepth, zeroSubtreesLoop]
        simp [List.getD, List.getElem?_set_ne (show k + 1 ≠ level by omega)]
      · have hBound : k + 1 < (zeroSubtreesLoop keccak depth k).length := by
          rwa [zeroSubtreesLoop_length]
        rw [zeroSubtreesLoop, zeroRoot, ← ih le_rfl (by omega)]
        simp [List.getD, List.getElem?_set_self hBound]

/-- The storage holds a tree with exactly these leaves. The stored root is constrained only
once there is a leaf: before that it is the initial root. -/
structure TreeOf (keccak : Keccak) (depth : TreeDepth) (leaves : List Bytes32)
    (c : Commitment) : Prop where
  zeroSubtrees : Frontier.ZeroSubtrees (hashPair keccak) 0 depth.levels c.zeroSubtrees
  frontier : Frontier.Valid (hashPair keccak) 0 depth.levels leaves c.frontier
  count : c.currentLeafCount.toNat = leaves.length
  fits : leaves.length ≤ 2 ^ depth.levels
  root : leaves ≠ [] → c.currentTrustRoot = Merkle.root (hashPair keccak) 0 depth.levels leaves

theorem initial_treeOf (keccak : Keccak) (depth : TreeDepth) (initialTrustRoot : Bytes32) :
    TreeOf keccak depth [] (initial keccak depth initialTrustRoot) where
  zeroSubtrees level hLevel :=
    zeroSubtreesLoop_getD keccak depth (show level ≤ depth.levels - 1 by omega) hLevel
  frontier := Frontier.Valid.nil (by simp [initial])
  count := rfl
  fits := Nat.zero_le _
  root h := absurd rfl h

/-- Everything a successful `_appendLeaf` does. -/
theorem appendLeaf_ok {keccak : Keccak} {depth : TreeDepth} {blockNumber : ℕ}
    {requestId leaf : Bytes32} {isAnchor : Bool} {c c' : Commitment} {leafIndex : UInt32}
    {event : GatewayEvent} {leaves : List Bytes32} (hTree : TreeOf keccak depth leaves c)
    (h : appendLeaf keccak depth blockNumber requestId leaf isAnchor c =
      .ok (leafIndex, c', event)) :
    TreeOf keccak depth (leaves ++ [leaf]) c' ∧
      leafIndex.toNat = leaves.length ∧
      event = .trustRootUpdated requestId leafIndex leaf c.currentTrustRoot
        c'.currentTrustRoot isAnchor ∧
      c'.activeTreeBlock = c.activeTreeBlock ∧
      c'.anchorRootForActiveBlock = c.anchorRootForActiveBlock ∧
      c'.trustRootByUpdateBlock =
        Function.update c.trustRootByUpdateBlock blockNumber c'.currentTrustRoot ∧
      c'.hasTrustRootUpdateAtBlock =
        Function.update c.hasTrustRootUpdateAtBlock blockNumber true := by
  simp only [appendLeaf] at h
  split at h
  · cases h
  · rename_i hRoom
    rw [UInt64.le_iff_toNat_le, depth.capacity_toNat, hTree.count, Nat.not_le] at hRoom
    have hLoop := appendLeafLoop_eq keccak c.zeroSubtrees c.frontier leaf c.currentLeafCount
      depth.levels
    rw [hTree.count] at hLoop
    have hPow : 2 ^ depth.levels ≤ 2 ^ 32 := Nat.pow_le_pow_right (by decide) depth.levels_le
    have hRoot := Frontier.appendLoop_root leaf hTree.zeroSubtrees hTree.frontier hRoom
    have hValid := Frontier.appendLoop_valid leaf hTree.zeroSubtrees hTree.frontier
    rw [hLoop] at hRoot hValid
    simp only [Except.ok.injEq, Prod.mk.injEq] at h
    obtain ⟨rfl, rfl, rfl⟩ := h
    refine ⟨⟨hTree.zeroSubtrees, hValid, ?_, ?_, fun _ => hRoot⟩, ?_, rfl, rfl, rfl, rfl, rfl⟩
    · rw [UInt64.toNat_add, hTree.count, List.length_append, List.length_singleton]
      exact Nat.mod_eq_of_lt (by simp; omega)
    · rw [List.length_append, List.length_singleton]
      exact hRoom
    · rw [UInt64.toNat_toUInt32, hTree.count]
      exact Nat.mod_eq_of_lt (by omega)

/-- `_appendLeaf` fails only on a full tree. -/
theorem appendLeaf_error_iff {keccak : Keccak} {depth : TreeDepth} {blockNumber : ℕ}
    {requestId leaf : Bytes32} {isAnchor : Bool} {c : Commitment} {leaves : List Bytes32}
    (hTree : TreeOf keccak depth leaves c) (e : GatewayError) :
    appendLeaf keccak depth blockNumber requestId leaf isAnchor c = .error e ↔
      e = .treeFull ∧ leaves.length = 2 ^ depth.levels := by
  have hFits := hTree.fits
  simp only [appendLeaf]
  split
  · rename_i hFull
    rw [UInt64.le_iff_toNat_le, depth.capacity_toNat, hTree.count] at hFull
    simp [le_antisymm hFits hFull, eq_comm]
  · rename_i hRoom
    rw [UInt64.le_iff_toNat_le, depth.capacity_toNat, hTree.count] at hRoom
    have hNe : leaves.length ≠ 2 ^ depth.levels := fun h => hRoom h.ge
    simp [hNe]

/-- `_beginBlockTree` always succeeds: the cleared tree has room for the anchor. -/
theorem beginBlockTree_eq_ok {keccak : Keccak} {depth : TreeDepth} {c : Commitment}
    {leaves : List Bytes32} (hTree : TreeOf keccak depth leaves c) (blockNumber : ℕ)
    (requestId anchorLeaf : Bytes32) :
    ∃ c', beginBlockTree keccak depth blockNumber requestId anchorLeaf c =
        .ok (c', .trustRootUpdated requestId 0 anchorLeaf c.currentTrustRoot
          c'.currentTrustRoot true) ∧
      TreeOf keccak depth [anchorLeaf] c' ∧
      c'.activeTreeBlock = blockNumber ∧
      c'.anchorRootForActiveBlock = c'.currentTrustRoot ∧
      c'.trustRootByUpdateBlock =
        Function.update c.trustRootByUpdateBlock blockNumber c'.currentTrustRoot ∧
      c'.hasTrustRootUpdateAtBlock =
        Function.update c.hasTrustRootUpdateAtBlock blockNumber true := by
  let cleared : Commitment :=
    { c with
      frontier := c.frontier.map fun _ => 0
      activeTreeBlock := blockNumber
      currentLeafCount := 0 }
  have hCleared : TreeOf keccak depth [] cleared :=
    ⟨hTree.zeroSubtrees,
      Frontier.Valid.nil (by simp [cleared, hTree.frontier.length_eq]), rfl, Nat.zero_le _,
      fun h => absurd rfl h⟩
  cases hAppend : appendLeaf keccak depth blockNumber requestId anchorLeaf true cleared with
  | error e =>
      have hFull := ((appendLeaf_error_iff hCleared e).mp hAppend).2
      exact absurd hFull (Nat.two_pow_pos _).ne
  | ok result =>
      obtain ⟨leafIndex, c', event⟩ := result
      obtain ⟨hTree', hIndex, rfl, hActive, -, hRoots, hUpdated⟩ := appendLeaf_ok hCleared hAppend
      obtain rfl : leafIndex = 0 := UInt32.toNat_inj.mp hIndex
      refine ⟨{ c' with anchorRootForActiveBlock := c'.currentTrustRoot }, ?_,
        ⟨hTree'.zeroSubtrees, hTree'.frontier, hTree'.count, hTree'.fits, hTree'.root⟩,
        hActive, rfl, hRoots, hUpdated⟩
      simp only [beginBlockTree]
      rw [hAppend]

end TrustMap.Contracts.TrustRootCommitment
