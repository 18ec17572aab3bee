import TrustMap.Internal.Proof
import TrustMap.Library.Frontier

/-!
The incremental Merkle tree of the Go package `internal/proof`: the frontier algorithm of the
Gateway, as the receipt verifiers run it again on two leaves. The tree a run of appends leaves
is the padded tree over the appended leaves, the same one that membership witnesses are
checked against.
-/

namespace TrustMap.Internal.Proof

open Merkle

/-- The array `zeros` of `ZeroHashes` up to a level. -/
def zeroHashesLoop (keccak : Keccak) : ℕ → List Bytes32
  | 0 => [0]
  | level + 1 =>
      let zeros := zeroHashesLoop keccak level
      zeros ++ [hashPair keccak (zeros.getD level 0) (zeros.getD level 0)]

/-- `ZeroHashes`. -/
def zeroHashes (keccak : Keccak) (depth : UInt8) : Except ProofError (List Bytes32) :=
  match validateDepth depth with
  | .error e => .error e
  | .ok () => .ok (zeroHashesLoop keccak depth.toNat)

/-- `IncrementalTree`. -/
structure IncrementalTree where
  depth : UInt8
  capacity : UInt64
  nextIndex : UInt64
  frontier : List Bytes32
  zeros : List Bytes32
  root : Bytes32
  deriving DecidableEq

/-- `NewIncrementalTree`. -/
def newIncrementalTree (keccak : Keccak) (depth : UInt8) : Except ProofError IncrementalTree :=
  match zeroHashes keccak depth with
  | .error e => .error e
  | .ok zeros => .ok {
      depth := depth
      capacity := 1 <<< depth.toUInt64
      nextIndex := 0
      frontier := List.replicate depth.toNat 0
      zeros := zeros
      root := zeros.getD depth.toNat 0 }

/-- The variables `frontier`, `node` and `index` of `Append` after a number of levels. -/
def IncrementalTree.appendLoop (keccak : Keccak) (tree : IncrementalTree) (leaf : Bytes32) :
    ℕ → List Bytes32 × Bytes32 × UInt64
  | 0 => (tree.frontier, leaf, tree.nextIndex)
  | level + 1 =>
      let (frontier, node, index) := tree.appendLoop keccak leaf level
      if index &&& 1 = 0 then
        (frontier.set level node, hashPair keccak node (tree.zeros.getD level 0), index >>> 1)
      else
        (frontier, hashPair keccak (frontier.getD level 0) node, index >>> 1)

/-- `Append`; there is no tree if it was full. -/
def IncrementalTree.append (keccak : Keccak) (tree : IncrementalTree) (leaf : Bytes32) :
    Option IncrementalTree :=
  if tree.capacity ≤ tree.nextIndex then none
  else
    let (frontier, node, _) := tree.appendLoop keccak leaf tree.depth.toNat
    some { tree with frontier := frontier, root := node, nextIndex := tree.nextIndex + 1 }

/-- `Append` as a call on a receiver: whether it succeeds, and the tree it leaves there. The
full tree is reported before the first write. -/
def IncrementalTree.appendTo (keccak : Keccak) (tree : IncrementalTree) (leaf : Bytes32) :
    Bool × IncrementalTree :=
  match tree.append keccak leaf with
  | none => (false, tree)
  | some next => (true, next)

/-- One successful `Append` for each leaf, in order. -/
def IncrementalTree.appendAll (keccak : Keccak) (tree : IncrementalTree)
    (leaves : List Bytes32) : Option IncrementalTree :=
  leaves.foldlM (IncrementalTree.append keccak) tree

theorem zeroHashesLoop_length (keccak : Keccak) (depth : ℕ) :
    (zeroHashesLoop keccak depth).length = depth + 1 := by
  induction depth with
  | zero => rfl
  | succ depth ih => simp [zeroHashesLoop, ih]

/-- The empty subtree of every level up to the depth. -/
theorem zeroHashesLoop_getD (keccak : Keccak) {depth level : ℕ} (h : level ≤ depth) :
    (zeroHashesLoop keccak depth).getD level 0 = zeroRoot (TrustMap.hashPair keccak) 0 level := by
  induction depth generalizing level with
  | zero =>
      obtain rfl : level = 0 := Nat.le_zero.mp h
      rfl
  | succ depth ih =>
      have hLength := zeroHashesLoop_length keccak depth
      rw [zeroHashesLoop]
      rcases Nat.le_succ_iff.mp h with hBelow | rfl
      · rw [List.getD_append _ _ _ _ (by omega), ih hBelow]
      · rw [List.getD_append_right _ _ _ _ (by omega), hLength, Nat.sub_self,
          List.getD_cons_zero, ih le_rfl, hashPair_eq, zeroRoot]

/-- The loop of `Append` is the append loop of the frontier library. -/
theorem IncrementalTree.appendLoop_eq (keccak : Keccak) (tree : IncrementalTree)
    (leaf : Bytes32) (levels : ℕ) :
    let s := tree.appendLoop keccak leaf levels
    Frontier.appendLoop (TrustMap.hashPair keccak) 0 tree.zeros tree.frontier leaf
      tree.nextIndex.toNat levels = ⟨s.1, s.2.1, s.2.2.toNat⟩ := by
  induction levels with
  | zero => rfl
  | succ levels ih =>
      simp only [Frontier.appendLoop, ih, Frontier.appendLevel, IncrementalTree.appendLoop,
        ← Words.uint64_and_one_eq_zero_iff, hashPair_eq]
      split <;> simp only [Words.uint64_shiftRight_one]

/-- The tree over a list of leaves, padded to a valid depth. -/
structure IncrementalTree.Over (keccak : Keccak) (depth : UInt8) (leaves : List Bytes32)
    (tree : IncrementalTree) : Prop where
  depth_eq : tree.depth = depth
  depth_le : depth.toNat ≤ 32
  capacity : tree.capacity.toNat = 2 ^ depth.toNat
  zeros : Frontier.ZeroSubtrees (TrustMap.hashPair keccak) 0 depth.toNat tree.zeros
  frontier : Frontier.Valid (TrustMap.hashPair keccak) 0 depth.toNat leaves tree.frontier
  nextIndex : tree.nextIndex.toNat = leaves.length
  fits : leaves.length ≤ 2 ^ depth.toNat
  root_eq : tree.root = Merkle.root (TrustMap.hashPair keccak) 0 depth.toNat leaves

theorem newIncrementalTree_over (keccak : Keccak) {depth : UInt8}
    (hDepth : 0 < depth.toNat ∧ depth.toNat ≤ 32) :
    ∃ tree, newIncrementalTree keccak depth = .ok tree ∧ tree.Over keccak depth [] := by
  have hEmpty : Merkle.root (TrustMap.hashPair keccak) 0 depth.toNat [] =
      zeroRoot (TrustMap.hashPair keccak) 0 depth.toNat :=
    subroot_padded_of_length_le (Nat.zero_le _)
  refine ⟨_, by rw [newIncrementalTree, zeroHashes, validateDepth_eq_ok_iff.mpr hDepth], ?_⟩
  exact {
    depth_eq := rfl
    depth_le := hDepth.2
    capacity := Words.uint64_one_shiftLeft (by omega)
    zeros := fun level hLevel => zeroHashesLoop_getD keccak hLevel.le
    frontier := Frontier.Valid.nil (by simp)
    nextIndex := rfl
    fits := Nat.zero_le _
    root_eq := by rw [hEmpty, zeroHashesLoop_getD keccak le_rfl] }

namespace IncrementalTree.Over

variable {keccak : Keccak} {depth : UInt8} {leaves : List Bytes32} {tree : IncrementalTree}

theorem full_iff (h : tree.Over keccak depth leaves) :
    tree.capacity ≤ tree.nextIndex ↔ leaves.length = 2 ^ depth.toNat := by
  have hFits := h.fits
  rw [UInt64.le_iff_toNat_le, h.capacity, h.nextIndex]
  omega

/-- While there is room, `Append` adds its leaf to the list. -/
theorem append (h : tree.Over keccak depth leaves) (leaf : Bytes32)
    (hRoom : leaves.length < 2 ^ depth.toNat) :
    ∃ next, tree.append keccak leaf = some next ∧ next.Over keccak depth (leaves ++ [leaf]) := by
  have hLoop := tree.appendLoop_eq keccak leaf depth.toNat
  have hRoot := Frontier.appendLoop_root leaf h.zeros h.frontier hRoom
  have hValid := Frontier.appendLoop_valid leaf h.zeros h.frontier
  rw [h.nextIndex] at hLoop
  rw [hLoop] at hRoot hValid
  have hFull : ¬ tree.capacity ≤ tree.nextIndex := by
    rw [h.full_iff]
    omega
  have hPow : 2 ^ depth.toNat ≤ 2 ^ 32 := Nat.pow_le_pow_right (by decide) h.depth_le
  refine ⟨_, by rw [IncrementalTree.append, if_neg hFull], ?_⟩
  rw [h.depth_eq]
  exact {
    depth_eq := rfl
    depth_le := h.depth_le
    capacity := h.capacity
    zeros := h.zeros
    frontier := hValid
    nextIndex := by
      rw [UInt64.toNat_add, h.nextIndex, List.length_append, List.length_singleton]
      exact Nat.mod_eq_of_lt (by simp; omega)
    fits := by
      rw [List.length_append, List.length_singleton]
      exact hRoom
    root_eq := hRoot }

/-- A run of appends that fits extends the list by its leaves. -/
theorem appendAll (h : tree.Over keccak depth leaves) (more : List Bytes32)
    (hFits : (leaves ++ more).length ≤ 2 ^ depth.toNat) :
    ∃ next, tree.appendAll keccak more = some next ∧
      next.Over keccak depth (leaves ++ more) := by
  induction more generalizing leaves tree with
  | nil => exact ⟨tree, rfl, by simpa using h⟩
  | cons leaf more ih =>
      rw [List.append_cons] at hFits ⊢
      have hRoom : leaves.length < 2 ^ depth.toNat := by
        simp only [List.length_append, List.length_singleton] at hFits
        omega
      obtain ⟨middle, hAppend, hMiddle⟩ := h.append leaf hRoom
      obtain ⟨next, hRun, hNext⟩ := ih hMiddle hFits
      refine ⟨next, ?_, hNext⟩
      rw [IncrementalTree.appendAll, List.foldlM_cons, hAppend]
      exact hRun

/-- The padded tree's own siblings of an appended leaf lead to the root of the tree. -/
theorem rootFromWitness (h : tree.Over keccak depth leaves) (hDepth : 0 < depth.toNat)
    (index : UInt32) (hIndex : index.toNat < leaves.length) :
    rootFromWitness keccak (padded 0 leaves index.toNat) index
      (siblingPath (TrustMap.hashPair keccak) (padded 0 leaves) 0 index.toNat depth.toNat)
      depth = .ok tree.root := by
  have hInside := hIndex.trans_le h.fits
  have hWalk := walk_siblingPath (TrustMap.hashPair keccak) (padded 0 leaves) 0 index.toNat
    depth.toNat
  rw [subroot_zero, Nat.zero_add, Nat.div_eq_of_lt hInside] at hWalk
  rw [rootFromWitness_eq_ok_iff, hWalk, h.root_eq]
  exact ⟨⟨hDepth, h.depth_le⟩, by simp, hInside, rfl⟩

end IncrementalTree.Over

/-- The incremental tree agrees with the padded tree it stands for: after any leaves that fit,
its root is the padded root, every appended leaf is proved by its siblings in the padded tree,
and the tree refuses one leaf more than fits and stays as it was. -/
theorem incrementalTree_padded (keccak : Keccak) (depth : UInt8) (leaves : List Bytes32)
    (hDepth : 1 ≤ depth.toNat ∧ depth.toNat ≤ 32) (hFits : leaves.length ≤ 2 ^ depth.toNat) :
    ∃ empty tree, newIncrementalTree keccak depth = .ok empty ∧
      empty.appendAll keccak leaves = some tree ∧
      tree.root = Merkle.root (TrustMap.hashPair keccak) 0 depth.toNat leaves ∧
      (∀ index : UInt32, index.toNat < leaves.length →
        rootFromWitness keccak (padded 0 leaves index.toNat) index
          (siblingPath (TrustMap.hashPair keccak) (padded 0 leaves) 0 index.toNat depth.toNat)
          depth = .ok tree.root) ∧
      (leaves.length = 2 ^ depth.toNat → ∀ leaf, tree.appendTo keccak leaf = (false, tree)) := by
  obtain ⟨empty, hNew, hEmpty⟩ := newIncrementalTree_over keccak hDepth
  obtain ⟨tree, hRun, hTree⟩ := hEmpty.appendAll leaves (by simpa using hFits)
  rw [List.nil_append] at hTree
  refine ⟨empty, tree, hNew, hRun, hTree.root_eq, hTree.rootFromWitness hDepth.1, ?_⟩
  intro hLength leaf
  rw [IncrementalTree.appendTo, IncrementalTree.append, if_pos (hTree.full_iff.mpr hLength)]

theorem incrementalTree_padded_full :
    ∃ empty tree, newIncrementalTree (fun _ => 0) 1 = .ok empty ∧
      empty.appendAll (fun _ => 0) [1, 2] = some tree ∧
      tree.appendTo (fun _ => 0) 3 = (false, tree) := by
  obtain ⟨empty, tree, hNew, hRun, -, -, hFull⟩ :=
    incrementalTree_padded (fun _ => 0) 1 [1, 2] (by decide) (by decide)
  exact ⟨empty, tree, hNew, hRun, hFull (by decide) 3⟩

end TrustMap.Internal.Proof
