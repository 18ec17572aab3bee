import TrustMap.Contracts.Interface
import TrustMap.Library.Merkle

/-!
`PathProofVerifier`: reconstruction of one root from a leaf and a witness, and the
hop-by-hop check of a path against the home TrustRoot.
-/

namespace TrustMap.Contracts.PathProofVerifier

open Merkle

/-- The depth check of the constructor. -/
def constructor (depth : UInt8) : Except GatewayError TreeDepth :=
  if h : 0 < depth.toNat ∧ depth.toNat ≤ 32 then
    .ok ⟨depth, TreeDepth.pos_of_checked h, TreeDepth.le_of_checked h⟩
  else .error .invalidTreeDepth

/-- `paperLeaf`. -/
def paperLeaf (keccak : Keccak) (sourceTrustRoot sourceBlockHash : Bytes32) : Bytes32 :=
  keccak (Words.encode [sourceTrustRoot, sourceBlockHash])

theorem paperLeaf_eq_hashPair (keccak : Keccak) (root blockHash : Bytes32) :
    paperLeaf keccak root blockHash = hashPair keccak root blockHash := rfl

/-- The variables `root` and `index` of `computeRoot` after a number of levels. The sibling
count has been checked, so the default of the array access is never used. -/
def computeRootLoop (keccak : Keccak) (leaf : Bytes32) (witness : Witness) :
    ℕ → Bytes32 × UInt32
  | 0 => (leaf, witness.leafIndex)
  | level + 1 =>
      let (root, index) := computeRootLoop keccak leaf witness level
      let sibling := witness.siblings.getD level 0
      (if index &&& 1 = 0 then hashPair keccak root sibling else hashPair keccak sibling root,
        index >>> 1)

/-- `computeRoot`. -/
def computeRoot (keccak : Keccak) (depth : TreeDepth) (leaf : Bytes32) (witness : Witness) :
    Except GatewayError Bytes32 :=
  if witness.siblings.length ≠ depth.levels then .error .invalidSiblingCount
  else if depth.capacity ≤ witness.leafIndex.toUInt64 then .error .leafIndexOutOfRange
  else .ok (computeRootLoop keccak leaf witness depth.levels).1

/-- The loop of `_verifyPath` over the hops, from the root reached so far. -/
def pathRoot (keccak : Keccak) (depth : TreeDepth) :
    Bytes32 → List (Bytes32 × Witness) → Except GatewayError Bytes32
  | finalRoot, [] => .ok finalRoot
  | finalRoot, (blockHash, witness) :: hops =>
      match computeRoot keccak depth (paperLeaf keccak finalRoot blockHash) witness with
      | .error e => .error e
      | .ok next => pathRoot keccak depth next hops

/-- `_verifyPath` against the value of `_homeTrustRoot()`. -/
def verifyPath (keccak : Keccak) (depth : TreeDepth) (homeTrustRoot baseTrustRoot : Bytes32)
    (blockHashes : List Bytes32) (witnesses : List Witness) : Except GatewayError Bytes32 :=
  if blockHashes.length = 0 then .error .emptyPath
  else if blockHashes.length ≠ witnesses.length then .error .pathLengthMismatch
  else
    match pathRoot keccak depth baseTrustRoot (blockHashes.zip witnesses) with
    | .error e => .error e
    | .ok finalRoot =>
        if finalRoot ≠ homeTrustRoot then .error .finalRootMismatch else .ok finalRoot

theorem computeRootLoop_index (keccak : Keccak) (leaf : Bytes32) (witness : Witness)
    (levels : ℕ) :
    (computeRootLoop keccak leaf witness levels).2.toNat =
      witness.leafIndex.toNat / 2 ^ levels := by
  induction levels with
  | zero => simp [computeRootLoop]
  | succ levels ih =>
      rw [computeRootLoop, Words.uint32_shiftRight_one, ih, Nat.div_div_eq_div_mul, pow_succ]

/-- After any number of levels the loop has walked that many siblings. -/
theorem computeRootLoop_root (keccak : Keccak) (leaf : Bytes32) (witness : Witness)
    {levels : ℕ} (h : levels ≤ witness.siblings.length) :
    (computeRootLoop keccak leaf witness levels).1 =
      walk (hashPair keccak) witness.leafIndex.toNat leaf (witness.siblings.take levels) := by
  induction levels with
  | zero => simp [computeRootLoop]
  | succ levels ih =>
      have hTake : (witness.siblings.take levels).length = levels := by
        rw [List.length_take]; omega
      have hGet : witness.siblings.getD levels 0 = witness.siblings[levels] :=
        List.getD_eq_getElem _ _ h
      rw [List.take_succ_eq_append_getElem h, walk_append, hTake, ← ih (Nat.le_of_succ_le h),
        computeRootLoop, walk_cons, walk_nil, combine]
      simp only [Words.uint32_and_one_eq_zero_iff, computeRootLoop_index, hGet]

variable {depth : TreeDepth} {keccak : Keccak} {root : Bytes32}

/-- `computeRoot` accepts exactly the witnesses of the right length and range, and then
walks their siblings. -/
theorem computeRoot_eq_ok_iff {leaf : Bytes32} {witness : Witness} :
    computeRoot keccak depth leaf witness = .ok root ↔
      witness.siblings.length = depth.levels ∧
      witness.leafIndex.toNat < 2 ^ depth.levels ∧
      root = walk (hashPair keccak) witness.leafIndex.toNat leaf witness.siblings := by
  unfold computeRoot
  split
  · rename_i hLength
    simp [hLength]
  · rename_i hLength
    have hLength : witness.siblings.length = depth.levels := not_not.mp hLength
    have hRoot := computeRootLoop_root keccak leaf witness hLength.ge
    rw [← hLength, List.take_length] at hRoot
    have hRange : depth.capacity ≤ witness.leafIndex.toUInt64 ↔
        2 ^ depth.levels ≤ witness.leafIndex.toNat := by
      rw [UInt64.le_iff_toNat_le, depth.capacity_toNat, UInt32.toNat_toUInt64]
    rw [← hLength, hRoot, hLength]
    split
    · rename_i hOut
      simp [Nat.not_lt.mpr (hRange.mp hOut)]
    · rename_i hIn
      simp [Nat.lt_of_not_le (mt hRange.mpr hIn), eq_comm]

@[simp] theorem pathRoot_nil (keccak : Keccak) (depth : TreeDepth) (root : Bytes32) :
    pathRoot keccak depth root [] = .ok root := rfl

/-- A path is accepted exactly when its first hop is and the rest is accepted from the root
the first hop reaches. -/
theorem pathRoot_cons_eq_ok_iff {base : Bytes32} {hop : Bytes32 × Witness}
    {hops : List (Bytes32 × Witness)} :
    pathRoot keccak depth base (hop :: hops) = .ok root ↔
      ∃ next, computeRoot keccak depth (paperLeaf keccak base hop.1) hop.2 = .ok next ∧
        pathRoot keccak depth next hops = .ok root := by
  rw [pathRoot]
  cases computeRoot keccak depth (paperLeaf keccak base hop.1) hop.2 with
  | error e => simp
  | ok next => simp

theorem pathRoot_append_eq_ok_iff {base : Bytes32} {first second : List (Bytes32 × Witness)} :
    pathRoot keccak depth base (first ++ second) = .ok root ↔
      ∃ middle, pathRoot keccak depth base first = .ok middle ∧
        pathRoot keccak depth middle second = .ok root := by
  induction first generalizing base with
  | nil => simp
  | cons hop first ih =>
      simp only [List.cons_append, pathRoot_cons_eq_ok_iff, ih]
      constructor
      · rintro ⟨next, hNext, middle, hFirst, hSecond⟩
        exact ⟨middle, ⟨next, hNext, hFirst⟩, hSecond⟩
      · rintro ⟨middle, ⟨next, hNext, hFirst⟩, hSecond⟩
        exact ⟨next, hNext, middle, hFirst, hSecond⟩

theorem verifyPath_eq_ok_iff {home base : Bytes32} {blockHashes : List Bytes32}
    {witnesses : List Witness} :
    verifyPath keccak depth home base blockHashes witnesses = .ok root ↔
      blockHashes ≠ [] ∧ blockHashes.length = witnesses.length ∧ root = home ∧
        pathRoot keccak depth base (blockHashes.zip witnesses) = .ok home := by
  unfold verifyPath
  by_cases hEmpty : blockHashes.length = 0
  · simp [List.length_eq_zero_iff.mp hEmpty]
  · rw [if_neg hEmpty]
    by_cases hLength : blockHashes.length = witnesses.length
    · rw [if_neg (not_not.mpr hLength)]
      have hNe : blockHashes ≠ [] := mt List.length_eq_zero_iff.mpr hEmpty
      cases pathRoot keccak depth base (blockHashes.zip witnesses) with
      | error e => simp
      | ok final =>
          by_cases hFinal : final = home
          · simp [hFinal, hNe, hLength, eq_comm]
          · simp [hFinal]
    · simp [hLength]

end TrustMap.Contracts.PathProofVerifier
