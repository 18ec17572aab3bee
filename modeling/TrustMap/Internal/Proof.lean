import TrustMap.Domain
import TrustMap.Library.Merkle

/-!
The Go package `internal/proof`: root reconstruction from a witness and path verification, as
the Mapnode computes them before it submits a path.
-/

namespace TrustMap.Internal.Proof

open Merkle

/-- `MaxTreeDepth`. -/
def maxTreeDepth : UInt8 := 32

/-- The errors of the package with the values they report; `hop` is the wrapping by
`VerifyPath`. -/
inductive ProofError
  | invalidTreeDepth (got : UInt8)
  | invalidSiblingCount (got : ℕ) (want : UInt8)
  | leafIndexOutOfRange (index : UInt32) (capacity : UInt64)
  | emptyPath
  | pathLengthMismatch (blockHashes witnesses : ℕ)
  | finalRootMismatch (got want : Bytes32)
  | hop (index : ℕ) (cause : ProofError)
  deriving DecidableEq, Repr

/-- `HashPair`. -/
def hashPair (keccak : Keccak) (left right : Bytes32) : Bytes32 :=
  keccak (Words.bytes left ++ Words.bytes right)

theorem hashPair_eq (keccak : Keccak) : hashPair keccak = TrustMap.hashPair keccak := by
  funext left right
  simp [hashPair, TrustMap.hashPair]

/-- `validateDepth`. -/
def validateDepth (depth : UInt8) : Except ProofError Unit :=
  if depth = 0 ∨ depth > maxTreeDepth then .error (.invalidTreeDepth depth) else .ok ()

/-- The loop of `RootFromWitness` over the siblings. -/
def rootLoop (keccak : Keccak) (leaf : Bytes32) (leafIndex : UInt32) (siblings : List Bytes32) :
    Bytes32 × UInt32 :=
  siblings.foldl
    (fun (root, index) sibling =>
      (if index &&& 1 = 0 then hashPair keccak root sibling else hashPair keccak sibling root,
        index >>> 1))
    (leaf, leafIndex)

/-- `RootFromWitness`. -/
def rootFromWitness (keccak : Keccak) (leaf : Bytes32) (leafIndex : UInt32)
    (siblings : List Bytes32) (expectedDepth : UInt8) : Except ProofError Bytes32 :=
  match validateDepth expectedDepth with
  | .error e => .error e
  | .ok () =>
      if siblings.length ≠ expectedDepth.toNat then
        .error (.invalidSiblingCount siblings.length expectedDepth)
      else
        let capacity : UInt64 := 1 <<< expectedDepth.toUInt64
        if leafIndex.toUInt64 ≥ capacity then .error (.leafIndexOutOfRange leafIndex capacity)
        else .ok (rootLoop keccak leaf leafIndex siblings).1

/-- The loop of `VerifyPath` over the hops, from hop `i` and the root reached so far. -/
def pathLoop (keccak : Keccak) (expectedDepth : UInt8) :
    ℕ → Bytes32 → List (Bytes32 × MembershipWitness) → Except ProofError Bytes32
  | _, root, [] => .ok root
  | i, root, (blockHash, witness) :: hops =>
      match rootFromWitness keccak (leafHash keccak root blockHash) witness.leafIndex
          witness.siblings expectedDepth with
      | .error e => .error (.hop i e)
      | .ok next => pathLoop keccak expectedDepth (i + 1) next hops

/-- `VerifyPath`. -/
def verifyPath (keccak : Keccak) (baseTrustRoot : Bytes32) (blockHashes : List Bytes32)
    (witnesses : List MembershipWitness) (expectedHomeRoot : Bytes32) (expectedDepth : UInt8) :
    Except ProofError Unit :=
  match validateDepth expectedDepth with
  | .error e => .error e
  | .ok () =>
      if blockHashes.length = 0 then .error .emptyPath
      else if blockHashes.length ≠ witnesses.length then
        .error (.pathLengthMismatch blockHashes.length witnesses.length)
      else
        match pathLoop keccak expectedDepth 0 baseTrustRoot (blockHashes.zip witnesses) with
        | .error e => .error e
        | .ok root =>
            if root ≠ expectedHomeRoot then .error (.finalRootMismatch root expectedHomeRoot)
            else .ok ()

theorem validateDepth_eq_ok_iff {depth : UInt8} :
    validateDepth depth = .ok () ↔ 0 < depth.toNat ∧ depth.toNat ≤ 32 := by
  have hZero : depth = 0 ↔ depth.toNat = 0 := UInt8.toNat_inj.symm
  have hMax : depth > maxTreeDepth ↔ 32 < depth.toNat := UInt8.lt_iff_toNat_lt
  simp only [validateDepth, hZero, hMax]
  split
  · simp only [reduceCtorEq, false_iff]
    omega
  · simp only [true_iff]
    omega

/-- The loop walks the siblings; machine halving of the index is division by two. -/
theorem rootLoop_eq (keccak : Keccak) (leaf : Bytes32) (leafIndex : UInt32)
    (siblings : List Bytes32) :
    (rootLoop keccak leaf leafIndex siblings).1 =
      walk (TrustMap.hashPair keccak) leafIndex.toNat leaf siblings := by
  unfold rootLoop
  rw [hashPair_eq]
  induction siblings generalizing leaf leafIndex with
  | nil => rfl
  | cons sibling siblings ih =>
      rw [List.foldl_cons, ih, walk_cons, combine, Words.uint32_shiftRight_one]
      simp only [Words.uint32_and_one_eq_zero_iff]

/-- `RootFromWitness` accepts exactly a valid depth, as many siblings and an index in range. -/
theorem rootFromWitness_eq_ok_iff {keccak : Keccak} {leaf root : Bytes32} {leafIndex : UInt32}
    {siblings : List Bytes32} {depth : UInt8} :
    rootFromWitness keccak leaf leafIndex siblings depth = .ok root ↔
      (0 < depth.toNat ∧ depth.toNat ≤ 32) ∧ siblings.length = depth.toNat ∧
        leafIndex.toNat < 2 ^ depth.toNat ∧
        root = walk (TrustMap.hashPair keccak) leafIndex.toNat leaf siblings := by
  simp only [rootFromWitness]
  cases hDepth : validateDepth depth with
  | error e =>
      have hInvalid : ¬(0 < depth.toNat ∧ depth.toNat ≤ 32) := by
        rw [← validateDepth_eq_ok_iff, hDepth]
        simp
      simp [hInvalid]
  | ok =>
      have hValid := validateDepth_eq_ok_iff.mp hDepth
      have hCapacity := Words.uint64_one_shiftLeft (hValid.2.trans_lt (by decide))
      have hRange : leafIndex.toUInt64 ≥ (1 : UInt64) <<< depth.toUInt64 ↔
          2 ^ depth.toNat ≤ leafIndex.toNat := by
        rw [ge_iff_le, UInt64.le_iff_toNat_le, hCapacity, UInt32.toNat_toUInt64]
      simp only [hRange, rootLoop_eq]
      split
      · rename_i hLength
        simp [hLength]
      · rename_i hLength
        rw [not_not] at hLength
        split
        · rename_i hOut
          simp [Nat.not_lt.mpr hOut]
        · rename_i hIn
          simp [hValid, hLength, Nat.lt_of_not_le hIn, eq_comm]

/-- The hop index matters only to the error. -/
theorem pathLoop_cons_eq_ok_iff {keccak : Keccak} {depth : UInt8} {i : ℕ} {base root : Bytes32}
    {hop : Bytes32 × MembershipWitness} {hops : List (Bytes32 × MembershipWitness)} :
    pathLoop keccak depth i base (hop :: hops) = .ok root ↔
      ∃ next, rootFromWitness keccak (leafHash keccak base hop.1) hop.2.leafIndex
          hop.2.siblings depth = .ok next ∧
        pathLoop keccak depth (i + 1) next hops = .ok root := by
  rw [pathLoop]
  cases rootFromWitness keccak (leafHash keccak base hop.1) hop.2.leafIndex hop.2.siblings
      depth with
  | error e => simp
  | ok next => simp

theorem verifyPath_eq_ok_iff {keccak : Keccak} {base home : Bytes32} {blockHashes : List Bytes32}
    {witnesses : List MembershipWitness} {depth : UInt8} :
    verifyPath keccak base blockHashes witnesses home depth = .ok () ↔
      (0 < depth.toNat ∧ depth.toNat ≤ 32) ∧ blockHashes ≠ [] ∧
        blockHashes.length = witnesses.length ∧
        pathLoop keccak depth 0 base (blockHashes.zip witnesses) = .ok home := by
  simp only [verifyPath]
  cases hDepth : validateDepth depth with
  | error e =>
      have hInvalid : ¬(0 < depth.toNat ∧ depth.toNat ≤ 32) := by
        rw [← validateDepth_eq_ok_iff, hDepth]
        simp
      simp [hInvalid]
  | ok =>
      have hValid := validateDepth_eq_ok_iff.mp hDepth
      simp only [List.length_eq_zero_iff]
      split
      · rename_i hEmpty
        simp [hEmpty]
      · rename_i hNonempty
        split
        · rename_i hLength
          simp [hLength]
        · rename_i hLength
          rw [not_not] at hLength
          cases pathLoop keccak depth 0 base (blockHashes.zip witnesses) with
          | error e => simp
          | ok root =>
              by_cases hRoot : root = home
              · simp [hRoot, hValid, hNonempty, hLength]
              · simp [hRoot]

end TrustMap.Internal.Proof
