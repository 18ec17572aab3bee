import TrustMap.Contracts.PathProofVerifier
import TrustMap.Internal.Proof

/-!
The Mapnode and the contract verify the same paths. The Go function and the Solidity function
check in different orders, loop differently over the siblings and report different errors; they
accept the same inputs and reach the same root after every hop.
-/

namespace TrustMap.Internal.Proof

open Contracts

/-- A Go witness as it is passed to the contract. -/
def contractWitness (witness : MembershipWitness) : Witness :=
  ⟨witness.leafIndex, witness.siblings⟩

/-- A hop as it is passed to the contract. -/
def contractHop (hop : Bytes32 × MembershipWitness) : Bytes32 × Witness :=
  (hop.1, contractWitness hop.2)

/-- A witness that fits a tree of the given depth. -/
def FitsDepth (depth : TreeDepth) (witness : MembershipWitness) : Prop :=
  witness.siblings.length = depth.levels ∧ witness.leafIndex.toNat < 2 ^ depth.levels

theorem rootFromWitness_iff_computeRoot (keccak : Keccak) (depth : TreeDepth)
    (base blockHash root : Bytes32) (witness : MembershipWitness) :
    rootFromWitness keccak (leafHash keccak base blockHash) witness.leafIndex witness.siblings
        depth.depth = .ok root ↔
      PathProofVerifier.computeRoot keccak depth
        (PathProofVerifier.paperLeaf keccak base blockHash) (contractWitness witness) =
          .ok root := by
  rw [rootFromWitness_eq_ok_iff, PathProofVerifier.computeRoot_eq_ok_iff, leafHash_eq_hashPair,
    PathProofVerifier.paperLeaf_eq_hashPair]
  have hDepth : 0 < depth.depth.toNat ∧ depth.depth.toNat ≤ 32 := ⟨depth.pos, depth.le⟩
  exact and_iff_right hDepth

/-- Both loops reach the same root, or both fail. -/
theorem pathLoop_iff_pathRoot (keccak : Keccak) (depth : TreeDepth) (i : ℕ) (base root : Bytes32)
    (hops : List (Bytes32 × MembershipWitness)) :
    pathLoop keccak depth.depth i base hops = .ok root ↔
      PathProofVerifier.pathRoot keccak depth base (hops.map contractHop) = .ok root := by
  induction hops generalizing i base with
  | nil => simp [pathLoop]
  | cons hop hops ih =>
      rw [List.map_cons, pathLoop_cons_eq_ok_iff, PathProofVerifier.pathRoot_cons_eq_ok_iff]
      refine exists_congr fun next => ?_
      rw [ih, rootFromWitness_iff_computeRoot]
      rfl

/-- A path all of whose witnesses fit the depth has a root. -/
theorem exists_pathLoop_root (keccak : Keccak) (depth : TreeDepth) (i : ℕ) (base : Bytes32)
    (hops : List (Bytes32 × MembershipWitness))
    (hFits : ∀ hop ∈ hops, FitsDepth depth hop.2) :
    ∃ root, pathLoop keccak depth.depth i base hops = .ok root := by
  induction hops generalizing i base with
  | nil => exact ⟨base, rfl⟩
  | cons hop hops ih =>
      obtain ⟨hLength, hRange⟩ := hFits hop List.mem_cons_self
      have hNext : rootFromWitness keccak (leafHash keccak base hop.1) hop.2.leafIndex
          hop.2.siblings depth.depth = .ok _ :=
        rootFromWitness_eq_ok_iff.mpr ⟨⟨depth.pos, depth.le⟩, hLength, hRange, rfl⟩
      obtain ⟨root, hRoot⟩ :=
        ih (i + 1) _ fun hop' hMem => hFits hop' (List.mem_cons_of_mem _ hMem)
      exact ⟨root, pathLoop_cons_eq_ok_iff.mpr ⟨_, hNext, hRoot⟩⟩

theorem zip_contractWitness (blockHashes : List Bytes32) (witnesses : List MembershipWitness) :
    blockHashes.zip (witnesses.map contractWitness) =
      (blockHashes.zip witnesses).map contractHop := by
  rw [List.zip_map_right]
  rfl

/-- A path is accepted by both sides or by neither. -/
theorem verifyPath_iff_contract {keccak : Keccak} {depth : TreeDepth} {base home : Bytes32}
    {blockHashes : List Bytes32} {witnesses : List MembershipWitness} :
    verifyPath keccak base blockHashes witnesses home depth.depth = .ok () ↔
      ∃ root, PathProofVerifier.verifyPath keccak depth home base blockHashes
        (witnesses.map contractWitness) = .ok root := by
  rw [verifyPath_eq_ok_iff, pathLoop_iff_pathRoot, ← zip_contractWitness]
  simp only [PathProofVerifier.verifyPath_eq_ok_iff, List.length_map]
  constructor
  · rintro ⟨-, hNonempty, hLength, hPath⟩
    exact ⟨home, hNonempty, hLength, rfl, hPath⟩
  · rintro ⟨root, hNonempty, hLength, -, hPath⟩
    exact ⟨⟨depth.pos, depth.le⟩, hNonempty, hLength, hPath⟩

/-- `proof.VerifyPath` returns no error exactly when `_verifyPath` does not revert, for the same
home root. On every initial part of a path the two loops reach the same root or both fail, and
when every witness fits the depth they do reach one after every hop. -/
theorem verifyPath_agrees (keccak : Keccak) (depth : TreeDepth) (base home : Bytes32)
    (blockHashes : List Bytes32) (witnesses : List MembershipWitness) :
    (verifyPath keccak base blockHashes witnesses home depth.depth = .ok () ↔
      ∃ root, PathProofVerifier.verifyPath keccak depth home base blockHashes
        (witnesses.map contractWitness) = .ok root) ∧
    ∀ count,
      let goRoot := pathLoop keccak depth.depth 0 base ((blockHashes.zip witnesses).take count)
      let contractRoot := PathProofVerifier.pathRoot keccak depth base
        ((blockHashes.zip (witnesses.map contractWitness)).take count)
      (∀ root, goRoot = .ok root ↔ contractRoot = .ok root) ∧
        ((∀ witness ∈ witnesses, FitsDepth depth witness) →
          ∃ root, goRoot = .ok root ∧ contractRoot = .ok root) := by
  refine ⟨verifyPath_iff_contract, fun count => ?_⟩
  intro goRoot contractRoot
  have hSame : ∀ root, goRoot = .ok root ↔ contractRoot = .ok root := by
    intro root
    simp only [goRoot, contractRoot]
    rw [pathLoop_iff_pathRoot, zip_contractWitness, List.map_take]
  refine ⟨hSame, fun hFits => ?_⟩
  obtain ⟨root, hRoot⟩ := exists_pathLoop_root keccak depth 0 base
    ((blockHashes.zip witnesses).take count) fun hop hMem =>
      hFits hop.2 (List.of_mem_zip (List.mem_of_mem_take hMem)).2
  exact ⟨root, hRoot, (hSame root).mp hRoot⟩

end TrustMap.Internal.Proof
