import TrustMap.Internal.Proof
import TrustMap.Mapnode.Plan

/-!
The path proofs of the Go package `proof`: their content-derived identifiers, the material of one
hop, and how a proof is put together from the material of a plan.
-/

namespace TrustMap.Mapnode

deriving instance DecidableEq for MembershipWitness

/-- `PathProofHop`. -/
structure PathProofHop where
  planHopIndex : ℕ
  edgeID : EdgeID
  toNodeID : NodeID
  blockHash : Bytes32
  witnessID : WitnessID
  deriving DecidableEq

/-- `PathProof`; the time of creation is left out. -/
structure PathProof where
  id : Bytes32
  requestID : Bytes32
  planID : Bytes32
  snapshotID : Bytes32
  baseTrustRoot : Bytes32
  blockHashes : List Bytes32
  witnesses : List MembershipWitness
  hops : List PathProofHop
  deriving DecidableEq

/-- `PathProofHop`, with its index as an `int`. -/
structure HopContent where
  planHopIndex : Int64
  edgeID : EdgeID
  toNodeID : NodeID
  blockHash : Bytes32
  witnessID : WitnessID
  deriving DecidableEq

/-- `PathProof` without `ID` and `CreatedAt`; a witness is its leaf index and its siblings, of which
the zero value has none. -/
structure ProofContent where
  requestID : Bytes32
  planID : Bytes32
  snapshotID : Bytes32
  baseTrustRoot : Bytes32
  blockHashes : List Bytes32
  witnesses : List (UInt32 × List Bytes32)
  hops : List HopContent
  deriving DecidableEq

namespace ProofContent

/-- The words of a witness. -/
def witnessWords (witness : UInt32 × List Bytes32) : List Bytes32 :=
  Words.ofUInt32 witness.1 :: lengthWord witness.2.length :: witness.2

/-- The words of a hop. -/
def hopWords (hop : HopContent) : List Bytes32 :=
  [Words.ofUInt64 hop.planHopIndex.toUInt64, hop.edgeID, hop.toNodeID, hop.blockHash, hop.witnessID]

/-- The words after the domain. -/
def words (content : ProofContent) : List Bytes32 :=
  [content.requestID, content.planID, content.snapshotID, content.baseTrustRoot,
    lengthWord content.blockHashes.length] ++ content.blockHashes ++
    lengthWord content.witnesses.length ::
      content.witnesses.flatMap witnessWords ++
    lengthWord content.hops.length :: content.hops.flatMap hopWords

/-- The bytes hashed by `ComputePathProofID`. -/
def encoded (content : ProofContent) : Bytes :=
  lengthPrefixed (textBytes "TrustMap/PathProof/ID/v1") ++ Words.encode content.words

/-- `ComputePathProofID`. -/
def computeID (keccak : Keccak) (content : ProofContent) : Bytes32 :=
  keccak content.encoded

end ProofContent

/-- The content of a proof. -/
def PathProof.content (proof : PathProof) : ProofContent where
  requestID := proof.requestID
  planID := proof.planID
  snapshotID := proof.snapshotID
  baseTrustRoot := proof.baseTrustRoot
  blockHashes := proof.blockHashes
  witnesses := proof.witnesses.map fun witness => (witness.leafIndex, witness.siblings)
  hops := proof.hops.map fun hop =>
    ⟨.ofNat hop.planHopIndex, hop.edgeID, hop.toNodeID, hop.blockHash, hop.witnessID⟩

/-- The identifier of the content. -/
def PathProof.computeID (keccak : Keccak) (proof : PathProof) : Bytes32 :=
  proof.content.computeID keccak

/-- `PathProofMaterial`. -/
structure PathProofMaterial where
  planID : Bytes32
  snapshotID : Bytes32
  planHopIndex : ℕ
  edge : TrustEdge
  fromNode : TrustNode
  toNode : TrustNode
  witness : GraphWitness
  deriving DecidableEq

/-- `BuildRequest`. -/
structure BuildRequest where
  planID : Bytes32
  sourceBlockHash : Bytes32
  expectedHomeTrustRoot : Bytes32
  deriving DecidableEq

/-- The errors of the package `proof`; `verification` is the local check of the proof. -/
inductive BuildError
  | pathProofNotFound
  | pathProofIDMismatch
  | proofMaterialMissing
  | staleTrustViewSnapshot
  | sourceBlockHashMismatch
  | verification (cause : Internal.Proof.ProofError)
  deriving DecidableEq, Repr

/-- `validMaterial`; the edge is compared as a whole. -/
def validMaterial (keccak : Keccak) (plan : Plan) (snapshot : TrustViewSnapshot) (index : ℕ)
    (edgeID : EdgeID) (expectedFrom : NodeID) (material : PathProofMaterial) : Prop :=
  material.planID = plan.id ∧ material.snapshotID = snapshot.id ∧ material.planHopIndex = index ∧
    material.edge.id = edgeID ∧ material.edge.fromID = expectedFrom ∧
    material.fromNode.id = material.edge.fromID ∧ material.toNode.id = material.edge.toID ∧
    material.edge.evidenceID = material.witness.evidenceID ∧
    material.edge.leafIndex = material.witness.leafIndex ∧
    material.edge.witnessID = some material.witness.id ∧
    material.witness.id = (newGraphWitness keccak material.witness.evidenceID
      material.witness.leafIndex material.witness.siblings).id ∧
    snapshot.findNode material.fromNode.id = some material.fromNode ∧
    snapshot.findNode material.toNode.id = some material.toNode ∧
    (snapshot.edges.find? fun edge => edge.id = edgeID) = some material.edge

instance (keccak : Keccak) (plan : Plan) (snapshot : TrustViewSnapshot) (index : ℕ)
    (edgeID : EdgeID) (expectedFrom : NodeID) (material : PathProofMaterial) :
    Decidable (validMaterial keccak plan snapshot index edgeID expectedFrom material) :=
  inferInstanceAs (Decidable (_ ∧ _))

/-- One turn of the loop of `Build` that goes over the material from the last hop to the first. -/
def addHop (proof : PathProof) (material : PathProofMaterial) : Except BuildError PathProof :=
  match newMembershipWitness material.witness.leafIndex material.witness.siblings with
  | none => .error .proofMaterialMissing
  | some witness => .ok { proof with
      blockHashes := proof.blockHashes ++ [material.toNode.key.blockHash]
      witnesses := proof.witnesses ++ [witness]
      hops := proof.hops ++ [⟨material.planHopIndex, material.edge.id, material.toNode.id,
        material.toNode.key.blockHash, material.witness.id⟩] }

/-- The proof `Build` saves: assembled from the material, checked locally and named by its
content. -/
def assembleProof (keccak : Keccak) (depth : UInt8) (request : BuildRequest) (plan : Plan)
    (snapshot : TrustViewSnapshot) (target : TrustNode) (materials : List PathProofMaterial) :
    Except BuildError PathProof := do
  let proof ← materials.reverse.foldlM addHop
    ⟨0, plan.requestID, plan.id, snapshot.id, target.root, [], [], []⟩
  Checks.require (proof.blockHashes.head? = some request.sourceBlockHash) .sourceBlockHashMismatch
  match Internal.Proof.verifyPath keccak proof.baseTrustRoot proof.blockHashes proof.witnesses
      request.expectedHomeTrustRoot depth with
  | .error e => .error (.verification e)
  | .ok () => .ok { proof with id := proof.computeID keccak }

/-! ## What is in an assembled proof -/

theorem addHop_header {proof result : PathProof} {material : PathProofMaterial}
    (h : addHop proof material = .ok result) :
    result.requestID = proof.requestID ∧ result.planID = proof.planID ∧
      result.snapshotID = proof.snapshotID ∧ result.baseTrustRoot = proof.baseTrustRoot := by
  unfold addHop at h
  split at h
  · cases h
  · cases h
    exact ⟨rfl, rfl, rfl, rfl⟩

theorem foldlM_addHop_header {materials : List PathProofMaterial} {proof result : PathProof}
    (h : materials.foldlM addHop proof = .ok result) :
    result.requestID = proof.requestID ∧ result.planID = proof.planID ∧
      result.snapshotID = proof.snapshotID ∧ result.baseTrustRoot = proof.baseTrustRoot := by
  induction materials generalizing proof with
  | nil =>
      obtain rfl : proof = result := Except.ok.inj h
      exact ⟨rfl, rfl, rfl, rfl⟩
  | cons material materials ih =>
      rw [List.foldlM_cons, Checks.bind_eq_ok] at h
      obtain ⟨next, hHop, hRest⟩ := h
      obtain ⟨hRequest, hPlan, hSnapshot, hBase⟩ := ih hRest
      obtain ⟨hRequest', hPlan', hSnapshot', hBase'⟩ := addHop_header hHop
      exact ⟨hRequest.trans hRequest', hPlan.trans hPlan', hSnapshot.trans hSnapshot',
        hBase.trans hBase'⟩

/-- An assembled proof belongs to the request of the plan, starts from the root of the target and
from the requested block, and passes the local check. -/
theorem assembleProof_ok {keccak : Keccak} {depth : UInt8} {request : BuildRequest} {plan : Plan}
    {snapshot : TrustViewSnapshot} {target : TrustNode} {materials : List PathProofMaterial}
    {proof : PathProof}
    (h : assembleProof keccak depth request plan snapshot target materials = .ok proof) :
    proof.requestID = plan.requestID ∧ proof.baseTrustRoot = target.root ∧
      proof.id = proof.computeID keccak ∧
      proof.blockHashes.head? = some request.sourceBlockHash ∧
      Internal.Proof.verifyPath keccak proof.baseTrustRoot proof.blockHashes proof.witnesses
        request.expectedHomeTrustRoot depth = .ok () := by
  unfold assembleProof at h
  obtain ⟨assembled, hFold, h⟩ := Checks.bind_eq_ok.mp h
  obtain ⟨hHead, h⟩ := Checks.check_bind_eq_ok.mp h
  obtain ⟨hRequest, -, -, hBase⟩ := foldlM_addHop_header hFold
  cases hVerify : Internal.Proof.verifyPath keccak assembled.baseTrustRoot assembled.blockHashes
      assembled.witnesses request.expectedHomeTrustRoot depth with
  | error e =>
      rw [hVerify] at h
      cases h
  | ok u =>
      rw [hVerify] at h
      cases h
      exact ⟨hRequest, hBase, rfl, Checks.require_eq_ok.mp hHead, hVerify⟩

end TrustMap.Mapnode
