import Mathlib.Data.List.Sort
import TrustMap.Mapnode.Evidence

/-!
The Go package `trustview`: nodes, edges, witnesses and dependencies of the trust graph, their
content-derived identifiers, and `NewTrustView`, which accepts a list of nodes and edges as a graph.
-/

namespace TrustMap.Mapnode

open Checks

abbrev NodeID := Bytes32
abbrev EdgeID := Bytes32
abbrev WitnessID := Bytes32

/-- The errors of the package. -/
inductive TrustViewError
  | trustRootConflict
  | invalidTrustNode
  | danglingTrustEdge
  | invalidTrustEdge
  | invalidVerifiedDependency
  | invalidObservation
  | unconfirmedObservation
  deriving DecidableEq, Repr

/-- `trustview.NodeKey`. -/
structure NodeKey where
  chainID : Bytes32
  height : Bytes32
  blockHash : Bytes32
  deriving DecidableEq, Repr

/-- `trustview.TrustNode`; the root is the hash of `TrustRoot`. -/
structure TrustNode where
  id : NodeID
  key : NodeKey
  root : Bytes32
  evidenceID : EvidenceID
  deriving DecidableEq, Repr

/-- The bytes hashed for the identifier of a node. -/
def NodeKey.encoded (key : NodeKey) : Bytes :=
  Words.encode [key.chainID, key.height, key.blockHash]

/-- `NewTrustNode`. -/
def newTrustNode (keccak : Keccak) (key : NodeKey) (root : Bytes32) (evidenceID : EvidenceID) :
    TrustNode where
  id := keccak key.encoded
  key := key
  root := root
  evidenceID := evidenceID

/-- `TrustNode.Validate`. -/
def TrustNode.validate (keccak : Keccak) (node : TrustNode) : Except TrustViewError Unit := do
  require (node.key.chainID ≠ 0) .invalidTrustNode
  require (node.key.blockHash ≠ 0 ∧ node.id ≠ 0) .invalidTrustNode
  require ((newTrustNode keccak node.key node.root node.evidenceID).id = node.id) .invalidTrustNode

/-- `trustview.TrustEdge`: from the block that recorded a dependency to the source block. -/
structure TrustEdge where
  id : EdgeID
  fromID : NodeID
  toID : NodeID
  evidenceID : EvidenceID
  leafIndex : UInt32
  witnessID : Option WitnessID
  pathStepCost : UInt64
  deriving DecidableEq, Repr

/-- The bytes hashed for the identifier of an edge. -/
def edgeEncoded (fromID toID : NodeID) (evidenceID : EvidenceID) (leafIndex : UInt32) : Bytes :=
  Words.encode [fromID, toID, evidenceID, Words.ofUInt32 leafIndex]

variable {evidenceID : EvidenceID}

/-- The encoding of an edge determines its evidence. -/
theorem edgeEncoded_evidenceID {fromID toID fromID' toID' : NodeID} {evidenceID' : EvidenceID}
    {leafIndex leafIndex' : UInt32}
    (h : edgeEncoded fromID toID evidenceID leafIndex = edgeEncoded fromID' toID' evidenceID' leafIndex') : evidenceID = evidenceID' := by
  have hWords := Words.encode_injective h
  simp only [List.cons.injEq] at hWords
  exact hWords.2.2.1

/-- `NewTrustEdge`. -/
def newTrustEdge (keccak : Keccak) (fromID toID : NodeID) (evidenceID : EvidenceID)
    (leafIndex : UInt32) (witnessID : Option WitnessID) (pathStepCost : UInt64) :
    Except TrustViewError TrustEdge := do
  require (fromID ≠ 0 ∧ toID ≠ 0 ∧ fromID ≠ toID ∧ evidenceID ≠ 0 ∧ pathStepCost ≠ 0)
    .invalidTrustEdge
  return {
    id := keccak (edgeEncoded fromID toID evidenceID leafIndex)
    fromID := fromID
    toID := toID
    evidenceID := evidenceID
    leafIndex := leafIndex
    witnessID := witnessID
    pathStepCost := pathStepCost }

/-- `TrustEdge.Validate`. -/
def TrustEdge.validate (keccak : Keccak) (edge : TrustEdge) : Except TrustViewError Unit :=
  match newTrustEdge keccak edge.fromID edge.toID edge.evidenceID edge.leafIndex edge.witnessID
      edge.pathStepCost with
  | .error _ => .error .invalidTrustEdge
  | .ok want => require (want.id = edge.id) .invalidTrustEdge

/-- `trustview.MembershipWitness`. -/
structure GraphWitness where
  id : WitnessID
  evidenceID : EvidenceID
  leafIndex : UInt32
  siblings : List Bytes32
  deriving DecidableEq, Repr

/-- The bytes hashed for the identifier of a witness: the index takes four bytes. -/
def witnessEncoded (evidenceID : EvidenceID) (leafIndex : UInt32) (siblings : List Bytes32) :
    Bytes :=
  Words.bytes evidenceID ++ Words.bigEndian 4 leafIndex.toNat ++ Words.encode siblings

/-- The encoding of a witness determines its evidence. -/
theorem witnessEncoded_evidenceID {evidenceID' : EvidenceID} {leafIndex leafIndex' : UInt32}
    {siblings siblings' : List Bytes32}
    (h : witnessEncoded evidenceID leafIndex siblings = witnessEncoded evidenceID' leafIndex' siblings') : evidenceID = evidenceID' := by
  simp only [witnessEncoded, List.append_assoc] at h
  exact Words.bytes_injective (List.append_inj_left h (by simp))

/-- The bytes hashed for the identifier of this witness. -/
def GraphWitness.encoded (witness : GraphWitness) : Bytes :=
  witnessEncoded witness.evidenceID witness.leafIndex witness.siblings

/-- `NewMembershipWitness`. -/
def newGraphWitness (keccak : Keccak) (evidenceID : EvidenceID) (leafIndex : UInt32)
    (siblings : List Bytes32) : GraphWitness where
  id := keccak (witnessEncoded evidenceID leafIndex siblings)
  evidenceID := evidenceID
  leafIndex := leafIndex
  siblings := siblings

/-- `trustview.VerifiedDependency`. -/
structure VerifiedDependency where
  requestID : Bytes32
  dependencyKey : Bytes32
  sourceChainID : Bytes32
  sourceHeight : Bytes32
  sourceBlockHash : Bytes32
  sourceTrustRoot : Bytes32
  leafIndex : UInt32
  evidenceID : EvidenceID
  deriving DecidableEq, Repr

/-- `ComputeDependencyKey`. -/
def computeDependencyKey (keccak : Keccak) (chainID height blockHash root : Bytes32) : Bytes32 :=
  keccak (Words.encode [chainID, height, blockHash, root])

/-- `NewVerifiedDependency`. -/
def newVerifiedDependency (keccak : Keccak)
    (requestID sourceChainID sourceHeight sourceBlockHash sourceTrustRoot : Bytes32)
    (leafIndex : UInt32) (evidenceID : EvidenceID) : VerifiedDependency where
  requestID := requestID
  dependencyKey :=
    computeDependencyKey keccak sourceChainID sourceHeight sourceBlockHash sourceTrustRoot
  sourceChainID := sourceChainID
  sourceHeight := sourceHeight
  sourceBlockHash := sourceBlockHash
  sourceTrustRoot := sourceTrustRoot
  leafIndex := leafIndex
  evidenceID := evidenceID

/-- `ComputeDependencyRecordedPayloadDigest`. -/
def VerifiedDependency.payloadDigest (keccak : Keccak) (dependency : VerifiedDependency) :
    Bytes32 :=
  keccak (Words.encode [dependency.dependencyKey, dependency.requestID, dependency.sourceChainID,
    dependency.sourceHeight, dependency.sourceBlockHash, dependency.sourceTrustRoot,
    Words.ofUInt32 dependency.leafIndex])

/-- `VerifiedDependency.Validate`. -/
def VerifiedDependency.validate (keccak : Keccak) (dependency : VerifiedDependency)
    (target : TrustNode) (payloadDigest : Bytes32) : Except TrustViewError Unit := do
  require (dependency.requestID ≠ 0 ∧ dependency.evidenceID ≠ 0) .invalidVerifiedDependency
  require (dependency.sourceChainID ≠ 0) .invalidVerifiedDependency
  require
    (dependency.dependencyKey = computeDependencyKey keccak dependency.sourceChainID
        dependency.sourceHeight dependency.sourceBlockHash dependency.sourceTrustRoot ∧
      dependency.sourceChainID = target.key.chainID ∧
      dependency.sourceHeight = target.key.height ∧
      dependency.sourceBlockHash = target.key.blockHash ∧
      dependency.sourceTrustRoot = target.root ∧
      payloadDigest = dependency.payloadDigest keccak)
    .invalidVerifiedDependency

/-- `trustview.TrustRootObservationContent`. -/
structure ObservationContent where
  chainID : Bytes32
  height : Bytes32
  blockHash : Bytes32
  gateway : Address
  trustRoot : Bytes32
  gatewayCodeHash : Bytes32
  requiredConfirmations : UInt64
  confirmedHeadHeight : Bytes32
  confirmedHeadHash : Bytes32
  deriving DecidableEq, Repr

/-- `trustview.TrustRootObservation` without its time stamp. -/
structure TrustRootObservation extends ObservationContent where
  id : Bytes32
  deriving DecidableEq, Repr

namespace ObservationContent

/-- `TrustRootObservation.Validate`. -/
def validate (content : ObservationContent) : Except TrustViewError Unit := do
  require (content.chainID ≠ 0) .invalidObservation
  require (content.blockHash ≠ 0 ∧ content.gateway ≠ 0 ∧ content.gatewayCodeHash ≠ 0 ∧
    content.confirmedHeadHash ≠ 0 ∧ content.requiredConfirmations ≠ 0) .invalidObservation
  require (content.height.toNat + content.requiredConfirmations.toNat ≤
    content.confirmedHeadHeight.toNat) .unconfirmedObservation

/-- `TrustRootObservation.ComputeID`. -/
def computeID (keccak : Keccak) (content : ObservationContent) : Bytes32 :=
  keccak (Words.encode [content.chainID, content.height, content.blockHash,
    content.gateway.setWidth 256, content.trustRoot, content.gatewayCodeHash,
    Words.ofUInt64 content.requiredConfirmations, content.confirmedHeadHeight,
    content.confirmedHeadHash])

/-- The domain separator of synthetic payload digests. -/
def payloadDomain : Bytes :=
  "TrustMap/TrustRootObservation/v1".toList.map (fun c => UInt8.ofNat c.toNat) ++ [0]

/-- The locator of `SyntheticEvidence`: no transaction, and a payload that names the
observation. -/
def syntheticLocator (keccak : Keccak) (content : ObservationContent) : Locator where
  chainID := content.chainID
  contractAddress := content.gateway
  blockNumber := content.height
  blockHash := content.blockHash
  txHash := 0
  txIndex := 0
  logIndex := 0
  payloadDigest := keccak (payloadDomain ++ Words.bytes (content.computeID keccak))

/-- `TrustRootObservation.SyntheticEvidence`; the source ignores the error of the identifier. -/
def syntheticEvidence (keccak : Keccak) (content : ObservationContent) : EvidenceRecord where
  id := ((content.syntheticLocator keccak).computeSyntheticID keccak).toOption.getD 0
  locator := content.syntheticLocator keccak
  state := .candidate
  invalidReason := ""

/-- `TrustRootObservation.TrustNode`. -/
def trustNode (keccak : Keccak) (content : ObservationContent) : TrustNode :=
  newTrustNode keccak ⟨content.chainID, content.height, content.blockHash⟩ content.trustRoot
    (content.syntheticEvidence keccak).id

theorem validate_eq_ok {content : ObservationContent} :
    content.validate = .ok () ↔ content.chainID ≠ 0 ∧
      (content.blockHash ≠ 0 ∧ content.gateway ≠ 0 ∧ content.gatewayCodeHash ≠ 0 ∧
        content.confirmedHeadHash ≠ 0 ∧ content.requiredConfirmations ≠ 0) ∧
      content.height.toNat + content.requiredConfirmations.toNat ≤
        content.confirmedHeadHeight.toNat := by
  simp only [validate, check_bind_eq_ok, require_eq_ok]

end ObservationContent

/-- `trustview.TrustView`. -/
structure TrustView where
  revision : UInt64
  nodes : List TrustNode
  edges : List TrustEdge
  deriving DecidableEq, Repr

/-- One turn of the first loop of `NewTrustView`, over the nodes taken so far. -/
def addNode (keccak : Keccak) (taken : List TrustNode) (node : TrustNode) :
    Except TrustViewError (List TrustNode) := do
  node.validate keccak
  require (∀ previous ∈ taken, previous.key = node.key → previous.root = node.root)
    .trustRootConflict
  match taken.find? fun previous => previous.id = node.id with
  | some previous =>
      require (previous.key = node.key ∧ previous.root = node.root ∧
        previous.evidenceID = node.evidenceID) .trustRootConflict
      return taken
  | none => return taken ++ [node]

/-- One turn of the second loop of `NewTrustView`, over the edges taken so far. -/
def addEdge (keccak : Keccak) (nodes : List TrustNode) (taken : List TrustEdge)
    (edge : TrustEdge) : Except TrustViewError (List TrustEdge) := do
  edge.validate keccak
  match nodes.find? (fun node => node.id = edge.fromID),
    nodes.find? (fun node => node.id = edge.toID) with
  | some fromNode, some toNode =>
      require (fromNode.key.chainID ≠ toNode.key.chainID) .invalidTrustEdge
      match taken.find? fun previous => previous.id = edge.id with
      | some previous =>
          require (previous = edge) .invalidTrustEdge
          return taken
      | none => return taken ++ [edge]
  | _, _ => .error .danglingTrustEdge

/-- `NewTrustView`. The maps of the source are lists here; the result is sorted by identifier. -/
def newTrustView (keccak : Keccak) (revision : UInt64) (nodes : List TrustNode)
    (edges : List TrustEdge) : Except TrustViewError TrustView := do
  let byID ← nodes.foldlM (addNode keccak) []
  let uniqueEdges ← edges.foldlM (addEdge keccak byID) []
  return {
    revision := revision
    nodes := byID.insertionSort fun a b => a.id.toNat ≤ b.id.toNat
    edges := uniqueEdges.insertionSort fun a b => a.id.toNat ≤ b.id.toNat }

/-- `trustview.TrustViewSnapshot`. -/
structure TrustViewSnapshot where
  id : Bytes32
  revision : UInt64
  homeChainID : Bytes32
  homeTrustRoot : Bytes32
  startNodeID : NodeID
  targetNodeID : NodeID
  isSealed : Bool
  nodes : List TrustNode
  edges : List TrustEdge
  deriving DecidableEq, Repr

/-- `ComputeSnapshotID`. -/
def computeSnapshotID (keccak : Keccak) (requestID : Bytes32) (attempt revision : UInt64)
    (start target : NodeID) (expectedHomeRoot : Bytes32) : Bytes32 :=
  keccak (Words.encode [requestID, Words.ofUInt64 attempt, Words.ofUInt64 revision, start, target,
    expectedHomeRoot])

/-! ## Which graphs are accepted -/

variable {keccak : Keccak}

theorem TrustNode.validate_eq_ok {node : TrustNode} :
    node.validate keccak = .ok () ↔ node.key.chainID ≠ 0 ∧ node.key.blockHash ≠ 0 ∧
      node.id ≠ 0 ∧ keccak node.key.encoded = node.id := by
  simp only [TrustNode.validate, check_bind_eq_ok, require_eq_ok, and_assoc]
  exact Iff.rfl

theorem newTrustEdge_eq_ok {fromID toID : NodeID} {leafIndex : UInt32}
    {witnessID : Option WitnessID} {pathStepCost : UInt64} {edge : TrustEdge} :
    newTrustEdge keccak fromID toID evidenceID leafIndex witnessID pathStepCost = .ok edge ↔
      (fromID ≠ 0 ∧ toID ≠ 0 ∧ fromID ≠ toID ∧ evidenceID ≠ 0 ∧ pathStepCost ≠ 0) ∧
        ⟨keccak (edgeEncoded fromID toID evidenceID leafIndex), fromID, toID, evidenceID,
          leafIndex, witnessID, pathStepCost⟩ = edge := by
  simp only [newTrustEdge, check_bind_eq_ok, require_eq_ok, pure_eq_ok]

theorem TrustEdge.validate_eq_ok {edge : TrustEdge} :
    edge.validate keccak = .ok () ↔
      (edge.fromID ≠ 0 ∧ edge.toID ≠ 0 ∧ edge.fromID ≠ edge.toID ∧ edge.evidenceID ≠ 0 ∧
        edge.pathStepCost ≠ 0) ∧
      keccak (edgeEncoded edge.fromID edge.toID edge.evidenceID edge.leafIndex) = edge.id := by
  unfold TrustEdge.validate
  cases hNew : newTrustEdge keccak edge.fromID edge.toID edge.evidenceID edge.leafIndex
      edge.witnessID edge.pathStepCost with
  | error e =>
      simp only [reduceCtorEq, false_iff]
      rintro ⟨hFields, -⟩
      rw [newTrustEdge_eq_ok.mpr ⟨hFields, rfl⟩] at hNew
      cases hNew
  | ok want =>
      obtain ⟨hFields, rfl⟩ := newTrustEdge_eq_ok.mp hNew
      rw [require_eq_ok]
      exact (and_iff_right hFields).symm

/-- A valid dependency names the chain of its source block. -/
theorem VerifiedDependency.validate_chain {dependency : VerifiedDependency} {target : TrustNode}
    {payloadDigest : Bytes32} (h : dependency.validate keccak target payloadDigest = .ok ()) :
    target.key.chainID = dependency.sourceChainID := by
  simp only [VerifiedDependency.validate, check_bind_eq_ok, require_eq_ok] at h
  exact h.2.2.2.1.symm

theorem VerifiedDependency.validate_leaf {dependency : VerifiedDependency} {target : TrustNode}
    {payloadDigest : Bytes32} (h : dependency.validate keccak target payloadDigest = .ok ()) :
    dependency.sourceBlockHash = target.key.blockHash ∧
      dependency.sourceTrustRoot = target.root := by
  simp only [VerifiedDependency.validate, check_bind_eq_ok, require_eq_ok] at h
  exact ⟨h.2.2.2.2.2.1, h.2.2.2.2.2.2.1⟩

/-- What `NewTrustView` asks of its nodes. -/
structure ValidNodes (keccak : Keccak) (nodes : List TrustNode) : Prop where
  valid : ∀ node ∈ nodes, node.validate keccak = .ok ()
  unique : ∀ node ∈ nodes, ∀ node' ∈ nodes, node.id = node'.id → node = node'

/-- An edge between blocks of two chains that are among the nodes. -/
def CrossChain (nodes : List TrustNode) (edge : TrustEdge) : Prop :=
  ∃ fromNode ∈ nodes, ∃ toNode ∈ nodes, fromNode.id = edge.fromID ∧ toNode.id = edge.toID ∧
    fromNode.key.chainID ≠ toNode.key.chainID

/-- What `NewTrustView` asks of its edges. -/
structure ValidEdges (keccak : Keccak) (nodes : List TrustNode) (edges : List TrustEdge) :
    Prop where
  valid : ∀ edge ∈ edges, edge.validate keccak = .ok ()
  crossChain : ∀ edge ∈ edges, CrossChain nodes edge
  unique : ∀ edge ∈ edges, ∀ edge' ∈ edges, edge.id = edge'.id → edge = edge'

variable {nodes : List TrustNode}

theorem ValidNodes.of_subset {nodes' : List TrustNode} (h : ValidNodes keccak nodes)
    (hSub : ∀ node ∈ nodes', node ∈ nodes) :
    ValidNodes keccak nodes' where
  valid node hNode := h.valid node (hSub node hNode)
  unique node hNode node' hNode' := h.unique node (hSub node hNode) node' (hSub node' hNode')

theorem ValidEdges.of_subset {edges edges' : List TrustEdge} (h : ValidEdges keccak nodes edges)
    (hSub : ∀ edge ∈ edges', edge ∈ edges) : ValidEdges keccak nodes edges' where
  valid edge hEdge := h.valid edge (hSub edge hEdge)
  crossChain edge hEdge := h.crossChain edge (hSub edge hEdge)
  unique edge hEdge edge' hEdge' := h.unique edge (hSub edge hEdge) edge' (hSub edge' hEdge')

theorem addNode_eq_ok {taken result : List TrustNode} {node : TrustNode}
    (hTaken : ValidNodes keccak taken) :
    addNode keccak taken node = .ok result ↔
      ValidNodes keccak (taken ++ [node]) ∧ result = collect taken node := by
  have hAppend : ValidNodes keccak (taken ++ [node]) ↔
      node.validate keccak = .ok () ∧ ∀ a ∈ taken, a.id = node.id → a = node := by
    rw [← unique_append_singleton hTaken.unique]
    constructor
    · intro h
      exact ⟨h.valid node (by simp), h.unique⟩
    · rintro ⟨hNode, hUnique⟩
      refine ⟨fun a ha => ?_, hUnique⟩
      rcases List.mem_append.mp ha with ha | ha
      · exact hTaken.valid a ha
      · rw [List.mem_singleton.mp ha]
        exact hNode
  rw [hAppend]
  simp only [addNode, check_bind_eq_ok, require_eq_ok, and_assoc]
  refine and_congr_right fun hNode => ?_
  -- the identifier determines the key, so an equal key means an equal identifier
  have hKeyID : ∀ a ∈ taken, a.key = node.key → a.id = node.id := by
    intro a ha hKey
    rw [← (TrustNode.validate_eq_ok.mp (hTaken.valid a ha)).2.2.2, hKey]
    exact (TrustNode.validate_eq_ok.mp hNode).2.2.2
  cases hFind : taken.find? fun previous => previous.id = node.id with
  | none =>
      have hNew := find?_key_eq_none.mp hFind
      have hNotMem : node ∉ taken := fun hMem => hNew node hMem rfl
      simp only [pure_eq_ok, collect, if_neg hNotMem]
      constructor
      · rintro ⟨-, rfl⟩
        exact ⟨fun a ha hID => absurd hID (hNew a ha), rfl⟩
      · rintro ⟨-, rfl⟩
        exact ⟨fun a ha hKey => absurd (hKeyID a ha hKey) (hNew a ha), rfl⟩
  | some previous =>
      obtain ⟨hMem, hID⟩ := (find?_key_eq_some hTaken.unique).mp hFind
      simp only [check_bind_eq_ok, require_eq_ok, pure_eq_ok]
      constructor
      · rintro ⟨-, ⟨hKey, hRoot, hEvidence⟩, rfl⟩
        obtain rfl : previous = node := by
          cases previous
          cases node
          simp_all
        exact ⟨fun a ha hIDa => hTaken.unique a ha previous hMem hIDa, by simp [collect, hMem]⟩
      · rintro ⟨hUnique, rfl⟩
        obtain rfl : previous = node := hUnique previous hMem hID
        refine ⟨fun a ha hKey => ?_, ⟨rfl, rfl, rfl⟩, by simp [collect, hMem]⟩
        rw [hUnique a ha (hKeyID a ha hKey)]

theorem addEdge_eq_ok {taken result : List TrustEdge} {edge : TrustEdge}
    (hNodes : ValidNodes keccak nodes) (hTaken : ValidEdges keccak nodes taken) :
    addEdge keccak nodes taken edge = .ok result ↔
      ValidEdges keccak nodes (taken ++ [edge]) ∧ result = collect taken edge := by
  have hAppend : ValidEdges keccak nodes (taken ++ [edge]) ↔
      edge.validate keccak = .ok () ∧ CrossChain nodes edge ∧
        ∀ a ∈ taken, a.id = edge.id → a = edge := by
    rw [← unique_append_singleton hTaken.unique]
    constructor
    · intro h
      exact ⟨h.valid edge (by simp), h.crossChain edge (by simp), h.unique⟩
    · rintro ⟨hEdge, hCross, hUnique⟩
      refine ⟨fun a ha => ?_, fun a ha => ?_, hUnique⟩
      all_goals rcases List.mem_append.mp ha with ha | ha
      · exact hTaken.valid a ha
      · rw [List.mem_singleton.mp ha]
        exact hEdge
      · exact hTaken.crossChain a ha
      · rw [List.mem_singleton.mp ha]
        exact hCross
  rw [hAppend]
  simp only [addEdge, check_bind_eq_ok, and_assoc]
  refine and_congr_right fun _ => ?_
  cases hFrom : nodes.find? fun node => node.id = edge.fromID with
  | none =>
      have hMissing := find?_key_eq_none.mp hFrom
      simp only [reduceCtorEq, false_iff]
      rintro ⟨⟨node, hNode, -, -, hID, -⟩, -⟩
      exact hMissing node hNode hID
  | some fromNode =>
  cases hTo : nodes.find? fun node => node.id = edge.toID with
  | none =>
      have hMissing := find?_key_eq_none.mp hTo
      simp only [reduceCtorEq, false_iff]
      rintro ⟨⟨-, -, node, hNode, -, hID, -⟩, -⟩
      exact hMissing node hNode hID
  | some toNode =>
      obtain ⟨hFromMem, hFromID⟩ := (find?_key_eq_some hNodes.unique).mp hFrom
      obtain ⟨hToMem, hToID⟩ := (find?_key_eq_some hNodes.unique).mp hTo
      have hCross : CrossChain nodes edge ↔ fromNode.key.chainID ≠ toNode.key.chainID := by
        constructor
        · rintro ⟨f, hf, t, ht, hfID, htID, hNe⟩
          rwa [hNodes.unique fromNode hFromMem f hf (hFromID.trans hfID.symm),
            hNodes.unique toNode hToMem t ht (hToID.trans htID.symm)]
        · intro hNe
          exact ⟨fromNode, hFromMem, toNode, hToMem, hFromID, hToID, hNe⟩
      simp only [check_bind_eq_ok, require_eq_ok, hCross]
      refine and_congr_right fun _ => ?_
      cases hFind : taken.find? fun previous => previous.id = edge.id with
      | none =>
          have hNew := find?_key_eq_none.mp hFind
          have hNotMem : edge ∉ taken := fun hMem => hNew edge hMem rfl
          simp only [pure_eq_ok, collect, if_neg hNotMem]
          constructor
          · rintro rfl
            exact ⟨fun a ha hID => absurd hID (hNew a ha), rfl⟩
          · rintro ⟨-, rfl⟩
            rfl
      | some previous =>
          obtain ⟨hMem, hID⟩ := (find?_key_eq_some hTaken.unique).mp hFind
          simp only [check_bind_eq_ok, require_eq_ok, pure_eq_ok]
          constructor
          · rintro ⟨rfl, rfl⟩
            exact ⟨fun a ha hIDa => hTaken.unique a ha previous hMem hIDa, by simp [collect, hMem]⟩
          · rintro ⟨hUnique, rfl⟩
            obtain rfl : previous = edge := hUnique previous hMem hID
            exact ⟨rfl, by simp [collect, hMem]⟩

/-- `NewTrustView` accepts exactly the valid nodes with valid edges between them, and its view has
those nodes and edges, without repetitions and in the order of their identifiers. -/
theorem newTrustView_eq_ok {revision : UInt64} {edges : List TrustEdge} {view : TrustView} :
    newTrustView keccak revision nodes edges = .ok view ↔
      ValidNodes keccak nodes ∧ ValidEdges keccak nodes edges ∧
        view = {
          revision := revision
          nodes := (nodes.foldl collect []).insertionSort fun a b => a.id.toNat ≤ b.id.toNat
          edges := (edges.foldl collect []).insertionSort fun a b => a.id.toNat ≤ b.id.toNat } := by
  have hNodes : ∀ byID, nodes.foldlM (addNode keccak) [] = .ok byID ↔
      ValidNodes keccak nodes ∧ byID = nodes.foldl collect [] := by
    intro byID
    refine foldlM_collect_eq_ok (fun xs ys hSub h => h.of_subset hSub)
      (fun taken item result h => addNode_eq_ok h) ⟨?_, ?_⟩ nodes
    all_goals simp
  have hEdges : ∀ byID uniqueEdges, ValidNodes keccak byID →
      (edges.foldlM (addEdge keccak byID) [] = .ok uniqueEdges ↔
        ValidEdges keccak byID edges ∧ uniqueEdges = edges.foldl collect []) := by
    intro byID uniqueEdges hValid
    refine foldlM_collect_eq_ok (fun xs ys hSub h => h.of_subset hSub)
      (fun taken item result h => addEdge_eq_ok hValid h) ⟨?_, ?_, ?_⟩ edges
    all_goals simp
  have hSame : ∀ node, node ∈ nodes.foldl collect [] ↔ node ∈ nodes := by
    intro node
    rw [mem_foldl_collect]
    simp
  have hCross : ∀ edge, CrossChain (nodes.foldl collect []) edge ↔ CrossChain nodes edge := by
    intro edge
    simp only [CrossChain, hSame]
  simp only [newTrustView, bind_eq_ok, hNodes, pure_eq_ok]
  constructor
  · rintro ⟨byID, ⟨hValid, rfl⟩, uniqueEdges, hFold, rfl⟩
    have hCollected := hValid.of_subset fun node h => (hSame node).mp h
    obtain ⟨hValidEdges, rfl⟩ := (hEdges _ uniqueEdges hCollected).mp hFold
    refine ⟨hValid, ⟨hValidEdges.valid, fun edge h => ?_, hValidEdges.unique⟩, rfl⟩
    exact (hCross edge).mp (hValidEdges.crossChain edge h)
  · rintro ⟨hValid, hValidEdges, rfl⟩
    have hCollected := hValid.of_subset fun node h => (hSame node).mp h
    refine ⟨_, ⟨hValid, rfl⟩, _, (hEdges _ _ hCollected).mpr ⟨⟨hValidEdges.valid, ?_,
      hValidEdges.unique⟩, rfl⟩, rfl⟩
    intro edge h
    exact (hCross edge).mpr (hValidEdges.crossChain edge h)

end TrustMap.Mapnode
