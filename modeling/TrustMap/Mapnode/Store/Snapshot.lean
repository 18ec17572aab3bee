import Mathlib.Data.List.Sort
import TrustMap.Mapnode.Store.Database

/-!
`TrustViewRepository.CreateTrustViewSnapshot`: the graph of the moment, sealed for one attempt of
one request, and the current view of the graph.
-/

namespace TrustMap.Mapnode.Store

open Transaction

/-- `CurrentTrustView`. -/
def DB.currentTrustView (keccak : Keccak) (db : DB) : Except TrustViewError TrustView :=
  newTrustView keccak (UInt64.ofNat db.revision) db.activeNodes db.activeEdges

/-- `store.TrustViewSnapshotRequest`. -/
structure SnapshotRequest where
  requestID : Bytes32
  attempt : UInt64
  homeChainID : Bytes32
  expectedHomeTrustRoot : Bytes32
  startNodeID : NodeID
  targetNodeID : NodeID
  deriving DecidableEq

/-- The rows of `snapshot_nodes` as they are loaded: sorted, and without the evidence. -/
def DB.snapshotNodes (db : DB) : List TrustNode :=
  (db.activeNodes.map fun node => { node with evidenceID := 0 }).insertionSort
    fun a b => a.id.toNat ≤ b.id.toNat

/-- The rows of `snapshot_edges` as they are loaded. -/
def DB.snapshotEdges (db : DB) : List TrustEdge :=
  db.activeEdges.insertionSort fun a b => a.id.toNat ≤ b.id.toNat

/-- The foreign keys of `snapshot_edges`: the endpoints are nodes of the snapshot and the witness
has the leaf index of the edge. -/
def DB.snapshotClosed (db : DB) : Prop :=
  ∀ edge ∈ db.activeEdges, (∃ node ∈ db.activeNodes, node.id = edge.fromID) ∧
    (∃ node ∈ db.activeNodes, node.id = edge.toID) ∧
    ∀ witness ∈ db.witnesses.rows, witness.evidenceID = edge.evidenceID →
      witness.leafIndex = edge.leafIndex

instance (db : DB) : Decidable db.snapshotClosed :=
  inferInstanceAs (Decidable (∀ edge ∈ db.activeEdges, _))

/-- `CreateTrustViewSnapshot`. -/
def createTrustViewSnapshot (keccak : Keccak) (request : SnapshotRequest) :
    DBTx TrustViewSnapshot := do
  require (request.attempt.toNat ≤ maxInt64)
    (.invalidInput "snapshot attempt exceeds SQLite INTEGER range")
  require (request.startNodeID ≠ request.targetNodeID)
    (.invalidInput "TrustView snapshot start and target must differ")
  let revision ← gets fun db => UInt64.ofNat db.revision
  let row ← gets (·.requests.find? request.requestID)
  let persisted ← expect row .recordNotFound
  require (persisted.homeChainID = request.homeChainID) .recordConflict
  let start ← loadActiveTrustNode request.startNodeID
  let target ← loadActiveTrustNode request.targetNodeID
  require (start.key.chainID = request.homeChainID ∧ start.root = request.expectedHomeTrustRoot)
    (.trustView .trustRootConflict)
  require (target.key =
    ⟨persisted.sourceChainID, persisted.sourceHeight, persisted.sourceBlockHash⟩) .evidenceBinding
  let id := computeSnapshotID keccak request.requestID request.attempt revision request.startNodeID
    request.targetNodeID request.expectedHomeTrustRoot
  match ← gets (·.snapshots.find? id) with
  | some existing => return existing
  | none =>
      let isClosed ← gets fun db => decide db.snapshotClosed
      require isClosed .constraint
      let nodes ← gets (·.snapshotNodes)
      let edges ← gets (·.snapshotEdges)
      let snapshot : TrustViewSnapshot := {
        id := id
        revision := revision
        homeChainID := request.homeChainID
        homeTrustRoot := request.expectedHomeTrustRoot
        startNodeID := request.startNodeID
        targetNodeID := request.targetNodeID
        isSealed := true
        nodes := nodes
        edges := edges }
      modify fun db => { db with snapshots := db.snapshots.insertIgnore snapshot }
      return snapshot

end TrustMap.Mapnode.Store
