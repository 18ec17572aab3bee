import TrustMap.Mapnode.TrustView

/-!
The checks `Planner.Plan` makes on the snapshot it is handed, before it looks for a path.
-/

namespace TrustMap.Mapnode

open Checks

/-- `planner.Request`. -/
structure PlanRequest where
  id : Bytes32
  attempt : UInt64
  snapshotID : Bytes32
  homeChainID : Bytes32
  deriving DecidableEq

/-- Why `Plan` refuses a snapshot. -/
inductive PlanError
  | snapshotUnsealed
  | snapshotEndpoint
  | staleSnapshot
  | duplicateNodesOrEdges
  | graph (cause : TrustViewError)
  deriving DecidableEq, Repr

/-- The errors that are about the nodes and edges of the snapshot. -/
def PlanError.isGraph : PlanError → Bool
  | .duplicateNodesOrEdges | .graph _ => true
  | .snapshotUnsealed | .snapshotEndpoint | .staleSnapshot => false

namespace TrustViewSnapshot

/-- `findSnapshotNode`. -/
def findNode (snapshot : TrustViewSnapshot) (id : NodeID) : Option TrustNode :=
  snapshot.nodes.find? fun node => node.id = id

/-- The graph of the snapshot has to be a TrustView without repetitions. -/
def checkGraph (keccak : Keccak) (snapshot : TrustViewSnapshot) : Except PlanError Unit :=
  match newTrustView keccak snapshot.revision snapshot.nodes snapshot.edges with
  | .error e => .error (.graph e)
  | .ok view =>
      require (view.nodes.length = snapshot.nodes.length ∧
        view.edges.length = snapshot.edges.length) .duplicateNodesOrEdges

end TrustViewSnapshot

/-- The part of `Plan` from the loaded snapshot to the choice of a profile. -/
def planSnapshot (keccak : Keccak) (request : PlanRequest) (snapshot : TrustViewSnapshot) :
    Except PlanError Unit := do
  require snapshot.isSealed .snapshotUnsealed
  require (snapshot.id = request.snapshotID ∧ snapshot.homeChainID = request.homeChainID)
    .snapshotEndpoint
  require (computeSnapshotID keccak request.id request.attempt snapshot.revision
    snapshot.startNodeID snapshot.targetNodeID snapshot.homeTrustRoot = snapshot.id)
    .snapshotEndpoint
  require (snapshot.startNodeID ≠ snapshot.targetNodeID) .snapshotEndpoint
  require ((snapshot.findNode snapshot.startNodeID).isSome ∧
    (snapshot.findNode snapshot.targetNodeID).isSome) .snapshotEndpoint
  snapshot.checkGraph keccak
  match snapshot.findNode snapshot.startNodeID with
  | none => .error .snapshotEndpoint
  | some start =>
      require (start.key.chainID = request.homeChainID) .snapshotEndpoint
      require (start.root = snapshot.homeTrustRoot) .staleSnapshot

/-- The graph of a snapshot is accepted if it is valid and nothing in it is repeated. -/
theorem TrustViewSnapshot.checkGraph_of_valid {keccak : Keccak} {snapshot : TrustViewSnapshot}
    (hNodes : ValidNodes keccak snapshot.nodes)
    (hEdges : ValidEdges keccak snapshot.nodes snapshot.edges) (hNodup : snapshot.nodes.Nodup)
    (hNodup' : snapshot.edges.Nodup) : snapshot.checkGraph keccak = .ok () := by
  have hView : newTrustView keccak snapshot.revision snapshot.nodes snapshot.edges = .ok _ :=
    newTrustView_eq_ok.mpr ⟨hNodes, hEdges, rfl⟩
  have hAllNodes : snapshot.nodes.foldl collect [] = snapshot.nodes := foldl_collect_of_nodup hNodup
  have hAllEdges : snapshot.edges.foldl collect [] = snapshot.edges := foldl_collect_of_nodup hNodup'
  rw [hAllNodes, hAllEdges] at hView
  unfold checkGraph
  rw [hView]
  simp

/-- A snapshot whose graph is accepted is refused only for its endpoints, its home root or its
seal. -/
theorem planSnapshot_isGraph {keccak : Keccak} {request : PlanRequest}
    {snapshot : TrustViewSnapshot} {e : PlanError} (hGraph : snapshot.checkGraph keccak = .ok ())
    (hPlan : planSnapshot keccak request snapshot = .error e) : e.isGraph = false := by
  simp only [planSnapshot, check_bind_eq_error, require_eq_error, hGraph] at hPlan
  rcases hPlan with ⟨-, rfl⟩ | ⟨-, ⟨-, rfl⟩ | ⟨-, ⟨-, rfl⟩ | ⟨-, ⟨-, rfl⟩ | ⟨-, ⟨-, rfl⟩ | hRest⟩⟩⟩⟩
  all_goals try rfl
  cases hStart : snapshot.findNode snapshot.startNodeID with
  | none => simp_all
  | some start =>
      simp only [hStart, check_bind_eq_error, require_eq_error] at hRest
      rcases hRest with ⟨-, hAccepted | ⟨-, ⟨-, rfl⟩ | ⟨-, -, rfl⟩⟩⟩
      · cases hAccepted
      · rfl
      · rfl

/-- A graph that is accepted is valid. -/
theorem TrustViewSnapshot.valid_of_checkGraph {keccak : Keccak} {snapshot : TrustViewSnapshot}
    (hGraph : snapshot.checkGraph keccak = .ok ()) :
    ValidNodes keccak snapshot.nodes ∧ ValidEdges keccak snapshot.nodes snapshot.edges := by
  unfold checkGraph at hGraph
  cases hView : newTrustView keccak snapshot.revision snapshot.nodes snapshot.edges with
  | error e =>
      rw [hView] at hGraph
      cases hGraph
  | ok view =>
      obtain ⟨hNodes, hEdges, -⟩ := newTrustView_eq_ok.mp hView
      exact ⟨hNodes, hEdges⟩

/-- A snapshot that was taken for a request. -/
structure Requested (keccak : Keccak) (request : PlanRequest) (snapshot : TrustViewSnapshot) :
    Prop where
  isSealed : snapshot.isSealed = true
  id : snapshot.id = request.snapshotID
  homeChainID : snapshot.homeChainID = request.homeChainID
  bound : computeSnapshotID keccak request.id request.attempt snapshot.revision
    snapshot.startNodeID snapshot.targetNodeID snapshot.homeTrustRoot = snapshot.id
  distinct : snapshot.startNodeID ≠ snapshot.targetNodeID
  start : ∃ node, snapshot.findNode snapshot.startNodeID = some node ∧
    node.key.chainID = request.homeChainID ∧ node.root = snapshot.homeTrustRoot
  target : (snapshot.findNode snapshot.targetNodeID).isSome

/-- A snapshot that `Plan` accepts for a request. -/
structure Plannable (keccak : Keccak) (request : PlanRequest) (snapshot : TrustViewSnapshot) : Prop
    extends Requested keccak request snapshot where
  graph : snapshot.checkGraph keccak = .ok ()

theorem planSnapshot_eq_ok {keccak : Keccak} {request : PlanRequest}
    {snapshot : TrustViewSnapshot} :
    planSnapshot keccak request snapshot = .ok () ↔ Plannable keccak request snapshot := by
  simp only [planSnapshot, check_bind_eq_ok, require_eq_ok]
  constructor
  · rintro ⟨hSealed, ⟨hID, hHome⟩, hBound, hDistinct, ⟨-, hTarget⟩, hGraph, hStart⟩
    refine ⟨⟨hSealed, hID, hHome, hBound, hDistinct, ?_, hTarget⟩, hGraph⟩
    cases hFind : snapshot.findNode snapshot.startNodeID with
    | none => simp [hFind] at hStart
    | some node =>
        simp only [hFind, check_bind_eq_ok, require_eq_ok] at hStart
        exact ⟨node, rfl, hStart⟩
  · intro h
    obtain ⟨node, hFind, hChain, hRoot⟩ := h.start
    refine ⟨h.isSealed, ⟨h.id, h.homeChainID⟩, h.bound, h.distinct, ⟨?_, h.target⟩, h.graph, ?_⟩
    · rw [hFind, Option.isSome_some]
    · simp only [hFind, check_bind_eq_ok, require_eq_ok]
      exact ⟨hChain, hRoot⟩

namespace Plannable

variable {keccak : Keccak} {request : PlanRequest} {snapshot : TrustViewSnapshot}

variable (h : Plannable keccak request snapshot)

include h

theorem validNodes : ValidNodes keccak snapshot.nodes :=
  (TrustViewSnapshot.valid_of_checkGraph h.graph).1

theorem validEdges :
    ValidEdges keccak snapshot.nodes snapshot.edges :=
  (TrustViewSnapshot.valid_of_checkGraph h.graph).2

/-- The identifiers of valid nodes are not zero. -/
theorem node_ne_zero {id : NodeID} {node : TrustNode}
    (hFind : snapshot.findNode id = some node) : id ≠ 0 := by
  have hMem := List.mem_of_find?_eq_some hFind
  have hID : node.id = id := by simpa using List.find?_some hFind
  have hValid := h.validNodes.valid node hMem
  simp only [TrustNode.validate, check_bind_eq_ok, require_eq_ok] at hValid
  exact hID ▸ hValid.2.1.2

theorem start_ne_zero : snapshot.startNodeID ≠ 0 := by
  obtain ⟨node, hFind, -⟩ := h.start
  exact h.node_ne_zero hFind

theorem target_ne_zero : snapshot.targetNodeID ≠ 0 := by
  obtain ⟨node, hFind⟩ := Option.isSome_iff_exists.mp h.target
  exact h.node_ne_zero hFind

end Plannable

end TrustMap.Mapnode
