import Mathlib.Tactic.Common

/-!
Paths in the graph of the cost replay, as the search reconstructs them: the nodes from the start to
the goal, and for every two consecutive nodes the edge between them.
-/

namespace TrustMap.Mapnode.Replay

/-- `ReplayBlockKey`. -/
structure ReplayBlockKey where
  chain : String
  height : UInt64
  deriving DecidableEq, Repr

/-- `ReplayEdgeKind`. -/
inductive ReplayEdgeKind
  | intraChainUp
  | intraChainDown
  | verifiedDependency
  deriving DecidableEq, Repr

/-- `ReplayEdge`. -/
structure ReplayEdge where
  kind : ReplayEdgeKind
  weight : UInt64
  deriving DecidableEq, Repr

/-- `ReplayPathSegment`. -/
structure ReplayPathSegment where
  fromKey : ReplayBlockKey
  toKey : ReplayBlockKey
  kind : ReplayEdgeKind
  weight : UInt64
  deriving DecidableEq, Repr

/-- `ReplayPath`. -/
structure ReplayPath where
  cost : UInt64
  nodes : List ReplayBlockKey
  segments : List ReplayPathSegment
  deriving DecidableEq, Repr

/-- The loop of `reconstructPathLocked` over consecutive nodes; there is no result if an edge is
missing. -/
def pathSegments (adjacency : ReplayBlockKey → ReplayBlockKey → Option ReplayEdge) :
    List ReplayBlockKey → Option (List ReplayPathSegment)
  | node :: next :: nodes => do
      let edge ← adjacency node next
      let segments ← pathSegments adjacency (next :: nodes)
      return ⟨node, next, edge.kind, edge.weight⟩ :: segments
  | _ => some []

/-- The path `reconstructPathLocked` returns for the nodes it has collected. -/
def reconstructPath (adjacency : ReplayBlockKey → ReplayBlockKey → Option ReplayEdge)
    (cost : UInt64) (nodes : List ReplayBlockKey) : Option ReplayPath :=
  (pathSegments adjacency nodes).map fun segments => ⟨cost, nodes, segments⟩

section Ends

variable {adjacency : ReplayBlockKey → ReplayBlockKey → Option ReplayEdge} {cost : UInt64}
  {nodes : List ReplayBlockKey} {segments : List ReplayPathSegment} {path : ReplayPath}

/-- The segments lead from each node to the next one. -/
theorem pathSegments_ends (h : pathSegments adjacency nodes = some segments) :
    segments.map (·.fromKey) = nodes.dropLast ∧ segments.map (·.toKey) = nodes.tail := by
  fun_induction pathSegments adjacency nodes generalizing segments with
  | case1 node next nodes ih =>
      simp only [Option.bind_eq_bind, Option.pure_def, Option.bind_eq_some_iff,
        Option.some.injEq] at h
      obtain ⟨edge, -, rest, hRest, rfl⟩ := h
      obtain ⟨hFrom, hTo⟩ := ih hRest
      simp [hFrom, hTo]
  | case2 nodes hShort =>
      obtain rfl : [] = segments := Option.some.inj h
      match nodes, hShort with
      | [], _ => simp
      | [_], _ => simp
      | _ :: _ :: _, hShort => exact (hShort _ _ _ rfl).elim

/-- The segments join nodes of the path. -/
theorem reconstructPath_joins (h : reconstructPath adjacency cost nodes = some path) :
    path.nodes = nodes ∧
      ∀ segment ∈ path.segments, segment.fromKey ∈ nodes ∧ segment.toKey ∈ nodes := by
  obtain ⟨segments, hSegments, rfl⟩ := Option.map_eq_some_iff.mp h
  obtain ⟨hFrom, hTo⟩ := pathSegments_ends hSegments
  refine ⟨rfl, fun segment hMem => ⟨List.dropLast_subset _ ?_, List.mem_of_mem_tail ?_⟩⟩
  · exact hFrom ▸ List.mem_map_of_mem hMem
  · exact hTo ▸ List.mem_map_of_mem hMem

/-- Every node of a path with segments is an end of one. -/
theorem reconstructPath_covers (h : reconstructPath adjacency cost nodes = some path)
    (hSome : path.segments ≠ []) {node : ReplayBlockKey} (hNode : node ∈ nodes) :
    ∃ segment ∈ path.segments, segment.fromKey = node ∨ segment.toKey = node := by
  obtain ⟨segments, hSegments, rfl⟩ := Option.map_eq_some_iff.mp h
  obtain ⟨hFrom, hTo⟩ := pathSegments_ends hSegments
  cases nodes with
  | nil => cases hNode
  | cons first rest =>
      rcases List.mem_cons.mp hNode with rfl | hRest
      · have hNe : rest ≠ [] := by
          rintro rfl
          exact hSome (List.map_eq_nil_iff.mp hTo)
        rw [List.dropLast_cons_of_ne_nil hNe] at hFrom
        obtain ⟨segment, hMem, hEq⟩ := List.mem_map.mp (hFrom ▸ List.mem_cons_self)
        exact ⟨segment, hMem, .inl hEq⟩
      · rw [List.tail_cons] at hTo
        obtain ⟨segment, hMem, hEq⟩ := List.mem_map.mp (hTo ▸ hRest)
        exact ⟨segment, hMem, .inr hEq⟩

end Ends

end TrustMap.Mapnode.Replay
