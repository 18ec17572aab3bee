import Mathlib.Data.List.Induction
import Mathlib.Data.List.Lex
import Mathlib.Data.List.Sort
import Mathlib.Data.Prod.Lex
import TrustMap.Library.GuardedSearch
import TrustMap.Library.Reachability
import TrustMap.Mapnode.TrustView

/-!
The searches of the planner on the graph of a snapshot: whether there is a directed path from the
start to the target, and the first one in the planner's order of paths.
-/

namespace TrustMap.Mapnode

/-- `math.MaxUint64`. -/
def maxUint64 : UInt64 := UInt64.ofNat (2 ^ 64 - 1)

/-- Why the search of `Plan` fails. -/
inductive SearchError
  | pathCostOverflow
  | inconsistentPathStepCost
  | pathDisappeared
  deriving DecidableEq, Repr

namespace TrustViewSnapshot

/-- The edges of a snapshot as a graph. -/
def graph (snapshot : TrustViewSnapshot) : Digraph.Edges NodeID TrustEdge where
  edges := snapshot.edges
  source := TrustEdge.fromID
  target := TrustEdge.toID

/-- The edges out of a node, sorted by their identifiers. -/
def adjacency (snapshot : TrustViewSnapshot) (node : NodeID) : List TrustEdge :=
  (snapshot.edges.filter fun edge => edge.fromID = node).insertionSort
    fun a b => a.id.toNat ≤ b.id.toNat

theorem adjacency_lists (snapshot : TrustViewSnapshot) :
    snapshot.graph.Lists snapshot.adjacency := by
  intro node edge
  simp [adjacency, graph]

theorem adjacency_length (snapshot : TrustViewSnapshot) (node : NodeID) :
    (snapshot.adjacency node).length = snapshot.edges.countP fun edge => edge.fromID = node := by
  rw [adjacency, List.length_insertionSort, List.countP_eq_length_filter]

/-- `directedReachability`. -/
def directedReachability (snapshot : TrustViewSnapshot) : Bool :=
  snapshot.graph.search snapshot.adjacency snapshot.targetNodeID (snapshot.edges.length + 1)
    ([snapshot.startNodeID], [snapshot.startNodeID])

theorem directedReachability_iff {snapshot : TrustViewSnapshot} :
    snapshot.directedReachability = true ↔
      ∃ path, snapshot.graph.IsPath snapshot.startNodeID path snapshot.targetNodeID :=
  Digraph.Edges.search_start snapshot.adjacency_lists (Nat.lt_succ_self _)

end TrustViewSnapshot

/-- `candidate`. -/
structure Candidate where
  node : NodeID
  cost : UInt64
  path : List TrustEdge
  deriving DecidableEq

namespace Candidate

/-- What `compareCandidate` compares, in this order: the cost, the number of edges, their
identifiers and the node. -/
def key (candidate : Candidate) : ℕ ×ₗ ℕ ×ₗ List ℕ ×ₗ ℕ :=
  toLex (candidate.cost.toNat, toLex (candidate.path.length,
    toLex (candidate.path.map (·.id.toNat), candidate.node.toNat)))

/-- The candidate one edge further; there is none if the cost overflows. -/
def extend (candidate : Candidate) (edge : TrustEdge) : Option Candidate :=
  if maxUint64 - edge.pathStepCost < candidate.cost then none
  else some ⟨edge.toID, candidate.cost + edge.pathStepCost, candidate.path ++ [edge]⟩

theorem extend_eq_some {candidate next : Candidate} {edge : TrustEdge} :
    candidate.extend edge = some next ↔
      candidate.cost.toNat + edge.pathStepCost.toNat < 2 ^ 64 ∧ next.node = edge.toID ∧
        next.cost.toNat = candidate.cost.toNat + edge.pathStepCost.toNat ∧
        next.path = candidate.path ++ [edge] := by
  have hStep := edge.pathStepCost.toNat_lt
  have hMax : (maxUint64 - edge.pathStepCost).toNat = 2 ^ 64 - 1 - edge.pathStepCost.toNat := by
    rw [UInt64.toNat_sub_of_le]
    · rfl
    · rw [UInt64.le_iff_toNat_le]
      exact Nat.le_pred_of_lt hStep
  unfold extend
  by_cases hOver : maxUint64 - edge.pathStepCost < candidate.cost
  · rw [if_pos hOver]
    rw [UInt64.lt_iff_toNat_lt, hMax] at hOver
    simp only [reduceCtorEq, false_iff]
    omega
  · rw [if_neg hOver]
    rw [UInt64.lt_iff_toNat_lt, hMax] at hOver
    have hSum : candidate.cost.toNat + edge.pathStepCost.toNat < 2 ^ 64 := by omega
    have hCost : (candidate.cost + edge.pathStepCost).toNat =
        candidate.cost.toNat + edge.pathStepCost.toNat := by
      rw [UInt64.toNat_add, Nat.mod_eq_of_lt hSum]
    constructor
    · rintro ⟨⟩
      exact ⟨hSum, rfl, hCost, rfl⟩
    · rintro ⟨-, hNode, hNext, hPath⟩
      obtain ⟨node, cost, path⟩ := next
      obtain rfl : candidate.cost + edge.pathStepCost = cost := by
        rw [← UInt64.toNat_inj, hCost]
        exact hNext.symm
      dsimp only at hNode hPath
      rw [hNode, hPath]

theorem lt_append_of_length {a b : List ℕ} (hLength : a.length = b.length) (hLt : a < b)
    (suffix : List ℕ) : a ++ suffix < b ++ suffix := by
  have hLex : List.Lex (· < ·) a b := hLt
  induction hLex with
  | nil => simp at hLength
  | cons hRest ih => exact List.Lex.cons (ih (by simpa using hLength) hRest)
  | rel hFirst => exact List.Lex.rel hFirst

theorem extend_lt {candidate next : Candidate} {edge : TrustEdge}
    (hExtend : candidate.extend edge = some next) : candidate.key < next.key := by
  obtain ⟨-, -, hCost, hPath⟩ := extend_eq_some.mp hExtend
  simp only [key, Prod.Lex.toLex_lt_toLex, hCost, hPath, List.length_append, List.length_singleton]
  rcases Nat.eq_zero_or_pos edge.pathStepCost.toNat with hZero | hPos
  · exact Or.inr ⟨by omega, Or.inl (Nat.lt_succ_self _)⟩
  · exact Or.inl (by omega)

theorem extend_mono {left right next : Candidate} {edge : TrustEdge} (hKey : left.key ≤ right.key)
    (hExtend : right.extend edge = some next) :
    ∃ next', left.extend edge = some next' ∧ next'.key ≤ next.key := by
  obtain ⟨hSum, hNode, hCost, hPath⟩ := extend_eq_some.mp hExtend
  simp only [key, Prod.Lex.toLex_le_toLex] at hKey
  have hLeft : left.cost.toNat ≤ right.cost.toNat := by
    rcases hKey with hLt | ⟨hEq, -⟩
    · exact Nat.le_of_lt hLt
    · exact Nat.le_of_eq hEq
  have hSum' : left.cost.toNat + edge.pathStepCost.toNat < 2 ^ 64 := by omega
  refine ⟨⟨edge.toID, left.cost + edge.pathStepCost, left.path ++ [edge]⟩,
    extend_eq_some.mpr ⟨hSum', rfl, ?_, rfl⟩, ?_⟩
  · exact (UInt64.toNat_add ..).trans (Nat.mod_eq_of_lt hSum')
  · have hCost' : (left.cost + edge.pathStepCost).toNat =
        left.cost.toNat + edge.pathStepCost.toNat :=
      (UInt64.toNat_add ..).trans (Nat.mod_eq_of_lt hSum')
    simp only [key, Prod.Lex.toLex_le_toLex, hCost, hCost', hPath, hNode, List.length_append,
      List.length_singleton, List.map_append]
    rcases hKey with hLt | ⟨hEq, hLt | ⟨hLength, hIDs⟩⟩
    · exact Or.inl (by omega)
    · exact Or.inr ⟨by omega, Or.inl (by omega)⟩
    · refine Or.inr ⟨by omega, Or.inr ⟨by omega, ?_⟩⟩
      rcases hIDs with hLt | ⟨hSame, -⟩
      · exact Or.inl (lt_append_of_length (by simpa using hLength) hLt _)
      · exact Or.inr ⟨by rw [hSame], le_refl _⟩

end Candidate

/-- The step costs of the edges of a path, summed. -/
def pathCost (path : List TrustEdge) : ℕ :=
  (path.map (·.pathStepCost.toNat)).sum

namespace TrustViewSnapshot

/-- The search of `shortestPath`. -/
def problem (snapshot : TrustViewSnapshot) :
    BestFirst NodeID TrustEdge Candidate (ℕ ×ₗ ℕ ×ₗ List ℕ ×ₗ ℕ) where
  adjacency := snapshot.adjacency
  node := Candidate.node
  key := Candidate.key
  extend := Candidate.extend

/-- The candidate at the start. -/
def start (snapshot : TrustViewSnapshot) : Candidate :=
  ⟨snapshot.startNodeID, 0, []⟩

/-- `shortestPath`: the path and its cost. -/
def shortestPath (snapshot : TrustViewSnapshot) : Except SearchError (List TrustEdge × UInt64) :=
  match snapshot.problem.run snapshot.targetNodeID (snapshot.edges.length + 2)
      (.init snapshot.problem snapshot.start) with
  | some (.found candidate) => .ok (candidate.path, candidate.cost)
  | some (.exhausted true) => .error .pathCostOverflow
  | _ => .error .pathDisappeared

/-- `trustedPathStepCost`. -/
def trustedPathStepCost (edges : List TrustEdge) : Except SearchError UInt64 :=
  match edges with
  | [] => .ok 0
  | edge :: edges =>
      if edge.pathStepCost = 0 then .error .inconsistentPathStepCost
      else if ∀ other ∈ edges, other.pathStepCost = edge.pathStepCost then .ok edge.pathStepCost
      else .error .inconsistentPathStepCost

theorem problem_lawful (snapshot : TrustViewSnapshot) : snapshot.problem.Lawful where
  node_of_key {left right} hKey := by
    have hNode : left.node.toNat = right.node.toNat :=
      congrArg (fun key : ℕ ×ₗ ℕ ×ₗ List ℕ ×ₗ ℕ =>
        (ofLex (ofLex (ofLex key).2).2).2) hKey
    exact BitVec.eq_of_toNat_eq hNode
  node_extend hLeft hRight :=
    (Candidate.extend_eq_some.mp hLeft).2.1.trans (Candidate.extend_eq_some.mp hRight).2.1.symm
  extend_lt := Candidate.extend_lt
  extend_mono := Candidate.extend_mono

theorem problem_bounded (snapshot : TrustViewSnapshot) :
    snapshot.problem.Bounded snapshot.edges TrustEdge.fromID :=
  ⟨fun node => Nat.le_of_eq (snapshot.adjacency_length node)⟩

/-! ## The first path -/

/-- The order of paths at a uniform step cost: fewer edges first, then smaller identifiers. -/
def rank (path : List TrustEdge) : ℕ ×ₗ List ℕ :=
  toLex (path.length, path.map (·.id.toNat))

/-- A directed path from the start to the target. -/
def Joins (snapshot : TrustViewSnapshot) (path : List TrustEdge) : Prop :=
  snapshot.graph.IsPath snapshot.startNodeID path snapshot.targetNodeID

/-- A path from the start to the target that no other one precedes. -/
structure IsFirstPath (snapshot : TrustViewSnapshot) (path : List TrustEdge) : Prop where
  joins : snapshot.Joins path
  first : ∀ other, snapshot.Joins other → rank path ≤ rank other

section Uniform

variable {snapshot : TrustViewSnapshot} {step : UInt64}

/-- The edges have one positive step cost. -/
structure UniformStep (snapshot : TrustViewSnapshot) (step : UInt64) : Prop where
  uniform : ∀ edge ∈ snapshot.edges, edge.pathStepCost = step
  positive : 0 < step.toNat

/-- The edges have one positive step cost, and no sum of step costs leaves the range of the costs. -/
structure UniformCost (snapshot : TrustViewSnapshot) (step : UInt64) : Prop where
  uniform : ∀ edge ∈ snapshot.edges, edge.pathStepCost = step
  positive : 0 < step.toNat
  range : snapshot.edges.length * step.toNat < 2 ^ 64

theorem UniformCost.uniformStep (hCost : snapshot.UniformCost step) : snapshot.UniformStep step :=
  ⟨hCost.uniform, hCost.positive⟩

theorem reached_isPath {candidate : Candidate}
    (hReached : snapshot.problem.Reached snapshot.start candidate) :
    snapshot.graph.IsPath snapshot.startNodeID candidate.path candidate.node := by
  induction hReached with
  | start => rfl
  | step _ hEdge hExtend ih =>
      obtain ⟨-, hNode, -, hPath⟩ := Candidate.extend_eq_some.mp hExtend
      obtain ⟨hMem, hSource⟩ := (snapshot.adjacency_lists _ _).mp hEdge
      rw [hPath, hNode, Digraph.Edges.isPath_snoc, hSource]
      exact ⟨ih, hMem, rfl⟩

theorem UniformStep.reached_cost (hStep : snapshot.UniformStep step) {candidate : Candidate}
    (hReached : snapshot.problem.Reached snapshot.start candidate) :
    candidate.cost.toNat = candidate.path.length * step.toNat := by
  induction hReached with
  | start => simp [TrustViewSnapshot.start]
  | step _ hEdge hExtend ih =>
      obtain ⟨-, -, hNext, hPath⟩ := Candidate.extend_eq_some.mp hExtend
      have hMem := ((snapshot.adjacency_lists _ _).mp hEdge).1
      rw [hNext, hPath, ih, hStep.uniform _ hMem, List.length_append, List.length_singleton,
        Nat.add_mul, Nat.one_mul]

theorem UniformStep.exists_reached (hStep : snapshot.UniformStep step) {path : List TrustEdge}
    {node : NodeID} (hPath : snapshot.graph.IsPath snapshot.startNodeID path node)
    (hRange : path.length * step.toNat < 2 ^ 64) :
    ∃ candidate, snapshot.problem.Reached snapshot.start candidate ∧ candidate.path = path ∧
      candidate.node = node := by
  induction path using List.reverseRecOn generalizing node with
  | nil => exact ⟨snapshot.start, .start, rfl, hPath⟩
  | append_singleton path edge ih =>
      obtain ⟨hBefore, hMem, hTarget⟩ := Digraph.Edges.isPath_snoc.mp hPath
      rw [List.length_append, List.length_singleton, Nat.add_mul, Nat.one_mul] at hRange
      obtain ⟨candidate, hReached, rfl, hNode⟩ := ih hBefore (by omega)
      have hSum : candidate.cost.toNat + edge.pathStepCost.toNat < 2 ^ 64 := by
        rw [hStep.reached_cost hReached, hStep.uniform edge hMem]
        exact hRange
      have hEdge : edge ∈ snapshot.adjacency candidate.node :=
        (snapshot.adjacency_lists _ _).mpr ⟨hMem, hNode.symm⟩
      have hExtend : candidate.extend edge =
          some ⟨edge.toID, candidate.cost + edge.pathStepCost, candidate.path ++ [edge]⟩ :=
        Candidate.extend_eq_some.mpr
          ⟨hSum, rfl, (UInt64.toNat_add ..).trans (Nat.mod_eq_of_lt hSum), rfl⟩
      exact ⟨_, .step hReached hEdge hExtend, rfl, hTarget⟩

theorem shortestPath_eq_ok {path : List TrustEdge} {cost : UInt64} :
    snapshot.shortestPath = .ok (path, cost) ↔
      ∃ candidate, snapshot.problem.run snapshot.targetNodeID (snapshot.edges.length + 2)
          (.init snapshot.problem snapshot.start) = some (.found candidate) ∧
        candidate.path = path ∧ candidate.cost = cost := by
  unfold shortestPath
  split
  · rename_i candidate hFound
    simp [hFound]
  · rename_i hExhausted
    simp [hExhausted]
  · rename_i hFound _
    simpa using fun candidate hRun => absurd hRun (hFound candidate)

/-- At a uniform step cost a path that `shortestPath` returns is the first one, with its cost. A
path whose cost leaves the range has more edges than it. -/
theorem UniformStep.isFirstPath_of_shortestPath (hStep : snapshot.UniformStep step)
    {path : List TrustEdge} {cost : UInt64} (hRun : snapshot.shortestPath = .ok (path, cost)) :
    snapshot.IsFirstPath path ∧ cost.toNat = path.length * step.toNat := by
  obtain ⟨candidate, hCandidate, rfl, rfl⟩ := shortestPath_eq_ok.mp hRun
  obtain ⟨found, hFound, hReached, hNode, hLeast⟩ | ⟨⟨_, hExhausted⟩, -⟩ :=
    BestFirst.run_init snapshot.problem_lawful snapshot.problem_bounded
      (Nat.lt_succ_self (snapshot.edges.length + 1))
  · obtain rfl : found = candidate := by simpa using hFound.symm.trans hCandidate
    have hIsPath : snapshot.Joins found.path := by
      have hPath := reached_isPath hReached
      rwa [show found.node = snapshot.targetNodeID from hNode] at hPath
    have hCost := hStep.reached_cost hReached
    refine ⟨⟨hIsPath, fun other hOther => ?_⟩, hCost⟩
    by_cases hRange : other.length * step.toNat < 2 ^ 64
    · obtain ⟨rival, hRival, rfl, hRivalNode⟩ := hStep.exists_reached hOther hRange
      have hKey : found.key ≤ rival.key := hLeast rival hRival hRivalNode
      simp only [Candidate.key, rank, Prod.Lex.toLex_le_toLex, hCost,
        hStep.reached_cost hRival] at hKey ⊢
      rcases hKey with hLt | ⟨-, hLt | ⟨hEq, hIDs⟩⟩
      · exact Or.inl (Nat.lt_of_mul_lt_mul_right hLt)
      · exact Or.inl hLt
      · refine Or.inr ⟨hEq, ?_⟩
        rcases hIDs with hLt | ⟨hSame, -⟩
        · exact le_of_lt hLt
        · exact le_of_eq hSame
    · have hLt : found.path.length * step.toNat < other.length * step.toNat := by
        rw [← hCost]
        exact lt_of_lt_of_le found.cost.toNat_lt (not_lt.mp hRange)
      rw [rank, rank, Prod.Lex.toLex_le_toLex]
      exact Or.inl (Nat.lt_of_mul_lt_mul_right hLt)
  · simp [hExhausted] at hCandidate

/-- At a uniform step cost `shortestPath` returns a path if the cost of some path is in range. -/
theorem UniformStep.shortestPath_of_range (hStep : snapshot.UniformStep step)
    {path : List TrustEdge} (hPath : snapshot.Joins path)
    (hRange : path.length * step.toNat < 2 ^ 64) :
    ∃ first cost, snapshot.shortestPath = .ok (first, cost) := by
  obtain ⟨found, hFound, -⟩ | ⟨-, hNone⟩ :=
    BestFirst.run_init snapshot.problem_lawful snapshot.problem_bounded
      (Nat.lt_succ_self (snapshot.edges.length + 1))
  · exact ⟨found.path, found.cost, shortestPath_eq_ok.mpr ⟨found, hFound, rfl, rfl⟩⟩
  · obtain ⟨candidate, hReached, -, hNode⟩ := hStep.exists_reached hPath hRange
    exact absurd hNode (hNone candidate hReached)

/-- The first path has no more edges than any other. -/
theorem IsFirstPath.length_le {first path : List TrustEdge} (hFirst : snapshot.IsFirstPath first)
    (hPath : snapshot.Joins path) : first.length ≤ path.length := by
  have hRank := hFirst.first path hPath
  rw [rank, rank, Prod.Lex.toLex_le_toLex] at hRank
  rcases hRank with hLt | ⟨hEq, -⟩
  · exact le_of_lt hLt
  · exact hEq.le

theorem UniformStep.pathCost_eq (hStep : snapshot.UniformStep step) {path : List TrustEdge}
    (hPath : snapshot.Joins path) : pathCost path = path.length * step.toNat := by
  have hAll : ∀ cost ∈ path.map (·.pathStepCost.toNat), cost = step.toNat := by
    intro cost hMem
    obtain ⟨edge, hEdge, rfl⟩ := List.mem_map.mp hMem
    rw [hStep.uniform edge (hPath.subset edge hEdge)]
  rw [pathCost, List.eq_replicate_of_mem hAll, List.sum_replicate_nat, List.length_map]

/-- A path with at most as many edges as the graph costs no more than the range of the costs. -/
theorem UniformCost.length_mul_lt (hCost : snapshot.UniformCost step) {length : ℕ}
    (hLength : length ≤ snapshot.edges.length) : length * step.toNat < 2 ^ 64 :=
  lt_of_le_of_lt (Nat.mul_le_mul_right _ hLength) hCost.range

end Uniform

theorem eq_of_map_id {edges path other : List TrustEdge}
    (hUnique : ∀ edge ∈ edges, ∀ edge' ∈ edges, edge.id = edge'.id → edge = edge')
    (hPath : ∀ edge ∈ path, edge ∈ edges) (hOther : ∀ edge ∈ other, edge ∈ edges)
    (hIDs : path.map (·.id.toNat) = other.map (·.id.toNat)) : path = other := by
  induction path generalizing other with
  | nil => simpa using hIDs
  | cons edge path ih =>
      cases other with
      | nil => simp at hIDs
      | cons edge' other =>
          simp only [List.map_cons, List.cons.injEq] at hIDs
          rw [List.forall_mem_cons] at hPath hOther
          rw [hUnique edge hPath.1 edge' hOther.1 (BitVec.eq_of_toNat_eq hIDs.1),
            ih hPath.2 hOther.2 hIDs.2]

/-- Identifiers determine the edges of a snapshot, so there is only one first path. -/
theorem IsFirstPath.unique {snapshot : TrustViewSnapshot} {path other : List TrustEdge}
    (hUnique : ∀ edge ∈ snapshot.edges, ∀ edge' ∈ snapshot.edges, edge.id = edge'.id → edge = edge')
    (hPath : snapshot.IsFirstPath path) (hOther : snapshot.IsFirstPath other) : path = other := by
  have hRank : rank path = rank other :=
    le_antisymm (hPath.first other hOther.joins) (hOther.first path hPath.joins)
  have hIDs : path.map (·.id.toNat) = other.map (·.id.toNat) :=
    congrArg (fun key : ℕ ×ₗ List ℕ => (ofLex key).2) hRank
  exact eq_of_map_id hUnique hPath.joins.subset hOther.joins.subset hIDs

/-- The snapshot with its nodes and edges listed otherwise. -/
def relisted (snapshot : TrustViewSnapshot) (nodes : List TrustNode) (edges : List TrustEdge) :
    TrustViewSnapshot :=
  { snapshot with nodes := nodes, edges := edges }

section Relisted

variable {snapshot : TrustViewSnapshot} {nodes : List TrustNode} {edges : List TrustEdge}
  {path : List TrustEdge}

theorem joins_relisted (hEdges : edges.Perm snapshot.edges) :
    (snapshot.relisted nodes edges).Joins path ↔ snapshot.Joins path := by
  suffices h : ∀ node, (snapshot.relisted nodes edges).graph.IsPath node path
      snapshot.targetNodeID ↔ snapshot.graph.IsPath node path snapshot.targetNodeID from
    h snapshot.startNodeID
  induction path with
  | nil => intro node; rfl
  | cons edge path ih =>
      intro node
      rw [Digraph.Edges.isPath_cons, Digraph.Edges.isPath_cons]
      show edge ∈ edges ∧ _ ↔ edge ∈ snapshot.edges ∧ _
      rw [hEdges.mem_iff]
      exact and_congr_right fun _ => and_congr_right fun _ => ih _

theorem isFirstPath_relisted (hEdges : edges.Perm snapshot.edges) :
    (snapshot.relisted nodes edges).IsFirstPath path ↔ snapshot.IsFirstPath path := by
  constructor
  · intro h
    exact ⟨(joins_relisted hEdges).mp h.joins,
      fun other hOther => h.first other ((joins_relisted hEdges).mpr hOther)⟩
  · intro h
    exact ⟨(joins_relisted hEdges).mpr h.joins,
      fun other hOther => h.first other ((joins_relisted hEdges).mp hOther)⟩

theorem UniformStep.relisted {step : UInt64} (h : snapshot.UniformStep step)
    (hEdges : edges.Perm snapshot.edges) : (snapshot.relisted nodes edges).UniformStep step :=
  ⟨fun edge hEdge => h.uniform edge (hEdges.subset hEdge), h.positive⟩

end Relisted

end TrustViewSnapshot

end TrustMap.Mapnode
