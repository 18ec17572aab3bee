import TrustMap.Mapnode.Replay.Dijkstra

/-!
Correctness of `ShortestPath`. The search is a guarded best-first search over ways; its distances and
predecessors are those of the best way known for each node.
-/

namespace TrustMap.Mapnode.Replay

open Checks

/-- A way from the start of a search to a node: what it costs and the nodes before the last one. -/
structure Way where
  cost : UInt64
  node : ReplayBlockKey
  trail : List ReplayBlockKey
  deriving DecidableEq

namespace Way

variable {bounds : SearchBounds} {way next : Way} {row : AdjacencyRow}

/-- The queue item of a way. -/
def item (way : Way) : QueueItem :=
  ⟨way.node, way.cost⟩

/-- All nodes of a way. -/
def nodes (way : Way) : List ReplayBlockKey :=
  way.trail ++ [way.node]

/-- The way one edge further, if it stays within the bounds. -/
def extend (bounds : SearchBounds) (way : Way) (row : AdjacencyRow) : Option Way :=
  if 0 < row.edge.weight.toNat ∧ way.cost.toNat + row.edge.weight.toNat ≤ bounds.cutoff.toNat ∧
      bounds.nodeOK row.toKey = true then
    some ⟨way.cost + row.edge.weight, row.toKey, way.nodes⟩
  else none

/-- The cost of the way and of the edge do not fit 64 bits together. -/
def overflows (way : Way) (row : AdjacencyRow) : Bool :=
  2 ^ 64 ≤ way.cost.toNat + row.edge.weight.toNat

theorem extend_eq_some :
    way.extend bounds row = some next ↔
      (0 < row.edge.weight.toNat ∧
        way.cost.toNat + row.edge.weight.toNat ≤ bounds.cutoff.toNat ∧
        bounds.nodeOK row.toKey = true) ∧
      next.cost.toNat = way.cost.toNat + row.edge.weight.toNat ∧ next.node = row.toKey ∧
      next.trail = way.nodes := by
  unfold extend
  split
  · rename_i hWithin
    have hCutoff := bounds.cutoff.toNat_lt
    have hCost : (way.cost + row.edge.weight).toNat =
        way.cost.toNat + row.edge.weight.toNat := by
      rw [UInt64.toNat_add, Nat.mod_eq_of_lt (by omega)]
    rw [and_iff_right hWithin, Option.some.injEq]
    constructor
    · rintro rfl
      exact ⟨hCost, rfl, rfl⟩
    · rintro ⟨hNext, hNode, hTrail⟩
      obtain ⟨cost, node, trail⟩ := next
      obtain rfl : way.cost + row.edge.weight = cost := by
        rw [← UInt64.toNat_inj, hCost]
        exact hNext.symm
      rw [show node = row.toKey from hNode, show trail = way.nodes from hTrail]
  · rename_i hBeyond
    simp [hBeyond]

end Way

theorem rank_inj {cost cost' : UInt64} {key key' : ReplayBlockKey}
    (h : rank cost key = rank cost' key') : cost = cost' ∧ key = key' := by
  obtain ⟨chain, height⟩ := key
  obtain ⟨chain', height'⟩ := key'
  have hCost : cost.toNat = cost'.toNat :=
    congrArg (fun r : ℕ ×ₗ String ×ₗ ℕ => (ofLex r).1) h
  have hChain : chain = chain' :=
    congrArg (fun r : ℕ ×ₗ String ×ₗ ℕ => (ofLex (ofLex r).2).1) h
  have hHeight : height.toNat = height'.toNat :=
    congrArg (fun r : ℕ ×ₗ String ×ₗ ℕ => (ofLex (ofLex r).2).2) h
  rw [UInt64.toNat_inj.mp hCost, hChain, UInt64.toNat_inj.mp hHeight]
  exact ⟨rfl, rfl⟩

theorem cost_le_of_rank {cost cost' : UInt64} {key key' : ReplayBlockKey}
    (h : rank cost key ≤ rank cost' key') : cost.toNat ≤ cost'.toNat := by
  simp only [rank, Prod.Lex.toLex_le_toLex] at h
  rcases h with hLt | ⟨hEq, -⟩
  · exact Nat.le_of_lt hLt
  · exact Nat.le_of_eq hEq

theorem rank_lt_of_cost {cost cost' : UInt64} {key key' : ReplayBlockKey}
    (h : cost.toNat < cost'.toNat) : rank cost key < rank cost' key' :=
  Prod.Lex.toLex_lt_toLex.mpr (Or.inl h)

/-- For one node the order is that of the costs. -/
theorem rank_lt_iff {cost cost' : UInt64} {key : ReplayBlockKey} :
    rank cost key < rank cost' key ↔ cost < cost' := by
  rw [UInt64.lt_iff_toNat_lt]
  refine ⟨fun h => ?_, rank_lt_of_cost⟩
  refine lt_of_le_of_ne (cost_le_of_rank (le_of_lt h)) fun hEq => ?_
  rw [UInt64.toNat_inj.mp hEq] at h
  exact lt_irrefl _ h

namespace ReplayTrustView

/-- The search over ways. -/
def searchProblem (view : ReplayTrustView) (bounds : SearchBounds) :
    BestFirst ReplayBlockKey AdjacencyRow Way (ℕ ×ₗ String ×ₗ ℕ) where
  adjacency := view.neighbours
  node := Way.node
  key way := rank way.cost way.node
  extend := Way.extend bounds

/-- The way to the start. -/
def startWay (start : ReplayBlockKey) : Way :=
  ⟨0, start, []⟩

section Search

variable {lower : Lowercase} {profile : CostProfile} {view : ReplayTrustView}
  {bounds : SearchBounds} {start goal : ReplayBlockKey} {settled : List ReplayBlockKey}

theorem searchProblem_lawful (view : ReplayTrustView) (bounds : SearchBounds) :
    (view.searchProblem bounds).Lawful where
  node_of_key hKey := (rank_inj hKey).2
  node_extend hLeft hRight :=
    (Way.extend_eq_some.mp hLeft).2.2.1.trans (Way.extend_eq_some.mp hRight).2.2.1.symm
  extend_lt hExtend := by
    obtain ⟨⟨hPos, -⟩, hCost, -⟩ := Way.extend_eq_some.mp hExtend
    exact rank_lt_of_cost (by omega)
  extend_mono {left right next row} hKey hExtend := by
    obtain ⟨⟨hPos, hCutoff, hNode⟩, hCost, hTo, -⟩ := Way.extend_eq_some.mp hExtend
    have hLe : left.cost.toNat ≤ right.cost.toNat := cost_le_of_rank hKey
    have hWithin : left.extend bounds row =
        some ⟨left.cost + row.edge.weight, row.toKey, left.nodes⟩ :=
      if_pos ⟨hPos, by omega, hNode⟩
    obtain ⟨-, hCost', -, -⟩ := Way.extend_eq_some.mp hWithin
    refine ⟨_, hWithin, ?_⟩
    simp only [searchProblem, rank, Prod.Lex.toLex_le_toLex, hTo, hCost, hCost']
    rcases Nat.lt_or_eq_of_le hLe with hLt | hEq
    · exact Or.inl (by omega)
    · exact Or.inr ⟨by omega, Or.inr ⟨trivial, le_refl _⟩⟩

theorem searchProblem_bounded (view : ReplayTrustView) (bounds : SearchBounds) :
    (view.searchProblem bounds).Bounded view.adjacency.rows AdjacencyRow.fromKey := by
  refine ⟨fun key => Nat.le_of_eq ?_⟩
  rw [List.countP_eq_length_filter]
  rfl

theorem searchProblem_ends (view : ReplayTrustView) (bounds : SearchBounds)
    (start goal : ReplayBlockKey) :
    (view.searchProblem bounds).Ends Way.overflows (startWay start) goal
      ((view.searchProblem bounds).guardedRun Way.overflows goal (view.adjacency.rows.length + 2)
        (.init (view.searchProblem bounds) (startWay start))) :=
  BestFirst.guardedRun_init (searchProblem_lawful view bounds) (searchProblem_bounded view bounds)
    (by omega)

theorem mem_neighbours {key : ReplayBlockKey} {row : AdjacencyRow} :
    row ∈ view.neighbours key ↔ row ∈ view.adjacency.rows ∧ row.fromKey = key := by
  simp [neighbours]

/-! ## What a way stands for -/

theorem pathSegments_snoc {adjacency : ReplayBlockKey → ReplayBlockKey → Option ReplayEdge}
    {nodes : List ReplayBlockKey} {node next : ReplayBlockKey} {segments : List ReplayPathSegment} :
    pathSegments adjacency (nodes ++ [node, next]) = some segments ↔
      ∃ before edge, pathSegments adjacency (nodes ++ [node]) = some before ∧
        adjacency node next = some edge ∧
        segments = before ++ [⟨node, next, edge.kind, edge.weight⟩] := by
  induction nodes generalizing segments with
  | nil =>
      cases hEdge : adjacency node next with
      | none => simp [pathSegments, hEdge]
      | some edge => simp [pathSegments, hEdge, eq_comm]
  | cons first nodes ih =>
      cases nodes with
      | nil =>
          cases hFirst : adjacency first node with
          | none => simp [pathSegments, hFirst]
          | some edge =>
              cases hEdge : adjacency node next with
              | none => simp [pathSegments, hFirst, hEdge]
              | some edge => simp [pathSegments, hFirst, hEdge, eq_comm]
      | cons second nodes =>
          simp only [List.cons_append] at ih ⊢
          simp only [pathSegments, Option.bind_eq_bind, Option.bind_eq_some_iff, Option.pure_def,
            Option.some.injEq, ih]
          constructor
          · rintro ⟨first', hFirst, rest, ⟨before, edge, hBefore, hEdge, rfl⟩, rfl⟩
            exact ⟨_, edge, ⟨first', hFirst, before, hBefore, rfl⟩, hEdge, rfl⟩
          · rintro ⟨_, edge, ⟨first', hFirst, before, hBefore, rfl⟩, hEdge, rfl⟩
            exact ⟨first', hFirst, _, ⟨before, edge, hBefore, hEdge, rfl⟩, rfl⟩

/-- What the segments of a path cost together. -/
def weight (segments : List ReplayPathSegment) : ℕ :=
  (segments.map (·.weight.toNat)).sum

/-- A directed path in the view, given by its nodes and by the edges between them. -/
structure IsPath (view : ReplayTrustView) (start goal : ReplayBlockKey)
    (nodes : List ReplayBlockKey) (segments : List ReplayPathSegment) : Prop where
  head : nodes.head? = some start
  last : nodes.getLast? = some goal
  segments : pathSegments view.edge nodes = some segments

/-- A way that can be reached is a path within the bounds. -/
theorem reached_isPath (hStart : bounds.nodeOK start = true) {way : Way}
    (hReached : (view.searchProblem bounds).Reached (startWay start) way) :
    way.cost.toNat ≤ bounds.cutoff.toNat ∧ way.trail.length ≤ way.cost.toNat ∧
      (∀ node ∈ way.nodes, bounds.nodeOK node = true) ∧
      ∃ segments, view.IsPath start way.node way.nodes segments ∧
        weight segments = way.cost.toNat := by
  induction hReached with
  | start =>
      refine ⟨Nat.zero_le _, Nat.le_refl _, ?_, [], ⟨rfl, rfl, rfl⟩, rfl⟩
      intro node hMem
      obtain rfl := List.mem_singleton.mp hMem
      exact hStart
  | @step way next row _ hEdge hExtend ih =>
      obtain ⟨-, hTrail, hNodes, segments, hPath, hWeight⟩ := ih
      obtain ⟨⟨hPos, hCutoff, hOk⟩, hCost, hNode, hNext⟩ := Way.extend_eq_some.mp hExtend
      obtain ⟨hMem, hFrom⟩ := mem_neighbours.mp hEdge
      have hRow : view.edge way.node next.node = some row.edge := by
        rw [edge_eq_some, hNode, show way.node = row.fromKey from hFrom.symm]
        exact hMem
      have hAll : next.nodes = way.trail ++ [way.node, next.node] := by
        rw [Way.nodes, hNext, Way.nodes, List.append_assoc]
        rfl
      refine ⟨by omega, ?_, ?_, segments ++ [⟨way.node, next.node, row.edge.kind, row.edge.weight⟩],
        ⟨?_, ?_, ?_⟩, ?_⟩
      · rw [hNext, Way.nodes, List.length_append, List.length_singleton]
        omega
      · intro node hNodeMem
        rw [Way.nodes, hNext, List.mem_append, List.mem_singleton] at hNodeMem
        rcases hNodeMem with hOld | rfl
        · exact hNodes node hOld
        · rw [hNode]
          exact hOk
      · rw [Way.nodes, hNext, List.head?_append, hPath.head]
        rfl
      · rw [Way.nodes, List.getLast?_append]
        rfl
      · rw [hAll]
        exact pathSegments_snoc.mpr ⟨segments, row.edge, hPath.segments, hRow, rfl⟩
      · rw [weight, List.map_append, List.sum_append, ← weight, hWeight, hCost]
        simp

/-- A path within the bounds is a way that can be reached. -/
theorem reached_of_isPath (hPositive : ∀ row ∈ view.adjacency.rows, 0 < row.edge.weight.toNat)
    {nodes : List ReplayBlockKey} {segments : List ReplayPathSegment} {node : ReplayBlockKey}
    (hPath : view.IsPath start node nodes segments)
    (hOk : ∀ node ∈ nodes, bounds.nodeOK node = true)
    (hWeight : weight segments ≤ bounds.cutoff.toNat) :
    ∃ way, (view.searchProblem bounds).Reached (startWay start) way ∧ way.node = node ∧
      way.nodes = nodes ∧ way.cost.toNat = weight segments := by
  obtain ⟨trail, rfl⟩ : ∃ trail, nodes = trail ++ [node] :=
    List.getLast?_eq_some_iff.mp hPath.last
  induction trail using List.reverseRecOn generalizing node segments with
  | nil =>
      obtain rfl : node = start := Option.some.inj hPath.head
      obtain rfl : [] = segments := Option.some.inj hPath.segments
      exact ⟨startWay node, .start, rfl, rfl, rfl⟩
  | append_singleton trail prior ih =>
      have hSegments := hPath.segments
      rw [List.append_assoc, List.singleton_append, pathSegments_snoc] at hSegments
      obtain ⟨before, edge, hBefore, hEdge, rfl⟩ := hSegments
      rw [weight, List.map_append, List.sum_append, ← weight] at hWeight
      simp only [List.map_cons, List.map_nil, List.sum_singleton] at hWeight
      have hHead : (trail ++ [prior]).head? = some start := by
        have hFirst := hPath.head
        rw [List.head?_append] at hFirst
        cases trail with
        | nil => exact hFirst
        | cons first trail => exact hFirst
      obtain ⟨way, hReached, hNode, hNodes, hCost⟩ := ih
        (show weight before ≤ bounds.cutoff.toNat by omega) ⟨hHead, by simp, hBefore⟩
        (fun other hMem => hOk other (List.mem_append_left _ hMem))
      have hRow := edge_eq_some.mp hEdge
      have hExtend : way.extend bounds ⟨prior, node, edge⟩ =
          some ⟨way.cost + edge.weight, node, way.nodes⟩ :=
        if_pos ⟨hPositive _ hRow, by rw [hCost]; exact hWeight, hOk node (by simp)⟩
      obtain ⟨-, hNext, -, -⟩ := Way.extend_eq_some.mp hExtend
      refine ⟨_, .step hReached (mem_neighbours.mpr ⟨hRow, hNode.symm⟩) hExtend, rfl, ?_, ?_⟩
      · rw [← hNodes]
        rfl
      · rw [hNext, hCost, weight, weight, List.map_append, List.sum_append]
        simp

/-! ## The search over distances and predecessors -/

theorem popLeast_map (queue : List Way) :
    popLeast (queue.map Way.item) = (popLeastBy (view.searchProblem bounds).key queue).map
      fun popped => (popped.1.item, popped.2.map Way.item) :=
  popLeastBy_map (fun _ => rfl) queue

/-- The distances, predecessors and queue items are those of the best ways. -/
structure Represents (s : SearchState) (t : BestFirst.State ReplayBlockKey Way) : Prop where
  queue : s.queue = t.queue.map Way.item
  distances : ∀ key, s.distances key = (t.best key).map Way.cost
  predecessors : ∀ key way, t.best key = some way →
    way.node = key ∧ s.predecessors key = way.trail.getLast?

/-- The best way to a node goes through the best way to a settled node. -/
def Linked (start : ReplayBlockKey) (settled : List ReplayBlockKey)
    (t : BestFirst.State ReplayBlockKey Way) : Prop :=
  ∀ key way, t.best key = some way → way = startWay start ∨
    ∃ prior ∈ settled, ∃ before, t.best prior = some before ∧ before.node = prior ∧
      way.trail = before.nodes

variable {s : SearchState} {t : BestFirst.State ReplayBlockKey Way} {current : Way}
  {row : AdjacencyRow}

/-- One edge: without an overflow both searches take the same step. -/
theorem relaxEdge_represents (hView : view.Invariant lower profile) (hRep : Represents s t)
    (hRow : row ∈ view.adjacency.rows) (hFits : current.overflows row = false) :
    ∃ s', view.relaxEdge bounds current.item s row = .ok s' ∧
      Represents s' ((view.searchProblem bounds).relax current t row) := by
  have hSum : current.cost.toNat + row.edge.weight.toNat < 2 ^ 64 := by
    simpa [Way.overflows] using hFits
  have hCost : (current.cost + row.edge.weight).toNat =
      current.cost.toNat + row.edge.weight.toNat := by
    rw [UInt64.toNat_add, Nat.mod_eq_of_lt hSum]
  have hAdd : checkedAdd current.item.cost row.edge.weight = .ok (current.cost + row.edge.weight) :=
    checkedAdd_eq_ok.mpr hCost.symm
  have hPos := hView.positive row hRow
  have hWithin : (bounds.cutoff < current.cost + row.edge.weight ∨
      bounds.nodeOK row.toKey = false) ↔ current.extend bounds row = none := by
    rw [UInt64.lt_iff_toNat_lt, hCost, Way.extend]
    simp only [hPos, true_and, ite_eq_right_iff, reduceCtorEq, imp_false, not_and,
      Bool.not_eq_true]
    constructor
    · rintro (hBeyond | hOut) hLe
      · omega
      · exact hOut
    · intro h
      by_cases hLe : current.cost.toNat + row.edge.weight.toNat ≤ bounds.cutoff.toNat
      · exact Or.inr (h hLe)
      · exact Or.inl (not_le.mp hLe)
  simp only [relaxEdge, hAdd, ok_bind]
  by_cases hSkip : bounds.cutoff < current.cost + row.edge.weight ∨
      bounds.nodeOK row.toKey = false
  · refine ⟨s, if_pos hSkip, ?_⟩
    have hNone : (view.searchProblem bounds).extend current row = none := hWithin.mp hSkip
    rw [BestFirst.relax, hNone]
    exact ⟨hRep.queue, hRep.distances, hRep.predecessors⟩
  · have hPush : ∀ t', t' = t.push (view.searchProblem bounds)
          ⟨current.cost + row.edge.weight, row.toKey, current.nodes⟩ →
        Represents
          { distances := Function.update s.distances row.toKey (some (current.cost + row.edge.weight))
            predecessors := Function.update s.predecessors row.toKey (some current.item.key)
            queue := ⟨row.toKey, current.cost + row.edge.weight⟩ :: s.queue } t' := by
      rintro t' rfl
      refine ⟨?_, fun key => ?_, fun key way hBest => ?_⟩
      · simp [BestFirst.State.push, hRep.queue, Way.item]
      · by_cases hKey : key = row.toKey
        · simp [BestFirst.State.push, searchProblem, hKey]
        · simp [BestFirst.State.push, searchProblem, Function.update_of_ne hKey, hRep.distances]
      · by_cases hKey : key = row.toKey
        · subst hKey
          simp only [BestFirst.State.push, searchProblem, Function.update_self,
            Option.some.injEq] at hBest
          subst hBest
          exact ⟨rfl, by simp [Way.nodes, Way.item]⟩
        · simp only [BestFirst.State.push, searchProblem, Function.update_of_ne hKey] at hBest
          simpa [Function.update_of_ne hKey] using hRep.predecessors key way hBest
    have hExtend : (view.searchProblem bounds).extend current row =
        some ⟨current.cost + row.edge.weight, row.toKey, current.nodes⟩ := by
      have hSome := mt hWithin.mpr hSkip
      simp only [Way.extend, ite_eq_right_iff, reduceCtorEq, imp_false, not_not] at hSome
      exact if_pos hSome
    have hNode : row.toKey ∈ view.nodeKeys := (hView.joined row hRow).2
    rw [if_neg hSkip, require, if_pos hNode, ok_bind, hRep.distances]
    cases hBest : t.best row.toKey with
    | none =>
        refine ⟨_, rfl, hPush _ (BestFirst.relax_of_better hExtend fun known hKnown => ?_)⟩
        exact absurd (hBest.symm.trans hKnown) (by simp)
    | some known =>
        have hLess : rank (current.cost + row.edge.weight) row.toKey < rank known.cost known.node ↔
            ¬ known.cost ≤ current.cost + row.edge.weight := by
          rw [not_le, (hRep.predecessors _ known hBest).1]
          exact rank_lt_iff
        simp only [Option.map_some, Option.any_some, decide_eq_true_eq]
        by_cases hWorse : known.cost ≤ current.cost + row.edge.weight
        · refine ⟨s, if_pos hWorse, ?_⟩
          rw [BestFirst.relax_of_worse hExtend hBest (mt hLess.mp (not_not.mpr hWorse))]
          exact hRep
        · refine ⟨_, if_neg hWorse, hPush _ (BestFirst.relax_of_better hExtend fun other hOther => ?_)⟩
          obtain rfl := Option.some.inj (hBest.symm.trans hOther)
          exact hLess.mpr hWorse

/-- All edges of a node: both searches take the same steps, or some edge overflows. -/
theorem foldlM_relaxEdge (hView : view.Invariant lower profile) (hRep : Represents s t)
    {rows : List AdjacencyRow} (hRows : ∀ row ∈ rows, row ∈ view.adjacency.rows) :
    if rows.any current.overflows then
      rows.foldlM (view.relaxEdge bounds current.item) s = .error .costOverflow
    else ∃ s', rows.foldlM (view.relaxEdge bounds current.item) s = .ok s' ∧
      Represents s' (rows.foldl ((view.searchProblem bounds).relax current) t) := by
  induction rows generalizing s t with
  | nil => exact ⟨s, rfl, hRep⟩
  | cons row rows ih =>
      cases hOver : current.overflows row with
      | true =>
          have hBig : 2 ^ 64 ≤ current.cost.toNat + row.edge.weight.toNat := by
            simpa [Way.overflows] using hOver
          have hAdd : checkedAdd current.item.cost row.edge.weight = .error .costOverflow :=
            checkedAdd_eq_error.mpr ⟨hBig, rfl⟩
          simp only [List.any_cons, hOver, Bool.true_or, if_true, List.foldlM_cons, relaxEdge, hAdd]
          rfl
      | false =>
          obtain ⟨s', hStep, hNext⟩ :=
            @relaxEdge_represents lower profile view bounds s t current row hView hRep
              (hRows row List.mem_cons_self) hOver
          have hRest := ih hNext fun other hMem => hRows other (List.mem_cons_of_mem row hMem)
          simpa only [List.any_cons, hOver, Bool.false_or, List.foldlM_cons, hStep, ok_bind,
            List.foldl_cons] using hRest

theorem Linked.relax (hLinked : Linked start settled t) (hCurrent : current.node ∈ settled)
    (hBest : t.best current.node = some current)
    (hOnward : (view.searchProblem bounds).Onward settled t
      ((view.searchProblem bounds).relax current t row)) :
    Linked start settled ((view.searchProblem bounds).relax current t row) := by
  have hOld : ∀ key way, t.best key = some way → way = startWay start ∨
      ∃ prior ∈ settled, ∃ before,
        ((view.searchProblem bounds).relax current t row).best prior = some before ∧
        before.node = prior ∧ way.trail = before.nodes := by
    intro key way hWay
    refine (hLinked key way hWay).imp_right ?_
    rintro ⟨prior, hPrior, before, hBefore, hNode, hTrail⟩
    exact ⟨prior, hPrior, before, (hOnward.settled_best prior hPrior).trans hBefore, hNode, hTrail⟩
  intro key way hWay
  cases hExtend : (view.searchProblem bounds).extend current row with
  | none =>
      rw [BestFirst.relax, hExtend] at hWay
      exact hOld key way hWay
  | some next =>
      have hCases : (view.searchProblem bounds).relax current t row =
            t.push (view.searchProblem bounds) next ∨
          (view.searchProblem bounds).relax current t row = t := by
        rw [BestFirst.relax, hExtend]
        dsimp only
        split
        · exact Or.inl rfl
        · split
          · exact Or.inl rfl
          · exact Or.inr rfl
      rcases hCases with hPush | hKeep
      · rw [hPush, BestFirst.State.push_best] at hWay
        split at hWay
        · obtain rfl := Option.some.inj hWay
          refine Or.inr ⟨current.node, hCurrent, current,
            (hOnward.settled_best _ hCurrent).trans hBest, rfl, ?_⟩
          exact (Way.extend_eq_some.mp hExtend).2.2.2
        · exact hOld key way hWay
      · rw [hKeep] at hWay
        exact hOld key way hWay

theorem Linked.expand (hLinked : Linked start settled t)
    (hT : (view.searchProblem bounds).Invariant (startWay start) settled t)
    (hReached : (view.searchProblem bounds).Reached (startWay start) current)
    (hCurrent : current.node ∈ settled) (hBest : t.best current.node = some current)
    {rows : List AdjacencyRow} (hRows : ∀ row ∈ rows, row ∈ view.neighbours current.node) :
    Linked start settled (rows.foldl ((view.searchProblem bounds).relax current) t) := by
  induction rows generalizing t with
  | nil => exact hLinked
  | cons row rows ih =>
      obtain ⟨hNext, hOnward, -, -⟩ := hT.relax (searchProblem_lawful view bounds) hReached
        (hRows row List.mem_cons_self)
      exact ih (hLinked.relax hCurrent hBest hOnward) hNext
        ((hOnward.settled_best _ hCurrent).trans hBest)
        fun other hMem => hRows other (List.mem_cons_of_mem row hMem)

/-- Following the predecessors collects the nodes of the best way. -/
theorem collectNodes_eq (hStart : bounds.nodeOK start = true) (hRep : Represents s t)
    (hLinked : Linked start settled t)
    (hT : (view.searchProblem bounds).Invariant (startWay start) settled t)
    {key : ReplayBlockKey} {way : Way} (hBest : t.best key = some way) {fuel : ℕ}
    {nodes : List ReplayBlockKey} (hFuel : way.trail.length < fuel) :
    collectNodes s.predecessors start fuel key nodes = .ok (way.trail ++ nodes) := by
  induction fuel generalizing key way nodes with
  | zero => omega
  | succ fuel ih =>
      obtain ⟨hNode, hPredecessor⟩ := hRep.predecessors key way hBest
      rw [collectNodes]
      rcases hLinked key way hBest with rfl | ⟨prior, -, before, hBefore, hPrior, hTrail⟩
      · have hSelf : key = start := hNode.symm
        rw [if_pos hSelf]
        rfl
      · have hOther : key ≠ start := by
          rintro rfl
          -- the way to the start costs nothing, so that it has no nodes before
          obtain ⟨known, hKnown, hLe⟩ := hT.start_covered
          obtain rfl := Option.some.inj (hBest.symm.trans hKnown)
          have hCost := cost_le_of_rank hLe
          have hShort := (reached_isPath hStart (hT.best_reached _ _ hBest).1).2.1
          rw [hTrail, Way.nodes, List.length_append, List.length_singleton] at hShort
          have hZero : (startWay key).cost.toNat = 0 := rfl
          omega
        have hLast : s.predecessors key = some prior := by
          rw [hPredecessor, hTrail, Way.nodes, List.getLast?_append, hPrior]
          rfl
        rw [hTrail, Way.nodes, List.length_append, List.length_singleton] at hFuel
        rw [if_neg hOther, hLast]
        dsimp only
        rw [ih hBefore (by omega), hTrail, Way.nodes, hPrior, List.append_assoc]
        rfl

/-- What `ShortestPath` returns when the search over ways has ended. -/
def searchResult (view : ReplayTrustView) :
    BestFirst.Ending Way → Except ReplayError (Option ReplayPath)
  | .found way => .ok (reconstructPath view.edge way.cost way.nodes)
  | .exhausted => .ok none
  | .failed => .error .costOverflow

/-- The loop ends as the guarded search over ways does. -/
theorem searchLoop_eq (hView : view.Invariant lower profile) (hStart : bounds.nodeOK start = true)
    (hRep : Represents s t) (hLinked : Linked start settled t)
    (hT : (view.searchProblem bounds).Invariant (startWay start) settled t)
    (hRelaxed : (view.searchProblem bounds).Relaxed settled t) (fuel : ℕ) :
    view.searchLoopIn view.rowOrder bounds start goal fuel s =
      ((view.searchProblem bounds).guardedRun Way.overflows goal fuel t).map
        view.searchResult := by
  induction fuel generalizing s t settled with
  | zero => rfl
  | succ fuel ih =>
      rw [searchLoopIn, BestFirst.guardedRun, hRep.queue, @popLeast_map view bounds t.queue]
      cases hPop : popLeastBy (view.searchProblem bounds).key t.queue with
      | none => rfl
      | some popped =>
          obtain ⟨current, rest⟩ := popped
          obtain ⟨hPerm, -⟩ := popLeastBy_eq_some hPop
          have hReached : (view.searchProblem bounds).Reached (startWay start) current :=
            hT.reached current (hPerm.mem_iff.mpr List.mem_cons_self)
          obtain ⟨hCutoff, hShort, hNodes, segments, hPath, -⟩ := reached_isPath hStart hReached
          have hRest : Represents { s with queue := rest.map Way.item } { t with queue := rest } :=
            ⟨rfl, hRep.distances, hRep.predecessors⟩
          have hSame : (t.best ((view.searchProblem bounds).node current)).map
              (view.searchProblem bounds).key = some ((view.searchProblem bounds).key current) ↔
                s.distances current.item.key = some current.item.cost := by
            rw [hRep.distances]
            show (t.best current.node).map _ = some (rank current.cost current.node) ↔
              (t.best current.node).map Way.cost = some current.cost
            cases hBest : t.best current.node with
            | none => simp
            | some known =>
                rw [Option.map_some, Option.map_some, Option.some.injEq, Option.some.injEq,
                  show (view.searchProblem bounds).key known = rank known.cost known.node from rfl,
                  (hRep.predecessors _ known hBest).1]
                exact ⟨fun h => (rank_inj h).1, fun h => h ▸ rfl⟩
          simp only [Option.map_some]
          by_cases hFresh : (t.best ((view.searchProblem bounds).node current)).map
              (view.searchProblem bounds).key = some ((view.searchProblem bounds).key current)
          · have hDistance := hSame.mp hFresh
            have hWithin : ¬ bounds.cutoff < current.item.cost := by
              rw [UInt64.lt_iff_toNat_lt, not_lt]
              exact hCutoff
            have hOk : ¬ bounds.nodeOK current.item.key = false := by
              rw [Bool.not_eq_false]
              exact hNodes _ (List.mem_append_right _ (List.mem_singleton_self _))
            have hLawful := searchProblem_lawful view bounds
            obtain ⟨hNew, -, hSettle⟩ := hT.settle hLawful hRelaxed hPop hFresh
            have hBest : t.best current.node = some current := by
              obtain ⟨known, hKnown, hKey⟩ := Option.map_eq_some_iff.mp hFresh
              have hSelf : known = current :=
                List.inj_on_of_nodup_map hT.distinct (hT.pending _ known hKnown hNew)
                  (hPerm.mem_iff.mpr List.mem_cons_self) hKey
              exact hSelf ▸ hKnown
            rw [if_neg (not_not.mpr hDistance), if_neg hWithin, if_neg hOk, if_pos hFresh]
            by_cases hGoal : (view.searchProblem bounds).node current = goal
            · rw [if_pos (show current.item.key = goal from hGoal), if_pos hGoal]
              have hCollect := @collectNodes_eq view bounds start settled s t hStart hRep hLinked hT
                current.node current hBest (current.cost.toNat + 1) [current.node] (by omega)
              simp only [reconstructPathLocked, Option.map_some, searchResult, ← hGoal]
              rw [show current.item.cost = current.cost from rfl,
                show (view.searchProblem bounds).node current = current.node from rfl, hCollect,
                ok_bind, ← Way.nodes, reconstructPath, hPath.segments]
              rfl
            · rw [if_neg (show ¬ current.item.key = goal from hGoal), if_neg hGoal]
              have hFold := @foldlM_relaxEdge lower profile view bounds _ _ current hView hRest
                (view.neighbours current.node) fun row hRow => (mem_neighbours.mp hRow).1
              rw [show view.rowOrder.edges fuel current.item.key = view.neighbours current.node
                from rfl]
              by_cases hAny : ((view.searchProblem bounds).adjacency
                  ((view.searchProblem bounds).node current)).any current.overflows = true
              · rw [(if_pos hAny).mp hFold, if_pos hAny]
                rfl
              · obtain ⟨s', hRun, hNext⟩ := (if_neg hAny).mp hFold
                rw [hRun, if_neg hAny]
                obtain ⟨hInvariant, hOnward, hCovers, -⟩ :=
                  hSettle.expand hLawful hReached (fun _ hMem => hMem)
                have hMore : Linked start (current.node :: settled) { t with queue := rest } := by
                  intro key way hWay
                  refine (hLinked key way hWay).imp_right ?_
                  rintro ⟨prior, hPrior, hBefore⟩
                  exact ⟨prior, List.mem_cons_of_mem _ hPrior, hBefore⟩
                exact ih hNext (hMore.expand hSettle hReached List.mem_cons_self hBest
                  fun _ hMem => hMem) hInvariant
                  (hRelaxed.expand hLawful hFresh hOnward hCovers)
          · rw [if_pos (mt hSame.mpr hFresh), if_neg hFresh]
            exact ih hRest hLinked (hT.skip hPop hFresh) hRelaxed

theorem searchLoop_init (hView : view.Invariant lower profile)
    (hStart : bounds.nodeOK start = true) (fuel : ℕ) :
    view.searchLoopIn view.rowOrder bounds start goal fuel (searchStart start) =
      ((view.searchProblem bounds).guardedRun Way.overflows goal fuel
        (.init (view.searchProblem bounds) (startWay start))).map view.searchResult := by
  have hBest : ∀ key, (BestFirst.State.init (view.searchProblem bounds) (startWay start)).best key =
      if key = start then some (startWay start) else none := by
    intro key
    by_cases hKey : key = start
    · simp [BestFirst.State.init, searchProblem, startWay, hKey]
    · simp [BestFirst.State.init, searchProblem, startWay, hKey]
  have hRep : Represents (searchStart start)
      (.init (view.searchProblem bounds) (startWay start)) := by
    refine ⟨rfl, fun key => ?_, fun key way hWay => ?_⟩
    · rw [hBest]
      by_cases hKey : key = start
      · simp [searchStart, startWay, hKey]
      · simp [searchStart, hKey]
    · rw [hBest] at hWay
      split at hWay
      · obtain rfl := Option.some.inj hWay
        exact ⟨Eq.symm ‹_›, rfl⟩
      · cases hWay
  refine searchLoop_eq hView hStart hRep ?_ BestFirst.invariant_init
    (by simp [BestFirst.Relaxed]) fuel
  intro key way hWay
  rw [hBest] at hWay
  split at hWay
  · exact Or.inl (Option.some.inj hWay).symm
  · cases hWay

/-- A start that is out of bounds is taken from the queue and nothing else. -/
theorem searchLoop_of_not_ok (hStart : bounds.nodeOK start = false) (fuel : ℕ) :
    view.searchLoopIn view.rowOrder bounds start goal (fuel + 2) (searchStart start) =
      some (.ok none) := by
  have hPop : popLeast [(⟨start, 0⟩ : QueueItem)] = some (⟨start, 0⟩, []) := rfl
  have hCutoff : ¬ bounds.cutoff < 0 := by
    rw [UInt64.lt_iff_toNat_lt]
    exact Nat.not_lt_zero _
  rw [searchLoopIn, searchStart, hPop]
  simp only [Function.update_self, ne_eq, not_true_eq_false, if_false, hCutoff, hStart, if_true]
  rfl

/-! ## What is found -/

/-- A path within the bounds. -/
structure Allowed (view : ReplayTrustView) (bounds : SearchBounds) (start goal : ReplayBlockKey)
    (nodes : List ReplayBlockKey) (segments : List ReplayPathSegment) : Prop where
  isPath : view.IsPath start goal nodes segments
  ok : ∀ node ∈ nodes, bounds.nodeOK node = true
  weight : weight segments ≤ bounds.cutoff.toNat

theorem Allowed.start_ok {nodes : List ReplayBlockKey} {segments : List ReplayPathSegment}
    (h : view.Allowed bounds start goal nodes segments) : bounds.nodeOK start = true :=
  h.ok start (List.mem_of_mem_head? h.isPath.head)

/-- The ways that can be reached are the paths within the bounds. -/
theorem allowed_iff_reached (hPositive : ∀ row ∈ view.adjacency.rows, 0 < row.edge.weight.toNat)
    (hStart : bounds.nodeOK start = true) {node : ReplayBlockKey} {cost : ℕ} :
    (∃ nodes segments, view.Allowed bounds start node nodes segments ∧ weight segments = cost) ↔
      ∃ way, (view.searchProblem bounds).Reached (startWay start) way ∧ way.node = node ∧
        way.cost.toNat = cost := by
  constructor
  · rintro ⟨nodes, segments, hAllowed, rfl⟩
    obtain ⟨way, hReached, hNode, -, hCost⟩ :=
      reached_of_isPath hPositive hAllowed.isPath hAllowed.ok hAllowed.weight
    exact ⟨way, hReached, hNode, hCost⟩
  · rintro ⟨way, hReached, rfl, rfl⟩
    obtain ⟨hCutoff, -, hNodes, segments, hPath, hWeight⟩ := reached_isPath hStart hReached
    exact ⟨way.nodes, segments, ⟨hPath, hNodes, hWeight ▸ hCutoff⟩, hWeight⟩

/-- A path that is found: it is within the bounds, its cost is exact, and no other one is cheaper. -/
structure Shortest (view : ReplayTrustView) (bounds : SearchBounds) (start goal : ReplayBlockKey)
    (path : ReplayPath) : Prop where
  allowed : view.Allowed bounds start goal path.nodes path.segments
  cost : path.cost.toNat = weight path.segments
  least : ∀ nodes segments, view.Allowed bounds start goal nodes segments →
    path.cost.toNat ≤ weight segments

/-- Some node that can be reached within the bounds has an edge that takes the cost beyond 64 bits. -/
def Overflowing (view : ReplayTrustView) (bounds : SearchBounds) (start : ReplayBlockKey) : Prop :=
  ∃ node nodes segments, view.Allowed bounds start node nodes segments ∧
    ∃ row ∈ view.adjacency.rows, row.fromKey = node ∧
      2 ^ 64 ≤ weight segments + row.edge.weight.toNat

/-- How a search between two nodes may end: with a shortest path, without a path, or with a cost
beyond 64 bits. -/
def SearchEnds (view : ReplayTrustView) (bounds : SearchBounds) (start goal : ReplayBlockKey)
    (result : Except ReplayError (Option ReplayPath)) : Prop :=
  (∃ path, result = .ok (some path) ∧ view.Shortest bounds start goal path) ∨
    (result = .ok none ∧ ∀ nodes segments, ¬ view.Allowed bounds start goal nodes segments) ∨
    (result = .error .costOverflow ∧ view.Overflowing bounds start)

theorem searchLoop_cases (hView : view.Invariant lower profile) :
    view.SearchEnds bounds start goal ((view.searchLoopIn view.rowOrder bounds start goal
      (view.adjacency.rows.length + 2) (searchStart start)).getD (.error .nodeMissing)) := by
  cases hStart : bounds.nodeOK start with
  | false =>
      refine Or.inr (Or.inl ⟨?_, fun nodes segments hAllowed => ?_⟩)
      · exact congrArg (·.getD (.error .nodeMissing)) (searchLoop_of_not_ok hStart _)
      · rw [hAllowed.start_ok] at hStart
        cases hStart
  | true =>
      have hPaths := @allowed_iff_reached view bounds start hView.positive hStart
      have hLoop := @searchLoop_init lower profile view bounds start goal hView hStart
        (view.adjacency.rows.length + 2)
      obtain ⟨way, hRun, hReached, hNode, hLeast⟩ | ⟨hRun, hNone⟩ |
          ⟨hRun, way, hReached, row, hRow, hOver⟩ := searchProblem_ends view bounds start goal
      · obtain rfl : way.node = goal := hNode
        obtain ⟨hCutoff, -, hNodes, segments, hPath, hWeight⟩ := reached_isPath hStart hReached
        have hReconstruct : reconstructPath view.edge way.cost way.nodes =
            some ⟨way.cost, way.nodes, segments⟩ := by
          rw [reconstructPath, hPath.segments]
          rfl
        refine Or.inl ⟨⟨way.cost, way.nodes, segments⟩, ?_,
          ⟨⟨hPath, hNodes, hWeight ▸ hCutoff⟩, hWeight.symm, ?_⟩⟩
        · rw [hLoop, hRun, Option.map_some, Option.getD_some, searchResult, hReconstruct]
        · intro nodes' segments' hAllowed
          obtain ⟨other, hOther, hOtherNode, hCost⟩ := hPaths.mp ⟨nodes', segments', hAllowed, rfl⟩
          rw [← hCost]
          exact cost_le_of_rank (hLeast other hOther hOtherNode)
      · refine Or.inr (Or.inl ⟨?_, fun nodes segments hAllowed => ?_⟩)
        · rw [hLoop, hRun]
          rfl
        · obtain ⟨way, hReached, hNode, -⟩ := hPaths.mp ⟨nodes, segments, hAllowed, rfl⟩
          exact hNone way hReached hNode
      · obtain ⟨hMem, hFrom⟩ := mem_neighbours.mp hRow
        obtain ⟨nodes, segments, hAllowed, hWeight⟩ := hPaths.mpr ⟨way, hReached, rfl, rfl⟩
        refine Or.inr (Or.inr ⟨?_, way.node, nodes, segments, hAllowed, row, hMem, hFrom, ?_⟩)
        · rw [hLoop, hRun]
          rfl
        · simpa [Way.overflows, hWeight] using hOver

theorem shortestPath_of_ne (hStart : start ∈ view.nodeKeys) (hGoal : goal ∈ view.nodeKeys)
    (hView : view.Invariant lower profile) (hNe : start ≠ goal) (cutoff : UInt64)
    (targetChain : String) (targetHeight : UInt64) :
    view.shortestPath lower start goal cutoff targetChain targetHeight =
      (view.searchLoopIn view.rowOrder (searchBounds lower profile cutoff targetChain targetHeight)
        start goal (view.adjacency.rows.length + 2) (searchStart start)).getD
          (.error .nodeMissing) := by
  simp only [shortestPath, shortestPathIn, hView.canonical start hStart,
    hView.canonical goal hGoal, if_neg hNe, require, if_pos hStart, if_pos hGoal, hView.profile_eq]
  rfl

/-- What a search between two active nodes can return. -/
theorem shortestPath_cases (hStart : start ∈ view.nodeKeys) (hGoal : goal ∈ view.nodeKeys)
    (hView : view.Invariant lower profile) (hNe : start ≠ goal) {cutoff : UInt64}
    {targetChain : String} {targetHeight : UInt64} {result : Except ReplayError (Option ReplayPath)}
    (hResult : view.shortestPath lower start goal cutoff targetChain targetHeight = result)
    (hBounds : bounds = searchBounds lower profile cutoff targetChain targetHeight) :
    view.SearchEnds bounds start goal result := by
  subst hBounds hResult
  rw [shortestPath_of_ne hStart hGoal hView hNe]
  exact searchLoop_cases hView

/-- A node may be visited unless it lies on the target chain more steps below the target than the
cutoff pays for. -/
def Admissible (lower : Lowercase) (profile : CostProfile) (cutoff : UInt64) (targetChain : String)
    (targetHeight : UInt64) (key : ReplayBlockKey) : Prop :=
  ¬ (key.chain = canonicalChain lower targetChain ∧ (key.height.toNat : ℤ) <
    targetHeight.toNat - (cutoff.toNat / profile.directStepCost.toNat : ℕ))

theorem nodeOK_iff_admissible {cutoff targetHeight : UInt64} {targetChain : String}
    {key : ReplayBlockKey} :
    (searchBounds lower profile cutoff targetChain targetHeight).nodeOK key = true ↔
      Admissible lower profile cutoff targetChain targetHeight key := by
  have hSteps : (cutoff / profile.directStepCost).toNat =
      cutoff.toNat / profile.directStepCost.toNat := UInt64.toNat_div ..
  simp only [searchBounds, SearchBounds.nodeOK, Admissible, Bool.or_eq_true, not_and_or, ne_eq,
    ← hSteps]
  refine or_congr decide_eq_true_iff (decide_eq_true_iff.trans ?_)
  split
  · rename_i hLt
    rw [UInt64.lt_iff_toNat_lt] at hLt
    rw [UInt64.le_iff_toNat_le, UInt64.toNat_sub_of_le _ _ (UInt64.le_iff_toNat_le.mpr hLt.le)]
    omega
  · rename_i hLe
    rw [UInt64.lt_iff_toNat_lt] at hLe
    simp only [UInt64.le_iff_toNat_le, UInt64.toNat_zero, Nat.zero_le, true_iff]
    omega

end Search

/-! ## A small view -/

namespace Toy

/-- A step up costs 10 and a step down or across 1. -/
def profile : CostProfile := ⟨"toy", 10, 1, 2⟩

/-- Block 1 of chain a depends on block 5 of chain b, and block 7 of chain b is active. -/
def view : Except ReplayError ReplayTrustView := do
  let view ← new profile
  let view ← view.addVerifiedDependency .plain ⟨"a", 1, 0⟩ ⟨"b", 5, 0⟩
  view.activate .plain ⟨"b", 7, 0⟩

theorem view_reachable {v : ReplayTrustView} (hView : view = .ok v) :
    Reachable .plain profile v := by
  obtain ⟨first, hNew, hView⟩ := bind_eq_ok.mp hView
  obtain ⟨second, hAdd, hActivate⟩ := bind_eq_ok.mp hView
  exact .activate (.addVerifiedDependency (.new hNew) hAdd) hActivate

end Toy

/-- The search finds a path exactly if there is one through admissible nodes at a cost up to the
cutoff, and then it returns one of least cost. It fails only if the cost of some path that it may
follow, with one more edge, does not fit 64 bits. -/
theorem shortestPath_exact {lower : Lowercase} {profile : CostProfile} {view : ReplayTrustView}
    (hReachable : Reachable lower profile view) {start goal : ReplayBlockKey}
    (hStart : start ∈ view.nodeKeys) (hGoal : goal ∈ view.nodeKeys) (hNe : start ≠ goal)
    (cutoff : UInt64) (targetChain : String) (targetHeight : UInt64) :
    let result := view.shortestPath lower start goal cutoff targetChain targetHeight
    let admissiblePath node nodes segments := view.IsPath start node nodes segments ∧
      ∀ key ∈ nodes, Admissible lower profile cutoff targetChain targetHeight key
    (∀ found, result = .ok found →
        (found.isSome = true ↔ ∃ nodes segments, admissiblePath goal nodes segments ∧
          weight segments ≤ cutoff.toNat) ∧
        ∀ path, found = some path → admissiblePath goal path.nodes path.segments ∧
          path.cost.toNat = weight path.segments ∧ path.cost ≤ cutoff ∧
          ∀ nodes segments, admissiblePath goal nodes segments →
            path.cost.toNat ≤ weight segments) ∧
      ∀ e, result = .error e → e = .costOverflow ∧
        ∃ node nodes segments, admissiblePath node nodes segments ∧
          weight segments ≤ cutoff.toNat ∧ ∃ row ∈ view.adjacency.rows, row.fromKey = node ∧
            2 ^ 64 - 1 < weight segments + row.edge.weight.toNat := by
  intro result admissiblePath
  have hView := hReachable.invariant
  have hAllowed : ∀ node nodes segments,
      view.Allowed (searchBounds lower profile cutoff targetChain targetHeight) start node nodes
        segments ↔ admissiblePath node nodes segments ∧ weight segments ≤ cutoff.toNat := by
    intro node nodes segments
    constructor
    · intro h
      exact ⟨⟨h.isPath, fun key hMem => nodeOK_iff_admissible.mp (h.ok key hMem)⟩, h.weight⟩
    · rintro ⟨⟨hPath, hOk⟩, hWeight⟩
      exact ⟨hPath, fun key hMem => nodeOK_iff_admissible.mpr (hOk key hMem), hWeight⟩
  have hCases := @searchLoop_cases lower profile view
    (searchBounds lower profile cutoff targetChain targetHeight) start goal hView
  rw [← shortestPath_of_ne hStart hGoal hView hNe] at hCases
  obtain ⟨path, hFound, hShortest⟩ | ⟨hNone, hAbsent⟩ | ⟨hError, hOverflow⟩ := hCases
  · refine ⟨fun found hOk => ?_, fun e hOther => nomatch hFound.symm.trans hOther⟩
    obtain rfl : some path = found := Except.ok.inj (hFound.symm.trans hOk)
    obtain ⟨hAdmissible, hWeight⟩ := (hAllowed _ _ _).mp hShortest.allowed
    refine ⟨iff_of_true rfl ⟨_, _, hAdmissible, hWeight⟩, ?_⟩
    rintro _ ⟨⟩
    have hCost := hShortest.cost
    refine ⟨hAdmissible, hCost, UInt64.le_iff_toNat_le.mpr (hCost ▸ hWeight), ?_⟩
    intro nodes segments hPath
    by_cases hWithin : weight segments ≤ cutoff.toNat
    · exact hShortest.least _ _ ((hAllowed _ _ _).mpr ⟨hPath, hWithin⟩)
    · omega
  · refine ⟨fun found hOk => ?_, fun e hOther => nomatch hNone.symm.trans hOther⟩
    obtain rfl : none = found := Except.ok.inj (hNone.symm.trans hOk)
    refine ⟨iff_of_false (by simp) ?_, by simp⟩
    rintro ⟨nodes, segments, hPath⟩
    exact hAbsent nodes segments ((hAllowed _ _ _).mpr hPath)
  · refine ⟨fun found hOk => absurd (hError.symm.trans hOk) (by simp), fun e hOther => ?_⟩
    obtain ⟨node, nodes, segments, hPath, row, hMem, hFrom, hOver⟩ := hOverflow
    obtain ⟨hAdmissible, hWeight⟩ := (hAllowed _ _ _).mp hPath
    exact ⟨(Except.error.inj (hError.symm.trans hOther)).symm, node, nodes, segments, hAdmissible,
      hWeight, row, hMem, hFrom, by omega⟩

theorem shortestPath_exact_toy :
    ∃ view path, Toy.view = .ok view ∧
      view.shortestPath .plain ⟨"a", 1⟩ ⟨"b", 7⟩ 30 "b" 7 = .ok (some path) ∧ path.cost = 21 ∧
      ∀ nodes segments, view.IsPath ⟨"a", 1⟩ ⟨"b", 7⟩ nodes segments →
        (∀ key ∈ nodes, Admissible .plain Toy.profile 30 "b" 7 key) → 21 ≤ weight segments := by
  obtain ⟨view, hView⟩ := exists_ok_of_isOk (x := Toy.view) (by decide +kernel)
  have hFacts : (Toy.view.map fun view => (view.nodeKeys,
      (view.shortestPath .plain ⟨"a", 1⟩ ⟨"b", 7⟩ 30 "b" 7).map (·.map fun path => path.cost))) =
      .ok ([⟨"a", 1⟩, ⟨"b", 5⟩, ⟨"b", 7⟩], .ok (some 21)) := by
    decide +kernel
  rw [hView] at hFacts
  obtain ⟨hNodes, hCost⟩ := Prod.mk.inj (Except.ok.inj hFacts)
  have hExact := shortestPath_exact (Toy.view_reachable hView) (hNodes ▸ by simp)
    (hNodes ▸ by simp) (show (⟨"a", 1⟩ : ReplayBlockKey) ≠ ⟨"b", 7⟩ by decide) 30 "b" 7
  cases hResult : view.shortestPath .plain ⟨"a", 1⟩ ⟨"b", 7⟩ 30 "b" 7 with
  | error e =>
      rw [hResult] at hCost
      cases hCost
  | ok found =>
      rw [hResult] at hCost
      obtain ⟨path, rfl, hPath⟩ := Option.map_eq_some_iff.mp (Except.ok.inj hCost)
      obtain ⟨-, -, -, hLeast⟩ := (hExact.1 _ hResult).2 path rfl
      rw [hPath] at hLeast
      exact ⟨view, path, hView, hResult, hPath, fun nodes segments hIsPath hOk =>
        hLeast nodes segments ⟨hIsPath, hOk⟩⟩

end ReplayTrustView

end TrustMap.Mapnode.Replay
