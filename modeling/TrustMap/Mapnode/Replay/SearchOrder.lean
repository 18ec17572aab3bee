import TrustMap.Mapnode.Replay.ShortestPath

/-!
The order in which `ShortestPath` visits the edges of a node is that of a loop over a map, and may
differ from one loop to the next. The edges of one node lead to different nodes, so that the steps of
such a loop commute up to the order of the queue, and what is taken from the queue does not depend on
its order.
-/

namespace TrustMap.Mapnode.Replay

open Checks

/-! ## The queue -/

/-- Queues with the same items give the same item. -/
theorem popLeast_perm {queue queue' rest : List QueueItem} {item : QueueItem}
    (hPerm : queue.Perm queue') (hPop : popLeast queue = some (item, rest)) :
    ∃ rest', popLeast queue' = some (item, rest') ∧ rest.Perm rest' := by
  obtain ⟨hItems, hLeast⟩ := popLeastBy_eq_some hPop
  cases hPop' : popLeast queue' with
  | none =>
      have hMem : item ∈ queue' := hPerm.subset (hItems.symm.subset List.mem_cons_self)
      rw [popLeastBy_eq_none.mp hPop'] at hMem
      cases hMem
  | some popped =>
      obtain ⟨item', rest'⟩ := popped
      obtain ⟨hItems', hLeast'⟩ := popLeastBy_eq_some hPop'
      have hMem : item ∈ queue' := hPerm.subset (hItems.symm.subset List.mem_cons_self)
      have hMem' : item' ∈ queue := hPerm.symm.subset (hItems'.symm.subset List.mem_cons_self)
      obtain ⟨hCost, hKey⟩ := rank_inj (le_antisymm (hLeast item' hMem') (hLeast' item hMem))
      obtain rfl : item = item' := by
        cases item
        cases item'
        cases hCost
        cases hKey
        rfl
      exact ⟨rest', rfl, (hItems.symm.trans (hPerm.trans hItems')).cons_inv⟩

/-! ## One node -/

/-- Equal up to the order of the queue. -/
structure SearchState.Same (s s' : SearchState) : Prop where
  distances : s.distances = s'.distances
  predecessors : s.predecessors = s'.predecessors
  queue : s.queue.Perm s'.queue

namespace SearchState

variable {bounds : SearchBounds} {item : QueueItem} {s s' s'' : SearchState}
  {row other : AdjacencyRow} {rows rows' : List AdjacencyRow}

theorem Same.refl (s : SearchState) : s.Same s :=
  ⟨rfl, rfl, List.Perm.refl _⟩

theorem Same.trans (h : s.Same s') (h' : s'.Same s'') : s.Same s'' :=
  ⟨h.distances.trans h'.distances, h.predecessors.trans h'.predecessors, h.queue.trans h'.queue⟩

/-- What an edge does to the state of the search unless its cost overflows. -/
def improve (bounds : SearchBounds) (item : QueueItem) (s : SearchState) (row : AdjacencyRow) :
    SearchState :=
  let candidate := item.cost + row.edge.weight
  if bounds.cutoff < candidate ∨ bounds.nodeOK row.toKey = false ∨
      (s.distances row.toKey).any (· ≤ candidate) = true then s
  else {
    distances := Function.update s.distances row.toKey (some candidate)
    predecessors := Function.update s.predecessors row.toKey (some item.key)
    queue := ⟨row.toKey, candidate⟩ :: s.queue }

theorem Same.improve (h : s.Same s') : (s.improve bounds item row).Same (s'.improve bounds item row) := by
  simp only [SearchState.improve, h.distances]
  split
  · exact h
  · exact ⟨rfl, by rw [h.predecessors], h.queue.cons _⟩

theorem Same.foldl_improve (h : s.Same s') (rows : List AdjacencyRow) :
    (rows.foldl (SearchState.improve bounds item) s).Same
      (rows.foldl (SearchState.improve bounds item) s') := by
  induction rows generalizing s s' with
  | nil => exact h
  | cons row rows ih => exact ih h.improve

/-- An edge does not see what an edge to another node has changed. -/
theorem improve_comm (hNe : row.toKey ≠ other.toKey) :
    ((s.improve bounds item row).improve bounds item other).Same
      ((s.improve bounds item other).improve bounds item row) := by
  by_cases hRow : bounds.cutoff < item.cost + row.edge.weight ∨ bounds.nodeOK row.toKey = false ∨
      (s.distances row.toKey).any (· ≤ item.cost + row.edge.weight) = true
  · have hSkip : s.improve bounds item row = s := if_pos hRow
    rw [hSkip, improve.eq_def bounds item (s.improve bounds item other) row, if_pos]
    · exact Same.refl _
    · rw [improve]
      split
      · exact hRow
      · simpa only [Function.update_of_ne hNe] using hRow
  · by_cases hOther : bounds.cutoff < item.cost + other.edge.weight ∨
        bounds.nodeOK other.toKey = false ∨
        (s.distances other.toKey).any (· ≤ item.cost + other.edge.weight) = true
    · have hSkip : s.improve bounds item other = s := if_pos hOther
      rw [hSkip, improve.eq_def bounds item (s.improve bounds item row) other, if_pos]
      · exact Same.refl _
      · rw [improve, if_neg hRow]
        simpa only [Function.update_of_ne hNe.symm] using hOther
    · simp only [improve, if_neg hRow, if_neg hOther, Function.update_of_ne hNe,
        Function.update_of_ne hNe.symm]
      refine ⟨?_, ?_, List.Perm.swap _ _ _⟩
      · exact Function.update_comm hNe _ _ _
      · exact Function.update_comm hNe _ _ _

/-- The edges of a node in any two orders. -/
theorem foldl_improve_perm (hPerm : rows.Perm rows')
    (hTargets : rows.Pairwise fun row other => row.toKey ≠ other.toKey) (s : SearchState) :
    (rows.foldl (improve bounds item) s).Same (rows'.foldl (improve bounds item) s) := by
  induction hPerm generalizing s with
  | nil => exact Same.refl s
  | cons row _ ih => exact ih hTargets.of_cons _
  | swap row other rows =>
      have hNe : other.toKey ≠ row.toKey := List.rel_of_pairwise_cons hTargets List.mem_cons_self
      exact (improve_comm hNe).foldl_improve rows
  | trans hFirst _ ih ih' =>
      exact (ih hTargets s).trans (ih' (hTargets.perm hFirst fun h => h.symm) s)

end SearchState

namespace ReplayTrustView

variable {lower : Lowercase} {profile : CostProfile} {view : ReplayTrustView} {bounds : SearchBounds}
  {start goal : ReplayBlockKey} {item : QueueItem} {s s' : SearchState}

theorem relaxEdge_eq {row : AdjacencyRow} (hNode : row.toKey ∈ view.nodeKeys) :
    view.relaxEdge bounds item s row =
      if 2 ^ 64 ≤ item.cost.toNat + row.edge.weight.toNat then .error .costOverflow
      else .ok (s.improve bounds item row) := by
  by_cases hBig : 2 ^ 64 ≤ item.cost.toNat + row.edge.weight.toNat
  · rw [if_pos hBig, relaxEdge, checkedAdd_eq_error.mpr ⟨hBig, rfl⟩]
    rfl
  · have hAdd : checkedAdd item.cost row.edge.weight = .ok (item.cost + row.edge.weight) := by
      rw [checkedAdd_eq_ok, UInt64.toNat_add, Nat.mod_eq_of_lt (not_le.mp hBig)]
    rw [if_neg hBig, relaxEdge, hAdd, ok_bind, SearchState.improve, require, if_pos hNode]
    by_cases hSkip : bounds.cutoff < item.cost + row.edge.weight ∨ bounds.nodeOK row.toKey = false
    · rw [if_pos hSkip, if_pos (or_assoc.mp (Or.inl hSkip))]
      rfl
    · rw [if_neg hSkip, ok_bind]
      by_cases hKnown : (s.distances row.toKey).any (· ≤ item.cost + row.edge.weight) = true
      · rw [if_pos hKnown, if_pos (Or.inr (Or.inr hKnown))]
        rfl
      · rw [if_neg hKnown, if_neg (by rw [← or_assoc]; exact not_or.mpr ⟨hSkip, hKnown⟩)]
        rfl

theorem foldlM_relaxEdge_eq {rows : List AdjacencyRow}
    (hNodes : ∀ row ∈ rows, row.toKey ∈ view.nodeKeys) (s : SearchState) :
    rows.foldlM (view.relaxEdge bounds item) s =
      if rows.any (2 ^ 64 ≤ item.cost.toNat + ·.edge.weight.toNat) then .error .costOverflow
      else .ok (rows.foldl (SearchState.improve bounds item) s) := by
  induction rows generalizing s with
  | nil => rfl
  | cons row rows ih =>
      rw [List.foldlM_cons, relaxEdge_eq (hNodes row List.mem_cons_self), List.any_cons]
      by_cases hBig : 2 ^ 64 ≤ item.cost.toNat + row.edge.weight.toNat
      · simp only [hBig, decide_true, Bool.true_or, if_true]
        rfl
      · simp only [hBig, decide_false, Bool.false_or, List.foldl_cons]
        exact ih (fun other hMem => hNodes other (List.mem_cons_of_mem row hMem)) _

/-- The edges of a node lead to different nodes: an edge is found under its two ends. -/
theorem neighbours_targets (key : ReplayBlockKey) :
    (view.neighbours key).Pairwise fun row other => row.toKey ≠ other.toKey := by
  have hEnds : view.adjacency.rows.Pairwise fun row other => row.ends ≠ other.ends :=
    List.pairwise_map.mp view.adjacency.nodup
  refine (hEnds.filter _).imp_of_mem fun {row other} hRow hOther hNe hTo => hNe ?_
  have hFrom := (mem_neighbours.mp hRow).2.trans (mem_neighbours.mp hOther).2.symm
  exact Prod.ext hFrom hTo

/-! ## Whole searches -/

section Orders

variable (hView : view.Invariant lower profile)

include hView

/-- All edges of a node, in a given order and in the order of the rows. -/
theorem foldlM_relaxEdge_perm {rows : List AdjacencyRow}
    {key : ReplayBlockKey} (hPerm : rows.Perm (view.neighbours key)) (hSame : s.Same s') :
    (rows.foldlM (view.relaxEdge bounds item) s = .error .costOverflow ∧
        (view.neighbours key).foldlM (view.relaxEdge bounds item) s' = .error .costOverflow) ∨
      ∃ next next', rows.foldlM (view.relaxEdge bounds item) s = .ok next ∧
        (view.neighbours key).foldlM (view.relaxEdge bounds item) s' = .ok next' ∧
        next.Same next' := by
  have hNodes : ∀ row ∈ view.neighbours key, row.toKey ∈ view.nodeKeys := fun row hMem =>
    (hView.joined row (mem_neighbours.mp hMem).1).2
  rw [foldlM_relaxEdge_eq hNodes, foldlM_relaxEdge_eq fun row hMem => hNodes row (hPerm.subset hMem),
    hPerm.any_eq]
  split
  · exact Or.inl ⟨rfl, rfl⟩
  · refine Or.inr ⟨_, _, rfl, rfl, (hSame.foldl_improve rows).trans ?_⟩
    exact SearchState.foldl_improve_perm hPerm
      ((neighbours_targets key).perm hPerm.symm fun h => h.symm) s'

/-- States that differ in the order of the queue go through the same steps, whatever the order of
the edges in each. -/
theorem searchLoopIn_eq (order : view.IterationOrder)
    (fuel : ℕ) (hSame : s.Same s') :
    view.searchLoopIn order bounds start goal fuel s =
      view.searchLoopIn view.rowOrder bounds start goal fuel s' := by
  induction fuel generalizing s s' with
  | zero => rfl
  | succ fuel ih =>
      obtain ⟨distances, predecessors, queue⟩ := s
      obtain ⟨_, _, queue'⟩ := s'
      obtain ⟨rfl, rfl, hQueue⟩ := hSame
      rw [searchLoopIn, searchLoopIn]
      cases hPop : popLeast queue with
      | none =>
          obtain rfl := popLeastBy_eq_none.mp hPop
          obtain rfl : queue' = [] := hQueue.nil_eq.symm
          rfl
      | some popped =>
          obtain ⟨item, rest⟩ := popped
          obtain ⟨rest', hPop', hRest⟩ := popLeast_perm hQueue hPop
          have hNext : SearchState.Same ⟨distances, predecessors, rest⟩
              ⟨distances, predecessors, rest'⟩ := ⟨rfl, rfl, hRest⟩
          have hRows : view.rowOrder.edges fuel item.key = view.neighbours item.key := rfl
          simp only [hPop', ih hNext, hRows]
          -- the path is read from the predecessors alone; only the loop over the edges is left
          obtain ⟨hError, hError'⟩ | ⟨next, next', hOk, hOk', hAfter⟩ :=
            @foldlM_relaxEdge_perm lower profile view bounds item _ _ hView _ _
              (order.perm fuel item.key) hNext
          · rw [hError, hError']
            rfl
          · rw [hOk, hOk']
            simp only [ih hAfter]
            rfl

/-- The bound on the items is never reached. -/
theorem searchLoop_isSome :
    (view.searchLoopIn view.rowOrder bounds start goal (view.adjacency.rows.length + 2)
      (searchStart start)).isSome := by
  cases hStart : bounds.nodeOK start with
  | false => rw [searchLoop_of_not_ok hStart]; rfl
  | true =>
      rw [@searchLoop_init lower profile view bounds start goal hView hStart]
      obtain ⟨way, hRun, -⟩ | ⟨hRun, -⟩ | ⟨hRun, -⟩ := searchProblem_ends view bounds start goal
      all_goals rw [hRun]; rfl

theorem shortestPathIn_eq (order : view.IterationOrder)
    (start goal : ReplayBlockKey) (cutoff : UInt64) (targetChain : String) (targetHeight : UInt64) :
    view.shortestPathIn lower order start goal cutoff targetChain targetHeight =
      view.shortestPath lower start goal cutoff targetChain targetHeight := by
  simp only [shortestPathIn, shortestPath, searchLoopIn_eq hView order _ (SearchState.Same.refl _)]

end Orders

/-- A search ends with the same error, or the same path or none, whatever the orders in which its
loops visit the edges. -/
theorem shortestPath_order_independent (hReachable : Reachable lower profile view)
    (order order' : view.IterationOrder) (start goal : ReplayBlockKey) (cutoff : UInt64)
    (targetChain : String) (targetHeight : UInt64) :
    view.shortestPathIn lower order start goal cutoff targetChain targetHeight =
        view.shortestPathIn lower order' start goal cutoff targetChain targetHeight ∧
      ∀ bounds start goal, (view.searchLoopIn order bounds start goal
        (view.adjacency.rows.length + 2) (searchStart start)).isSome := by
  have hView := hReachable.invariant
  constructor
  · rw [shortestPathIn_eq hView, shortestPathIn_eq hView]
  · intro bounds start goal
    rw [searchLoopIn_eq hView order _ (SearchState.Same.refl _)]
    exact searchLoop_isSome hView

theorem shortestPath_order_independent_toy :
    ∃ view, Toy.view = .ok view ∧ ∃ order order' : view.IterationOrder,
      (∀ step key, order'.edges step key = (order.edges step key).reverse) ∧
      view.shortestPathIn .plain order ⟨"a", 1⟩ ⟨"b", 7⟩ 30 "b" 7 =
        view.shortestPathIn .plain order' ⟨"a", 1⟩ ⟨"b", 7⟩ 30 "b" 7 := by
  obtain ⟨view, hView⟩ := exists_ok_of_isOk (x := Toy.view) (by decide +kernel)
  exact ⟨view, hView, ⟨fun _ => view.neighbours, fun _ _ => List.Perm.refl _⟩,
    ⟨fun _ key => (view.neighbours key).reverse, fun _ _ => List.reverse_perm _⟩, fun _ _ => rfl,
    (shortestPath_order_independent (Toy.view_reachable hView) _ _ _ _ _ _ _).1⟩

end ReplayTrustView

end TrustMap.Mapnode.Replay
