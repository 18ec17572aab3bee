import TrustMap.Library.Loops
import TrustMap.Library.Stamped
import TrustMap.Mapnode.Replay.GraphShape
import TrustMap.Mapnode.Replay.SearchOrder

/-!
`replaySearchScratch`: the distances and predecessors of a search by the number of the node, in
arrays that are used again by later searches. A search on a used scratch and a search on empty maps
go through the same steps.
-/

namespace TrustMap.Mapnode.Replay

open Checks

/-- `replayQueueItem`, with the number of its node. -/
structure NumberedItem where
  id : ℕ
  key : ReplayBlockKey
  cost : UInt64

/-- `heap.Pop` on items with numbers. -/
def popNumbered : List NumberedItem → Option (NumberedItem × List NumberedItem) :=
  popLeastBy fun item => rank item.cost item.key

/-- `replaySearchScratch`. Cells are stamped with generations up to the current one. -/
structure SearchScratch where
  generation : UInt64
  distances : Stamped UInt64 UInt64
  predecessors : Stamped ℕ UInt64
  queue : List NumberedItem
  distances_until : distances.Until generation
  predecessors_until : predecessors.Until generation

namespace SearchScratch

/-- A scratch without cells. -/
def empty (generation : UInt64) : SearchScratch :=
  ⟨generation, .empty, .empty, [], Stamped.until_empty _, Stamped.until_empty _⟩

theorem zero_le (generation : UInt64) : 0 ≤ generation := by
  rw [UInt64.le_iff_toNat_le]
  exact Nat.zero_le _

theorem lt_succ_of_ne_max {generation : UInt64} (hMax : generation ≠ maxUint64) :
    generation < generation + 1 := by
  have hNat : generation.toNat ≠ 2 ^ 64 - 1 := fun h => hMax (UInt64.toNat_inj.mp h)
  have hLt := generation.toNat_lt
  rw [UInt64.lt_iff_toNat_lt, UInt64.toNat_add]
  simp only [UInt64.toNat_one]
  omega

/-- The generation after an increment; zero is passed over. -/
def nextGeneration (generation : UInt64) : UInt64 :=
  if generation + 1 = 0 then 1 else generation + 1

theorem lt_nextGeneration {generation : UInt64} (hMax : generation ≠ maxUint64) :
    generation < nextGeneration generation := by
  have hLt := lt_succ_of_ne_max hMax
  have hNe : generation + 1 ≠ 0 := fun h => (h ▸ hLt).not_ge (zero_le generation)
  rwa [nextGeneration, if_neg hNe]

/-- `begin`. -/
def begin (scratch : SearchScratch) (size : ℕ) : SearchScratch :=
  let distances := scratch.distances.grow size 0 0
  let predecessors := scratch.predecessors.grow size 0 0
  have hDistances : distances.Until scratch.generation :=
    scratch.distances_until.grow (zero_le _) size 0
  have hPredecessors : predecessors.Until scratch.generation :=
    scratch.predecessors_until.grow (zero_le _) size 0
  if hMax : scratch.generation = maxUint64 then
    { generation := 1
      distances := distances.clear 0
      predecessors := predecessors.clear 0
      queue := []
      distances_until := (distances.until_clear 0).mono (zero_le 1)
      predecessors_until := (predecessors.until_clear 0).mono (zero_le 1) }
  else
    { generation := nextGeneration scratch.generation
      distances
      predecessors
      queue := []
      distances_until := hDistances.mono (lt_nextGeneration hMax).le
      predecessors_until := hPredecessors.mono (lt_nextGeneration hMax).le }

/-- `getDistance`. -/
def getDistance (scratch : SearchScratch) (id : ℕ) : Option UInt64 :=
  scratch.distances.get scratch.generation id

/-- `setDistance`. -/
def setDistance (scratch : SearchScratch) (id : ℕ) (distance : UInt64) : SearchScratch :=
  { scratch with
    distances := scratch.distances.set scratch.generation id distance
    distances_until := scratch.distances_until.set id distance }

/-- `getPredecessor`. -/
def getPredecessor (scratch : SearchScratch) (id : ℕ) : Option ℕ :=
  scratch.predecessors.get scratch.generation id

/-- `setPredecessor`. -/
def setPredecessor (scratch : SearchScratch) (id predecessor : ℕ) : SearchScratch :=
  { scratch with
    predecessors := scratch.predecessors.set scratch.generation id predecessor
    predecessors_until := scratch.predecessors_until.set id predecessor }

/-- The scratch with another queue. -/
def withQueue (scratch : SearchScratch) (queue : List NumberedItem) : SearchScratch :=
  { scratch with queue }

/-- `heap.Push`. -/
def push (scratch : SearchScratch) (item : NumberedItem) : SearchScratch :=
  scratch.withQueue (item :: scratch.queue)

theorem getDistance_setDistance {scratch : SearchScratch} {id : ℕ}
    (hSize : id < scratch.distances.size) (distance : UInt64) (other : ℕ) :
    (scratch.setDistance id distance).getDistance other =
      if other = id then some distance else scratch.getDistance other :=
  Stamped.get_set hSize _ distance other

theorem getPredecessor_setPredecessor {scratch : SearchScratch} {id : ℕ}
    (hSize : id < scratch.predecessors.size) (predecessor other : ℕ) :
    (scratch.setPredecessor id predecessor).getPredecessor other =
      if other = id then some predecessor else scratch.getPredecessor other :=
  Stamped.get_set hSize _ predecessor other

/-- All arrays have cells for the nodes of a graph. -/
structure Fits (scratch : SearchScratch) (size : ℕ) : Prop where
  distances : size ≤ scratch.distances.size
  predecessors : size ≤ scratch.predecessors.size

theorem begin_fits (scratch : SearchScratch) (size : ℕ) : (scratch.begin size).Fits size := by
  have hDistances := scratch.distances.le_size_grow size 0 0
  have hPredecessors := scratch.predecessors.le_size_grow size 0 0
  rw [begin]
  split
  · exact ⟨hDistances, hPredecessors⟩
  · exact ⟨hDistances, hPredecessors⟩

theorem begin_queue (scratch : SearchScratch) (size : ℕ) : (scratch.begin size).queue = [] := by
  rw [begin]
  split <;> rfl

/-- After `begin` no cell carries the current generation: those of earlier generations are smaller,
and after the largest generation all are cleared. -/
theorem begin_fresh (scratch : SearchScratch) (size : ℕ) :
    (scratch.begin size).generation ∉ (scratch.begin size).distances.stamps ∧
      (scratch.begin size).generation ∉ (scratch.begin size).predecessors.stamps := by
  rw [begin]
  split
  next hMax =>
    have hNext : (0 : UInt64) < 1 := by decide
    exact ⟨(Stamped.until_clear _ 0).fresh hNext, (Stamped.until_clear _ 0).fresh hNext⟩
  next hMax =>
    have hNext := lt_nextGeneration hMax
    exact ⟨(scratch.distances_until.grow (zero_le _) size 0).fresh hNext,
      (scratch.predecessors_until.grow (zero_le _) size 0).fresh hNext⟩

theorem getDistance_begin (scratch : SearchScratch) (size id : ℕ) :
    (scratch.begin size).getDistance id = none :=
  Stamped.get_eq_none (begin_fresh scratch size).1 id

theorem getPredecessor_begin (scratch : SearchScratch) (size id : ℕ) :
    (scratch.begin size).getPredecessor id = none :=
  Stamped.get_eq_none (begin_fresh scratch size).2 id

end SearchScratch

namespace ReplayTrustView

/-- `nodeIDLocked`. -/
def nodeIDLocked (view : ReplayTrustView) (key : ReplayBlockKey) : Except ReplayError ℕ :=
  match view.nodeIDs key with
  | none => .error .nodeMissing
  | some id =>
      match view.nodeKeys[id]? with
      | none => .error .nodeIDRange
      | some found => if found = key then .ok id else .error .nodeIDMismatch

/-- The body of the loop over the edges of an item. -/
def relaxEdgeOn (view : ReplayTrustView) (bounds : SearchBounds) (item : NumberedItem)
    (scratch : SearchScratch) (row : AdjacencyRow) : Except ReplayError SearchScratch := do
  let candidate ← checkedAdd item.cost row.edge.weight
  if bounds.cutoff < candidate ∨ bounds.nodeOK row.toKey = false then return scratch
  let id ← view.nodeIDLocked row.toKey
  if (scratch.getDistance id).any (· ≤ candidate) then return scratch
  return ((scratch.setDistance id candidate).setPredecessor id item.id).push ⟨id, row.toKey, candidate⟩

/-- The loop of `reconstructPathLocked` over the numbers of the predecessors. -/
def collectNodesOn (view : ReplayTrustView) (scratch : SearchScratch) (start : ℕ) :
    ℕ → ℕ → List ReplayBlockKey → Except ReplayError (List ReplayBlockKey)
  | 0, _, _ => .error .predecessorMissing
  | fuel + 1, current, nodes =>
      if current = start then .ok nodes
      else
        match scratch.getPredecessor current with
        | none => .error .predecessorMissing
        | some prior =>
            match view.nodeKeys[prior]? with
            | none => .error .nodeMissing
            | some key => view.collectNodesOn scratch start fuel prior (key :: nodes)

/-- `reconstructPathLocked`. -/
def reconstructPathOn (view : ReplayTrustView) (scratch : SearchScratch) (start goal : ℕ)
    (cost : UInt64) : Except ReplayError (Option ReplayPath) :=
  match view.nodeKeys[goal]? with
  | none => .error .nodeMissing
  | some key => do
      let nodes ← view.collectNodesOn scratch start (cost.toNat + 1) goal [key]
      match reconstructPath view.edge cost nodes with
      | none => .error .edgeMissing
      | some path => .ok (some path)

/-- What the loop of `ShortestPath` does with an item: the result if the search ends here. -/
def visitOn (view : ReplayTrustView) (bounds : SearchBounds) (start goal : ℕ)
    (edges : ReplayBlockKey → List AdjacencyRow) (item : NumberedItem) (scratch : SearchScratch) :
    Option (Except ReplayError (Option ReplayPath)) × SearchScratch :=
  if scratch.getDistance item.id ≠ some item.cost then (none, scratch)
  else if bounds.cutoff < item.cost then (some (.ok none), scratch)
  else if bounds.nodeOK item.key = false then (none, scratch)
  else if item.id = goal then (some (view.reconstructPathOn scratch start goal item.cost), scratch)
  else
    match Loops.foldStop (view.relaxEdgeOn bounds item) (edges item.key) scratch with
    | (.error e, scratch) => (some (.error e), scratch)
    | (.ok (), scratch) => (none, scratch)

/-- The body of the loop of `ShortestPath`. -/
def searchStepOn (view : ReplayTrustView) (bounds : SearchBounds) (start goal : ℕ)
    (edges : ReplayBlockKey → List AdjacencyRow) (scratch : SearchScratch) :
    Option (Except ReplayError (Option ReplayPath)) × SearchScratch :=
  match popNumbered scratch.queue with
  | none => (some (.ok none), scratch)
  | some (item, rest) => view.visitOn bounds start goal edges item (scratch.withQueue rest)

/-- The loop of `ShortestPath`, with a bound on the items it takes from the queue. -/
def searchLoopOn (view : ReplayTrustView) (order : view.IterationOrder) (bounds : SearchBounds)
    (start goal fuel : ℕ) (scratch : SearchScratch) :
    Option (Except ReplayError (Option ReplayPath)) × SearchScratch :=
  Loops.runUntil (fun step => view.searchStepOn bounds start goal (order.edges step)) fuel scratch

/-- `ShortestPath` on a scratch from the pool: the result, and the scratch that goes back. -/
def shortestPathOn (lower : Lowercase) (view : ReplayTrustView) (order : view.IterationOrder)
    (start goal : ReplayBlockKey) (cutoff : UInt64) (targetChain : String) (targetHeight : UInt64)
    (scratch : SearchScratch) : Except ReplayError (Option ReplayPath) × SearchScratch :=
  let start := canonicalKey lower start
  let goal := canonicalKey lower goal
  if start = goal then (.ok (some ⟨0, [start], []⟩), scratch)
  else
    let scratch := scratch.begin view.nodeKeys.length
    match view.nodeIDLocked start with
    | .error e => (.error e, scratch)
    | .ok startID =>
        match view.nodeIDLocked goal with
        | .error e => (.error e, scratch)
        | .ok goalID =>
            let bounds := searchBounds lower view.profile cutoff targetChain targetHeight
            let (result, scratch) := view.searchLoopOn order bounds startID goalID
              (view.adjacency.rows.length + 2)
              ((scratch.setDistance startID 0).push ⟨startID, start, 0⟩)
            (result.getD (.error .nodeMissing), scratch)

end ReplayTrustView

/-! ## Numbers and nodes -/

/-- A queue item with the number of its node. -/
def QueueItem.numbered (view : ReplayTrustView) (item : QueueItem) : NumberedItem :=
  ⟨view.nodeID item.key, item.key, item.cost⟩

theorem popNumbered_map (view : ReplayTrustView) (queue : List QueueItem) :
    popNumbered (queue.map (QueueItem.numbered view)) = (popLeast queue).map fun popped =>
      (popped.1.numbered view, popped.2.map (QueueItem.numbered view)) :=
  popLeastBy_map (fun _ => rfl) queue

namespace ReplayTrustView

variable {view : ReplayTrustView} {bounds : SearchBounds} {scratch : SearchScratch} {s : SearchState}
  {key other start goal : ReplayBlockKey}

/-- In a numbered view only the first check of `nodeIDLocked` can fail. -/
theorem Numbered.nodeIDLocked_eq (h : view.Numbered) (key : ReplayBlockKey) :
    view.nodeIDLocked key =
      if key ∈ view.nodeKeys then .ok (view.nodeID key) else .error .nodeMissing := by
  split
  · rename_i hKey
    obtain ⟨hID, hFound⟩ := h.nodeIDs_eq hKey
    simp only [nodeIDLocked, hID, hFound, if_true]
  · rename_i hKey
    have hNone : view.nodeIDs key = none :=
      Option.not_isSome_iff_eq_none.mp (mt (h.nodeID_bijOn.1 key).mp hKey)
    rw [nodeIDLocked, hNone]

/-- The scratch holds, under their numbers, what the maps hold. -/
structure Holds (view : ReplayTrustView) (scratch : SearchScratch) (s : SearchState) : Prop where
  numbered : view.Numbered
  fits : scratch.Fits view.nodeKeys.length
  distances : ∀ key ∈ view.nodeKeys, scratch.getDistance (view.nodeID key) = s.distances key
  predecessors : ∀ key ∈ view.nodeKeys,
    scratch.getPredecessor (view.nodeID key) = (s.predecessors key).map view.nodeID
  priors : ∀ key prior, s.predecessors key = some prior → prior ∈ view.nodeKeys
  queue : scratch.queue = s.queue.map (QueueItem.numbered view)
  queued : ∀ item ∈ s.queue, item.key ∈ view.nodeKeys

/-- A scratch after `begin` holds empty maps. -/
theorem holds_begin (hView : view.Numbered) (scratch : SearchScratch) :
    view.Holds (scratch.begin view.nodeKeys.length) ⟨fun _ => none, fun _ => none, []⟩ where
  numbered := hView
  fits := scratch.begin_fits _
  distances _ _ := scratch.getDistance_begin _ _
  predecessors _ _ := scratch.getPredecessor_begin _ _
  priors _ _ h := nomatch h
  queue := scratch.begin_queue _
  queued _ h := nomatch h

section Holds

variable (h : view.Holds scratch s)

include h

theorem Holds.setDistance (hKey : key ∈ view.nodeKeys) (distance : UInt64) :
    view.Holds (scratch.setDistance (view.nodeID key) distance)
      { s with distances := Function.update s.distances key (some distance) } where
  numbered := h.numbered
  fits := ⟨by simpa [SearchScratch.setDistance] using h.fits.distances, h.fits.predecessors⟩
  distances other hOther := by
    rw [SearchScratch.getDistance_setDistance ((h.numbered.nodeID_lt hKey).trans_le h.fits.distances)]
    rcases eq_or_ne other key with rfl | hNe
    · simp only [if_true, Function.update_self]
    · simp only [if_neg (mt (h.numbered.nodeID_inj hOther hKey).mp hNe), Function.update_of_ne hNe]
      exact h.distances other hOther
  predecessors := h.predecessors
  priors := h.priors
  queue := h.queue
  queued := h.queued

theorem Holds.setPredecessor (hKey : key ∈ view.nodeKeys)
    (hOther : other ∈ view.nodeKeys) :
    view.Holds (scratch.setPredecessor (view.nodeID key) (view.nodeID other))
      { s with predecessors := Function.update s.predecessors key (some other) } where
  numbered := h.numbered
  fits := ⟨h.fits.distances, by simpa [SearchScratch.setPredecessor] using h.fits.predecessors⟩
  distances := h.distances
  predecessors node hNode := by
    rw [SearchScratch.getPredecessor_setPredecessor ((h.numbered.nodeID_lt hKey).trans_le h.fits.predecessors)]
    rcases eq_or_ne node key with rfl | hNe
    · simp only [if_true, Function.update_self, Option.map_some]
    · simp only [if_neg (mt (h.numbered.nodeID_inj hNode hKey).mp hNe), Function.update_of_ne hNe]
      exact h.predecessors node hNode
  priors node prior hPrior := by
    rcases eq_or_ne node key with rfl | hNe
    · simp only [Function.update_self] at hPrior
      exact Option.some.inj hPrior ▸ hOther
    · simp only [Function.update_of_ne hNe] at hPrior
      exact h.priors node prior hPrior
  queue := h.queue
  queued := h.queued

theorem Holds.push {item : QueueItem} (hItem : item.key ∈ view.nodeKeys) :
    view.Holds (scratch.push (item.numbered view)) { s with queue := item :: s.queue } where
  numbered := h.numbered
  fits := ⟨h.fits.distances, h.fits.predecessors⟩
  distances := h.distances
  predecessors := h.predecessors
  priors := h.priors
  queue := congrArg _ h.queue
  queued := List.forall_mem_cons.mpr ⟨hItem, h.queued⟩

theorem Holds.pop {item : QueueItem} {rest : List QueueItem}
    (hPop : popLeast s.queue = some (item, rest)) :
    item.key ∈ view.nodeKeys ∧
      view.Holds (scratch.withQueue (rest.map (QueueItem.numbered view)))
        { s with queue := rest } := by
  have hItems := (popLeastBy_eq_some hPop).1.symm.subset
  refine ⟨h.queued item (hItems List.mem_cons_self), h.numbered, ⟨h.fits.distances, h.fits.predecessors⟩,
    h.distances, h.predecessors, h.priors, rfl, fun other hMem => ?_⟩
  exact h.queued other (hItems (List.mem_cons_of_mem item hMem))

end Holds

theorem holds_start (hView : view.Numbered) (scratch : SearchScratch) (hStart : start ∈ view.nodeKeys) :
    view.Holds (((scratch.begin view.nodeKeys.length).setDistance (view.nodeID start) 0).push
      ⟨view.nodeID start, start, 0⟩) (searchStart start) :=
  @Holds.push view _ _ ((holds_begin hView scratch).setDistance hStart 0) ⟨start, 0⟩ hStart

/-! ## The same steps -/

theorem relaxEdgeOn_follows {item : QueueItem} (row : AdjacencyRow) (hItem : item.key ∈ view.nodeKeys)
    (h : view.Holds scratch s) :
    Loops.Follows view.Holds (view.relaxEdgeOn bounds (item.numbered view) scratch row)
      (view.relaxEdge bounds item s row) := by
  rw [relaxEdge, relaxEdgeOn, show (item.numbered view).cost = item.cost from rfl]
  cases checkedAdd item.cost row.edge.weight with
  | error e => exact .error e
  | ok candidate =>
      rw [ok_bind, ok_bind]
      by_cases hSkip : bounds.cutoff < candidate ∨ bounds.nodeOK row.toKey = false
      · rw [if_pos hSkip, if_pos hSkip]
        exact .ok h
      · rw [if_neg hSkip, if_neg hSkip, h.numbered.nodeIDLocked_eq, require]
        by_cases hNode : row.toKey ∈ view.nodeKeys
        · rw [if_pos hNode, if_pos hNode, ok_bind, ok_bind, h.distances _ hNode]
          by_cases hKnown : (s.distances row.toKey).any (· ≤ candidate) = true
          · rw [if_pos hKnown, if_pos hKnown]
            exact .ok h
          · rw [if_neg hKnown, if_neg hKnown]
            exact .ok (@Holds.push view _ _
              ((h.setDistance hNode candidate).setPredecessor hNode hItem)
              ⟨row.toKey, candidate⟩ hNode)
        · rw [if_neg hNode, if_neg hNode]
          exact .error _

theorem collectNodesOn_eq (h : view.Holds scratch s) (hStart : start ∈ view.nodeKeys) (fuel : ℕ)
    (hKey : key ∈ view.nodeKeys) (nodes : List ReplayBlockKey) :
    view.collectNodesOn scratch (view.nodeID start) fuel (view.nodeID key) nodes =
      collectNodes s.predecessors start fuel key nodes := by
  induction fuel generalizing key nodes with
  | zero => rfl
  | succ fuel ih =>
      rw [collectNodesOn, collectNodes, h.predecessors key hKey]
      simp only [h.numbered.nodeID_inj hKey hStart]
      split
      · rfl
      · cases hPrior : s.predecessors key with
        | none => rfl
        | some prior =>
            have hMem := h.priors key prior hPrior
            simp only [Option.map_some, (h.numbered.nodeIDs_eq hMem).2]
            exact ih hMem _

theorem reconstructPathOn_eq (h : view.Holds scratch s) (hStart : start ∈ view.nodeKeys)
    (hGoal : goal ∈ view.nodeKeys) (cost : UInt64) :
    view.reconstructPathOn scratch (view.nodeID start) (view.nodeID goal) cost =
      view.reconstructPathLocked start goal cost s := by
  rw [reconstructPathOn, (h.numbered.nodeIDs_eq hGoal).2, reconstructPathLocked]
  exact congrArg (· >>= _) (collectNodesOn_eq h hStart _ hGoal _)

theorem searchStepOn_some {edges : ReplayBlockKey → List AdjacencyRow} {startID goalID : ℕ}
    {item : QueueItem} {rest : List QueueItem} (h : view.Holds scratch s)
    (hPop : popLeast s.queue = some (item, rest)) :
    view.searchStepOn bounds startID goalID edges scratch =
      view.visitOn bounds startID goalID edges (item.numbered view)
        (scratch.withQueue (rest.map (QueueItem.numbered view))) := by
  rw [searchStepOn, h.queue, popNumbered_map, hPop]
  rfl

/-- One item: the search on the maps ends with the same result, or both go on. -/
theorem searchStepOn_cases (order : view.IterationOrder) (hStart : start ∈ view.nodeKeys)
    (hGoal : goal ∈ view.nodeKeys) (fuel : ℕ) (h : view.Holds scratch s) :
    (∃ result scratch', view.searchStepOn bounds (view.nodeID start) (view.nodeID goal)
        (order.edges fuel) scratch = (some result, scratch') ∧
        view.searchLoopIn order bounds start goal (fuel + 1) s = some result) ∨
      ∃ scratch' s', view.searchStepOn bounds (view.nodeID start) (view.nodeID goal)
        (order.edges fuel) scratch = (none, scratch') ∧ view.Holds scratch' s' ∧
        view.searchLoopIn order bounds start goal (fuel + 1) s =
          view.searchLoopIn order bounds start goal fuel s' := by
  cases hPop : popLeast s.queue with
  | none =>
      refine Or.inl ⟨.ok none, scratch, ?_, by simp only [searchLoopIn, hPop]⟩
      rw [searchStepOn, h.queue, popNumbered_map, hPop]
      rfl
  | some popped =>
      obtain ⟨item, rest⟩ := popped
      obtain ⟨hItem, hNext⟩ := h.pop hPop
      have hEdges := @Loops.foldStop_follows _ _ _ _ (view.relaxEdgeOn bounds (item.numbered view))
        (view.relaxEdge bounds item) view.Holds
        (fun _ _ row hHolds => relaxEdgeOn_follows row hItem hHolds) (order.edges fuel item.key) _ _
        hNext
      rw [searchStepOn_some h hPop, visitOn,
        show (item.numbered view).id = view.nodeID item.key from rfl, hNext.distances item.key hItem,
        show (item.numbered view).cost = item.cost from rfl,
        show (item.numbered view).key = item.key from rfl]
      by_cases hKnown : s.distances item.key ≠ some item.cost
      · rw [if_pos hKnown]
        exact Or.inr ⟨_, _, rfl, hNext, by simp only [searchLoopIn, hPop, if_pos hKnown]⟩
      rw [if_neg hKnown]
      by_cases hCutoff : bounds.cutoff < item.cost
      · rw [if_pos hCutoff]
        exact Or.inl ⟨_, _, rfl, by simp only [searchLoopIn, hPop, if_neg hKnown, if_pos hCutoff]⟩
      rw [if_neg hCutoff]
      by_cases hNode : bounds.nodeOK item.key = false
      · rw [if_pos hNode]
        refine Or.inr ⟨_, _, rfl, hNext, ?_⟩
        simp only [searchLoopIn, hPop, if_neg hKnown, if_neg hCutoff, if_pos hNode]
      rw [if_neg hNode]
      by_cases hFound : item.key = goal
      · rw [if_pos ((h.numbered.nodeID_inj hItem hGoal).mpr hFound),
          reconstructPathOn_eq hNext hStart hGoal]
        refine Or.inl ⟨_, _, rfl, ?_⟩
        simp only [searchLoopIn, hPop, if_neg hKnown, if_neg hCutoff, if_neg hNode, if_pos hFound]
      rw [if_neg (mt (h.numbered.nodeID_inj hItem hGoal).mp hFound)]
      obtain ⟨e, scratch', hOn, hMaps⟩ | ⟨scratch', s', hOn, hMaps, hAfter⟩ := hEdges
      · rw [hOn]
        refine Or.inl ⟨_, _, rfl, ?_⟩
        simp only [searchLoopIn, hPop, if_neg hKnown, if_neg hCutoff, if_neg hNode, if_neg hFound,
          hMaps]
      · rw [hOn]
        refine Or.inr ⟨_, _, rfl, hAfter, ?_⟩
        simp only [searchLoopIn, hPop, if_neg hKnown, if_neg hCutoff, if_neg hNode, if_neg hFound,
          hMaps]

theorem searchLoopOn_eq (order : view.IterationOrder) (hStart : start ∈ view.nodeKeys)
    (hGoal : goal ∈ view.nodeKeys) (fuel : ℕ) (h : view.Holds scratch s) :
    (view.searchLoopOn order bounds (view.nodeID start) (view.nodeID goal) fuel scratch).1 =
      view.searchLoopIn order bounds start goal fuel s := by
  induction fuel generalizing scratch s with
  | zero => rfl
  | succ fuel ih =>
      rw [searchLoopOn, Loops.runUntil]
      obtain ⟨result, scratch', hOn, hLoop⟩ | ⟨scratch', s', hOn, hNext, hLoop⟩ :=
        @searchStepOn_cases view bounds _ _ start goal order hStart hGoal fuel h
      · rw [hOn, hLoop]
      · rw [hOn, hLoop]
        exact ih hNext

/-- A search on any scratch has the result of the search on empty maps. -/
theorem shortestPathOn_eq (hView : view.Numbered) (lower : Lowercase) (order : view.IterationOrder)
    (start goal : ReplayBlockKey) (cutoff : UInt64) (targetChain : String) (targetHeight : UInt64)
    (scratch : SearchScratch) :
    (view.shortestPathOn lower order start goal cutoff targetChain targetHeight scratch).1 =
      view.shortestPathIn lower order start goal cutoff targetChain targetHeight := by
  rw [shortestPathOn, shortestPathIn]
  by_cases hSame : canonicalKey lower start = canonicalKey lower goal
  · rw [if_pos hSame, if_pos hSame]
    rfl
  rw [if_neg hSame, if_neg hSame, hView.nodeIDLocked_eq, hView.nodeIDLocked_eq, require, require]
  by_cases hStart : canonicalKey lower start ∈ view.nodeKeys
  · rw [if_pos hStart, if_pos hStart]
    by_cases hGoal : canonicalKey lower goal ∈ view.nodeKeys
    · rw [if_pos hGoal, if_pos hGoal, ok_bind, ok_bind]
      exact congrArg (·.getD (.error .nodeMissing))
        (searchLoopOn_eq order hStart hGoal _ (holds_start hView scratch hStart))
    · rw [if_neg hGoal, if_neg hGoal]
      rfl
  · rw [if_neg hStart, if_neg hStart]
    rfl

end ReplayTrustView

/-! ## Histories of searches -/

/-- A call of `ShortestPath` on some view, with the orders its loops over maps take. -/
structure SearchCall where
  lower : Lowercase
  profile : CostProfile
  view : ReplayTrustView
  reachable : view.Reachable lower profile
  order : view.IterationOrder
  start : ReplayBlockKey
  goal : ReplayBlockKey
  cutoff : UInt64
  targetChain : String
  targetHeight : UInt64

namespace SearchCall

/-- The call on a scratch. -/
def onScratch (call : SearchCall) (scratch : SearchScratch) :
    Except ReplayError (Option ReplayPath) × SearchScratch :=
  call.view.shortestPathOn call.lower call.order call.start call.goal call.cutoff call.targetChain
    call.targetHeight scratch

/-- The call on empty maps. -/
def onMaps (call : SearchCall) : Except ReplayError (Option ReplayPath) :=
  call.view.shortestPathIn call.lower call.order call.start call.goal call.cutoff call.targetChain
    call.targetHeight

end SearchCall

/-- The scratch after a history of searches. -/
def SearchScratch.after (history : List SearchCall) (scratch : SearchScratch) : SearchScratch :=
  history.foldl (fun scratch call => (call.onScratch scratch).2) scratch

/-- A search on a scratch that other searches have used, from an empty one of any generation on, has
the result of the search on empty maps. -/
theorem usedScratch_invisible (generation : UInt64) (history : List SearchCall) (call : SearchCall) :
    (call.onScratch (SearchScratch.after history (.empty generation))).1 = call.onMaps ∧
      ∀ bounds start goal, (call.view.searchLoopIn call.order bounds start goal
        (call.view.adjacency.rows.length + 2) (ReplayTrustView.searchStart start)).isSome := by
  have hView := call.reachable.invariant
  constructor
  · exact ReplayTrustView.shortestPathOn_eq hView.numbered _ _ _ _ _ _ _ _
  · intro bounds start goal
    rw [ReplayTrustView.searchLoopIn_eq hView call.order _ (SearchState.Same.refl _)]
    exact ReplayTrustView.searchLoop_isSome hView

/-- The search on the small view, for a path of cost 21. -/
def SearchCall.toy (view : ReplayTrustView) (hView : ReplayTrustView.Toy.view = .ok view) :
    SearchCall where
  lower := .plain
  profile := ReplayTrustView.Toy.profile
  view := view
  reachable := ReplayTrustView.Toy.view_reachable hView
  order := view.rowOrder
  start := ⟨"a", 1⟩
  goal := ⟨"b", 7⟩
  cutoff := 30
  targetChain := "b"
  targetHeight := 7

/-- The first search finds the largest generation, grows the arrays and clears them; the second one
uses them again. -/
theorem usedScratch_invisible_toy : ∃ view, ∃ hView : ReplayTrustView.Toy.view = .ok view,
    let used := SearchScratch.after [.toy view hView] (.empty maxUint64)
    used.generation = 1 ∧ used.distances.size = 3 ∧
      ((SearchCall.toy view hView).onScratch used).2.generation = 2 ∧
      ((SearchCall.toy view hView).onScratch used).1 = (SearchCall.toy view hView).onMaps := by
  obtain ⟨view, hView⟩ := exists_ok_of_isOk (x := ReplayTrustView.Toy.view) (by decide +kernel)
  have hFacts : (ReplayTrustView.Toy.view.map fun view =>
      let search := view.shortestPathOn .plain view.rowOrder
        ⟨"a", 1⟩ ⟨"b", 7⟩ 30 "b" 7
      let used := (search (.empty maxUint64)).2
      (used.generation, used.distances.size, (search used).2.generation)) = .ok (1, 3, 2) := by
    decide +kernel
  rw [hView] at hFacts
  obtain ⟨hFirst, hSize, hSecond⟩ := by simpa only [Except.map, Except.ok.injEq, Prod.mk.injEq] using hFacts
  exact ⟨view, hView, hFirst, hSize, hSecond,
    (usedScratch_invisible maxUint64 [.toy view hView] (.toy view hView)).1⟩

end TrustMap.Mapnode.Replay
