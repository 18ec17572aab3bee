import TrustMap.Mapnode.Replay.Coordinator

/-!
`Restore` repeats `Process`. What `Process` decided for an event is accepted by `Restore` in the same
state, before the edge of the event is added, and leads to the same coordinator.
-/

namespace TrustMap.Mapnode.Replay

open Checks ReplayTrustView

namespace ReplayCoordinator

variable {lower : Lowercase} {c c' : ReplayCoordinator} {event : ReplayEvent}
  {view final : ReplayTrustView} {estimate : ReplayDirectEstimate} {decision result : ReplayDecision}

/-! ## The states of a coordinator -/

/-- What holds of a coordinator between two events: its graph is well formed, and empty if the
setting does not use it. -/
structure Invariant (lower : Lowercase) (c : ReplayCoordinator) : Prop where
  view : c.view.Invariant lower c.profile
  unused : c.setting.usesTrustMap = false →
    c.view.nodeKeys = [] ∧ c.view.edgeCount = 0 ∧ c.view.crossEdgesAdded = 0

theorem new_invariant {setting : Setting} {initHeights : List (String × UInt64)}
    {profile : CostProfile} {policy : CheckpointPolicy}
    (hNew : new lower setting initHeights profile policy = .ok c) : c.Invariant lower := by
  simp only [new, bind_eq_ok, pure_eq_ok] at hNew
  obtain ⟨view, hView, rfl⟩ := hNew
  refine ⟨ReplayTrustView.new_invariant hView, fun _ => ?_⟩
  simp only [ReplayTrustView.new, check_bind_eq_ok, pure_eq_ok] at hView
  obtain ⟨-, rfl⟩ := hView
  exact ⟨rfl, rfl, rfl⟩

/-- Both ends of an event are active when it is planned. -/
theorem Invariant.activateEnds (h : c.Invariant lower)
    (hActivate : c.activateEnds lower event = .ok view) :
    view.Invariant lower c.profile ∧ (c.setting.usesTrustMap = false → view = c.view) ∧
      (c.setting.usesTrustMap = true → event.destination.key lower ∈ view.nodeKeys ∧
        event.source.key lower ∈ view.nodeKeys) := by
  unfold ReplayCoordinator.activateEnds at hActivate
  split at hActivate
  · rename_i hUses
    obtain ⟨first, hFirst, hSecond⟩ := bind_eq_ok.mp hActivate
    obtain ⟨hInvariant, hStart, -⟩ := h.view.activate hFirst
    obtain ⟨hInvariant, hGoal, hKept⟩ := hInvariant.activate hSecond
    exact ⟨hInvariant, fun hNot => by simp [hUses] at hNot, fun _ => ⟨hKept _ hStart, hGoal⟩⟩
  · rename_i hUses
    cases hActivate
    exact ⟨h.view, fun _ => rfl, fun hUses' => (hUses hUses').elim⟩

theorem addEvent_invariant (h : view.Invariant lower c.profile)
    (hAdd : c.addEvent lower event view = .ok final) :
    final.Invariant lower c.profile ∧ (c.setting.usesTrustMap = false → final = view) := by
  unfold ReplayCoordinator.addEvent at hAdd
  split at hAdd
  · rename_i hUses
    exact ⟨h.addVerifiedDependency hAdd, fun hNot => by simp [hUses] at hNot⟩
  · cases hAdd
    exact ⟨h, fun _ => rfl⟩

/-- The coordinator that an event leaves is one between two events again. -/
theorem Invariant.advanced (h : c.Invariant lower)
    (hActivate : c.activateEnds lower event = .ok view)
    (hAdd : c.addEvent lower event view = .ok final) :
    (c.advanced lower event final).Invariant lower := by
  obtain ⟨hView, hSame, -⟩ := h.activateEnds hActivate
  obtain ⟨hFinal, hSame'⟩ := addEvent_invariant hView hAdd
  refine ⟨hFinal, fun hUses => ?_⟩
  have hKept : final = c.view := (hSame' hUses).trans (hSame hUses)
  show final.nodeKeys = [] ∧ final.edgeCount = 0 ∧ final.crossEdgesAdded = 0
  rw [hKept]
  exact h.unused hUses

theorem Invariant.process (h : c.Invariant lower)
    (hProcess : c.process lower event = .ok (decision, c')) : c'.Invariant lower := by
  obtain ⟨view, estimate, result, final, hView, -, -, hFinal, -, rfl⟩ := process_eq_ok.mp hProcess
  exact h.advanced hView hFinal

/-! ## The path of a decision -/

/-- A block is found from itself. -/
theorem search_self (hSame : event.destination.key lower = event.source.key lower)
    (directCost : UInt64) : c.search lower event view directCost =
      .ok (some ⟨0, [event.destination.key lower], []⟩) := by
  rw [search, shortestPath, shortestPathIn, canonicalKey_key, canonicalKey_key, if_pos hSame]
  rfl

/-- The path that was found is a path of the view, and its cost is exact. -/
theorem search_isPath (hView : view.Invariant lower c.profile)
    (hStart : event.destination.key lower ∈ view.nodeKeys)
    (hGoal : event.source.key lower ∈ view.nodeKeys) {directCost : UInt64} {path : ReplayPath}
    (hSearch : c.search lower event view directCost = .ok (some path)) :
    view.IsPath (event.destination.key lower) (event.source.key lower) path.nodes path.segments ∧
      path.cost.toNat = weight path.segments := by
  by_cases hSame : event.destination.key lower = event.source.key lower
  · rw [search_self hSame] at hSearch
    obtain rfl := Option.some.inj (Except.ok.inj hSearch)
    exact ⟨⟨rfl, congrArg some hSame, rfl⟩, by simp [weight]⟩
  · obtain ⟨path', hResult, hShortest⟩ | ⟨hResult, -⟩ | ⟨hResult, -⟩ :=
      shortestPath_cases hStart hGoal hView hSame hSearch rfl
    · obtain rfl := Option.some.inj (Except.ok.inj hResult)
      exact ⟨hShortest.allowed.isPath, hShortest.cost⟩
    · cases hResult
    · cases hResult

variable {nodes : List ReplayBlockKey} {segments : List ReplayPathSegment}

theorem length_pathSegments {edge : ReplayBlockKey → ReplayBlockKey → Option ReplayEdge}
    (hSegments : pathSegments edge nodes = some segments) (hNodes : nodes ≠ []) :
    segments.length + 1 = nodes.length := by
  induction nodes generalizing segments with
  | nil => exact (hNodes rfl).elim
  | cons node nodes ih =>
      cases nodes with
      | nil =>
          cases hSegments
          rfl
      | cons next nodes =>
          simp only [pathSegments, Option.bind_eq_bind, Option.bind_eq_some_iff,
            Option.pure_def, Option.some.injEq] at hSegments
          obtain ⟨_, -, rest, hRest, rfl⟩ := hSegments
          rw [List.length_cons, List.length_cons, ih hRest (List.cons_ne_nil next nodes)]

theorem validateSegments_cons {node next : ReplayBlockKey} {segment : ReplayPathSegment}
    {cost after : UInt64} (hAdd : checkedAdd cost segment.weight = .ok after) :
    validateSegments lower view (node :: next :: nodes) (segment :: segments) cost = (do
      require (segment.fromKey = node ∧ segment.toKey = next) (.decisionMismatch "path segment")
      require (view.edge (canonicalKey lower segment.fromKey) (canonicalKey lower segment.toKey) =
        some ⟨segment.kind, segment.weight⟩) (.decisionMismatch "path edge")
      validateSegments lower view (next :: nodes) segments after) := by
  rw [validateSegments, hAdd]
  rfl

/-- The check of the segments passes for a path of the view, with its cost. -/
theorem validateSegments_eq_ok (hView : view.Invariant lower c.profile) {cost total : UInt64}
    (hSegments : pathSegments view.edge nodes = some segments)
    (hTotal : cost.toNat + weight segments = total.toNat) :
    validateSegments lower view nodes segments cost = .ok total := by
  have hEnd : ∀ {cost : UInt64} {segments : List ReplayPathSegment}, some [] = some segments →
      cost.toNat + weight segments = total.toNat → cost = total ∧ segments = [] := by
    intro cost segments hEmpty hCost
    obtain rfl := Option.some.inj hEmpty
    rw [weight, List.map_nil, List.sum_nil, Nat.add_zero] at hCost
    exact ⟨UInt64.toNat_inj.mp hCost, rfl⟩
  induction nodes generalizing segments cost with
  | nil =>
      obtain ⟨rfl, rfl⟩ := hEnd hSegments hTotal
      rfl
  | cons node nodes ih =>
      cases nodes with
      | nil =>
          obtain ⟨rfl, rfl⟩ := hEnd hSegments hTotal
          rfl
      | cons next nodes =>
          simp only [pathSegments, Option.bind_eq_bind, Option.bind_eq_some_iff,
            Option.pure_def, Option.some.injEq] at hSegments
          obtain ⟨edge, hEdge, rest, hRest, rfl⟩ := hSegments
          have hRow := edge_eq_some.mp hEdge
          obtain ⟨hNode, hNext⟩ := hView.joined _ hRow
          have hSum : cost.toNat + (edge.weight.toNat + weight rest) = total.toNat := by
            simpa [weight] using hTotal
          have hFits : cost.toNat + edge.weight.toNat < 2 ^ 64 := by
            have := total.toNat_lt
            omega
          have hCost : (cost + edge.weight).toNat = cost.toNat + edge.weight.toNat := by
            rw [UInt64.toNat_add, Nat.mod_eq_of_lt hFits]
          have hAdd : checkedAdd cost edge.weight = .ok (cost + edge.weight) :=
            checkedAdd_eq_ok.mpr hCost.symm
          rw [validateSegments_cons hAdd, check_bind_eq_ok, require_eq_ok, check_bind_eq_ok,
            require_eq_ok, hView.canonical _ hNode, hView.canonical _ hNext]
          exact ⟨⟨rfl, rfl⟩, hEdge, ih hRest (by omega)⟩

/-! ## One event -/

theorem estimateFrom_baselineBefore {profile : CostProfile} {period : Option UInt64}
    {baseline height : UInt64} (hEstimate : estimateFrom profile period baseline height = .ok estimate) :
    estimate.baselineBefore = baseline := by
  have hStart : ∀ period, (checkpointStart baseline height period).baselineBefore = baseline := by
    intro period
    unfold checkpointStart
    split
    · rfl
    · dsimp only
      split <;> rfl
  unfold estimateFrom at hEstimate
  split at hEstimate
  · obtain ⟨cost, -, hEstimate⟩ := bind_eq_ok.mp hEstimate
    rw [← pure_eq_ok.mp hEstimate]
    exact hStart period
  · obtain ⟨cost, -, hEstimate⟩ := bind_eq_ok.mp hEstimate
    rw [← pure_eq_ok.mp hEstimate]
    exact hStart none

/-- The check of a path accepts the one the search has found. -/
theorem validatePath_withPath (hView : view.Invariant lower c.profile)
    (hStart : event.destination.key lower ∈ view.nodeKeys)
    (hGoal : event.source.key lower ∈ view.nodeKeys) {directCost : UInt64} {path : ReplayPath}
    {total : UInt64} (hSearch : c.search lower event view directCost = .ok (some path))
    (hTotal : path.cost.toNat + c.profile.trustRootUpdateCost.toNat = total.toNat)
    (hPath : decision.path = path) (hPathCost : decision.pathCost = path.cost)
    (hTotalCost : decision.trustMapTotalCost = total)
    (hDecision : decision.decision =
      if total < decision.directCost then .trustMap else .direct)
    (hChosen : decision.chosenCost =
      if total < decision.directCost then total else decision.directCost) :
    c.validatePath lower event decision view = .ok () := by
  obtain ⟨hIsPath, hCost⟩ := search_isPath hView hStart hGoal hSearch
  have hSegments : validateSegments lower view path.nodes path.segments 0 = .ok path.cost :=
    validateSegments_eq_ok hView hIsPath.segments (by rw [hCost, UInt64.toNat_zero, Nat.zero_add])
  have hAdd := checkedAdd_eq_ok.mpr hTotal
  have hLength := length_pathSegments hIsPath.segments (List.ne_nil_of_mem
    (List.mem_of_mem_head? hIsPath.head))
  rw [validatePath, check_bind_eq_ok, require_eq_ok, hPath, hSegments, ok_bind, check_bind_eq_ok,
    require_eq_ok, hAdd, mapError_ok, ok_bind, check_bind_eq_ok, require_eq_ok]
  refine ⟨⟨hLength, hIsPath.head, hIsPath.last⟩, ⟨rfl, hPathCost⟩, hTotalCost, ?_⟩
  by_cases hLess : total < decision.directCost
  · rw [if_pos hLess] at hDecision hChosen
    rw [if_pos hDecision, require_eq_ok]
    exact ⟨hLess, hChosen⟩
  · rw [if_neg hLess] at hDecision hChosen
    rw [if_neg (by rw [hDecision]; simp), require_eq_ok]
    exact ⟨hLess, hChosen⟩

/-- Only the counters are filled in after the planning. -/
theorem countGraph_eq : ∃ nodes edges cross, c.countGraph final result =
    { result with graphNodes := nodes, graphEdges := edges, crossEdgesAdded := cross } := by
  unfold countGraph
  split
  · exact ⟨_, _, _, rfl⟩
  · exact ⟨result.graphNodes, result.graphEdges, result.crossEdgesAdded, rfl⟩

/-- The planning keeps the identity of the event and the baseline, and leaves the counters empty. -/
theorem planEvent_fields (hPlan : c.planEvent lower event view estimate = .ok result) :
    result.eventID = event.id ∧ result.sequence = event.sequence ∧ result.setting = c.setting ∧
      result.baselineBefore = estimate.baselineBefore ∧ result.graphNodes = 0 ∧
      result.graphEdges = 0 ∧ result.crossEdgesAdded = 0 := by
  obtain ⟨rfl, -⟩ | ⟨-, -, path, total, -, -, rfl⟩ := planEvent_eq_ok.mp hPlan
  · exact ⟨rfl, rfl, rfl, rfl, rfl, rfl, rfl⟩
  · exact ⟨rfl, rfl, rfl, rfl, rfl, rfl, rfl⟩

/-- What the planning of an event has decided passes the checks of `Restore`. -/
theorem validateRestoredDecision_eq_ok (hView : view.Invariant lower c.profile)
    (hEnds : c.setting.usesTrustMap = true → event.destination.key lower ∈ view.nodeKeys ∧
      event.source.key lower ∈ view.nodeKeys)
    (hBefore : estimate.baselineBefore = c.baseline lower event)
    (hPlan : c.planEvent lower event view estimate = .ok result) :
    c.validateRestoredDecision lower event
      (c.countGraph final { result with baselineAfter := c.nextBaseline lower event }) estimate view =
        .ok () := by
  obtain ⟨nodes, edges, cross, hCount⟩ := @countGraph_eq c final
    { result with baselineAfter := c.nextBaseline lower event }
  have hAfter : c.nextBaseline lower event =
      if estimate.baselineBefore < event.source.originalHeight then event.source.originalHeight
      else estimate.baselineBefore := by rw [hBefore, nextBaseline]
  rw [hCount, validateRestoredDecision, check_bind_eq_ok, require_eq_ok, check_bind_eq_ok,
    require_eq_ok, check_bind_eq_ok, require_eq_ok]
  obtain ⟨rfl, -⟩ | ⟨hUses, -, path, total, hSearch, hTotal, rfl⟩ := planEvent_eq_ok.mp hPlan
  · have hNoPath : ({ c.directDecision event estimate with
        baselineAfter := c.nextBaseline lower event, graphNodes := nodes, graphEdges := edges,
        crossEdgesAdded := cross } : ReplayDecision).NoPath := ⟨rfl, rfl, rfl, rfl, rfl, rfl, rfl⟩
    refine ⟨rfl, ⟨rfl, rfl, rfl, rfl, rfl, rfl, rfl, rfl⟩, hAfter, ?_⟩
    split
    · exact require_eq_ok.mpr hNoPath
    · rw [check_bind_eq_ok, require_eq_ok]
      refine ⟨.inl rfl, ?_⟩
      split
      · exact require_eq_ok.mpr hNoPath
      · rename_i hFound
        exact (hFound rfl).elim
  · refine ⟨rfl, ⟨rfl, rfl, rfl, rfl, rfl, rfl, rfl, rfl⟩, hAfter, ?_⟩
    obtain ⟨hStart, hGoal⟩ := hEnds hUses
    rw [if_neg (by simp [withPath, directDecision, hUses]), check_bind_eq_ok, require_eq_ok,
      if_neg (by simp [withPath])]
    refine ⟨?_, validatePath_withPath hView hStart hGoal hSearch hTotal rfl rfl rfl rfl rfl⟩
    show (if total < estimate.cost then ReplayDecisionKind.trustMap else .direct) = .direct ∨
      (if total < estimate.cost then ReplayDecisionKind.trustMap else .direct) = .trustMap
    split
    · exact .inr rfl
    · exact .inl rfl

/-- `Restore` accepts what `Process` has decided, and does the same. -/
theorem restore_of_process (h : c.Invariant lower)
    (hProcess : c.process lower event = .ok (decision, c')) :
    c.restore lower event decision = .ok c' := by
  obtain ⟨view, estimate, result, final, hView, hEstimate, hPlan, hFinal, rfl, rfl⟩ :=
    process_eq_ok.mp hProcess
  obtain ⟨hInvariant, hSame, hEnds⟩ := h.activateEnds hView
  obtain ⟨-, hSame'⟩ := addEvent_invariant hInvariant hFinal
  have hBefore := estimateFrom_baselineBefore hEstimate
  have hValid := @validateRestoredDecision_eq_ok lower c event view final estimate result
    hInvariant hEnds hBefore hPlan
  have hKept : (c.estimate lower event (c.baselines.store lower event.destination.chain
      event.source.chain (c.baseline lower event))) = .ok (estimate,
        c.baselines.store lower event.destination.chain event.source.chain
          (c.baseline lower event)) := by
    rw [estimate_eq, ReplayBaselines.value_store, ReplayBaselines.store_store, hEstimate]
    rfl
  rw [restore, check_bind_eq_ok, require_eq_ok, hView, ok_bind, ReplayBaselines.get_eq, ← baseline,
    check_bind_eq_ok, require_eq_ok, hKept, ok_bind, check_bind_eq_ok, hValid, advance_eq,
    check_bind_eq_ok, require_eq_ok, hFinal, ok_bind, check_bind_eq_ok, require_eq_ok]
  obtain ⟨hID, hSequence, hSetting, hStored, hCounters⟩ := planEvent_fields hPlan
  refine ⟨?_, ?_, rfl, ?_, ?_, rfl⟩
  · rw [countGraph]
    split <;> exact ⟨hID, hSequence, hSetting⟩
  · rw [countGraph]
    split <;> exact (hStored.trans hBefore).symm
  · rw [countGraph]
    split <;> rfl
  · cases hUses : c.setting.usesTrustMap with
    | true =>
        rw [countGraph, if_pos hUses]
        exact ⟨rfl, rfl, rfl⟩
    | false =>
        obtain ⟨hNodes, hEdges, hCross⟩ := h.unused hUses
        obtain ⟨hZeroNodes, hZeroEdges, hZeroCross⟩ := hCounters
        have hFinal : final = c.view := (hSame' hUses).trans (hSame hUses)
        rw [countGraph, if_neg (by simp [hUses]), hFinal, ReplayTrustView.nodeCount, hNodes, hEdges,
          hCross]
        exact ⟨hZeroNodes.symm, hZeroEdges.symm, hZeroCross.symm⟩

/-! ## Sequences of events -/

variable {decisions : List ReplayDecision}

theorem processAll_cons {events : List ReplayEvent} :
    processAll lower c (event :: events) = .ok (decisions, c') ↔
      ∃ decision next rest, c.process lower event = .ok (decision, next) ∧
        processAll lower next events = .ok (rest, c') ∧ decisions = decision :: rest := by
  simp only [processAll, bind_eq_ok, pure_eq_ok, Prod.exists, Prod.mk.injEq]
  constructor
  · rintro ⟨decision, next, hHead, rest, c'', hTail, rfl, rfl⟩
    exact ⟨decision, next, rest, hHead, hTail, rfl⟩
  · rintro ⟨decision, next, rest, hHead, hTail, rfl⟩
    exact ⟨decision, next, hHead, rest, c', hTail, rfl, rfl⟩

/-- A run can be cut after any number of events. -/
theorem processAll_append {before after : List ReplayEvent} :
    processAll lower c (before ++ after) = .ok (decisions, c') ↔
      ∃ first middle rest, processAll lower c before = .ok (first, middle) ∧
        processAll lower middle after = .ok (rest, c') ∧ decisions = first ++ rest := by
  induction before generalizing c decisions with
  | nil =>
      constructor
      · intro hAfter
        exact ⟨[], c, decisions, rfl, hAfter, rfl⟩
      · rintro ⟨first, middle, rest, hBefore, hAfter, rfl⟩
        cases hBefore
        exact hAfter
  | cons event before ih =>
      rw [List.cons_append, processAll_cons]
      simp only [processAll_cons, ih]
      constructor
      · rintro ⟨decision, next, _, hHead, ⟨first, middle, rest, hFirst, hRest, rfl⟩, rfl⟩
        exact ⟨decision :: first, middle, rest, ⟨decision, next, first, hHead, hFirst, rfl⟩, hRest,
          rfl⟩
      · rintro ⟨_, middle, rest, ⟨decision, next, first, hHead, hFirst, rfl⟩, hRest, rfl⟩
        exact ⟨decision, next, first ++ rest, hHead, ⟨first, middle, rest, hFirst, hRest, rfl⟩, rfl⟩

theorem processAll_length {events : List ReplayEvent}
    (hProcess : processAll lower c events = .ok (decisions, c')) :
    decisions.length = events.length := by
  induction events generalizing c decisions with
  | nil =>
      cases hProcess
      rfl
  | cons event events ih =>
      obtain ⟨decision, next, rest, -, hTail, rfl⟩ := processAll_cons.mp hProcess
      rw [List.length_cons, List.length_cons, ih hTail]

theorem Invariant.processAll (h : c.Invariant lower) {events : List ReplayEvent}
    (hProcess : processAll lower c events = .ok (decisions, c')) : c'.Invariant lower := by
  induction events generalizing c decisions with
  | nil =>
      cases hProcess
      exact h
  | cons event events ih =>
      obtain ⟨decision, next, rest, hHead, hTail, rfl⟩ := processAll_cons.mp hProcess
      exact ih (h.process hHead) hTail

/-- Restoring all decisions of a run leads to the coordinator after the run. -/
theorem restoreAll_of_processAll (h : c.Invariant lower) {events : List ReplayEvent}
    (hProcess : processAll lower c events = .ok (decisions, c')) :
    restoreAll lower c (events.zip decisions) = .ok c' := by
  induction events generalizing c decisions with
  | nil =>
      cases hProcess
      rfl
  | cons event events ih =>
      obtain ⟨decision, next, rest, hHead, hTail, rfl⟩ := processAll_cons.mp hProcess
      rw [List.zip_cons_cons, restoreAll, restore_of_process h hHead, ok_bind]
      exact ih (h.process hHead) hTail

/-! ## A small run -/

namespace Toy

/-- Two transfers into chain a and one from it, of which the last can follow the first two. -/
def events : List ReplayEvent :=
  [⟨"e0", 0, 0, ⟨"b", 30, 0⟩, ⟨"a", 1, 0⟩, 0, [], 1, 0⟩,
    ⟨"e1", 1, 1, ⟨"c", 9, 0⟩, ⟨"b", 30, 0⟩, 0, [], 1, 0⟩,
    ⟨"e2", 2, 2, ⟨"c", 9, 0⟩, ⟨"a", 1, 0⟩, 0, [], 1, 0⟩]

/-- The run of a setting over the three events. -/
def run (setting : Setting) : Except ReplayError (List ReplayDecision × ReplayCoordinator) := do
  let c ← new .plain setting [("a", 1), ("b", 10), ("c", 1)] ⟨"toy", 10, 1, 2⟩ ⟨.empty⟩
  processAll .plain c events

/-- In the third event the path is taken. -/
theorem run_decisions : (run .b3).toOption.map (fun run => run.1.map (·.decision)) =
    some [.direct, .direct, .trustMap] := by
  decide +kernel

end Toy

/-- A fresh coordinator that restores the first decisions of a run is the one that has made them, and
it makes the remaining decisions. -/
theorem restore_replays_process {lower : Lowercase} {setting : Setting}
    {initHeights : List (String × UInt64)} {profile : CostProfile} {policy : CheckpointPolicy}
    {c c' : ReplayCoordinator} {events : List ReplayEvent}
    (hNew : new lower setting initHeights profile policy = .ok c)
    (hProcess : processAll lower c events = .ok (decisions, c')) (k : ℕ) :
    ∃ restored, processAll lower c (events.take k) = .ok (decisions.take k, restored) ∧
      restoreAll lower c ((events.zip decisions).take k) = .ok restored ∧
      processAll lower restored (events.drop k) = .ok (decisions.drop k, c') := by
  obtain ⟨first, restored, rest, hFirst, hRest, rfl⟩ :=
    processAll_append.mp ((List.take_append_drop k events).symm ▸ hProcess)
  have hLength := processAll_length hFirst
  have hLength' := processAll_length hRest
  rw [List.length_take] at hLength
  rw [List.length_drop] at hLength'
  have hCut : (first ++ rest).take k = first ∧ (first ++ rest).drop k = rest := by
    rcases Nat.le_total k events.length with hShort | hLong
    · have hFirstLength : first.length = k := by omega
      exact ⟨List.take_left' hFirstLength, List.drop_left' hFirstLength⟩
    · obtain rfl := List.eq_nil_of_length_eq_zero (show rest.length = 0 by omega)
      rw [List.append_nil]
      exact ⟨List.take_of_length_le (by omega), List.drop_of_length_le (by omega)⟩
  obtain ⟨hTake, hDrop⟩ := hCut
  refine ⟨restored, hTake.symm ▸ hFirst, ?_, hDrop.symm ▸ hRest⟩
  rw [List.zip, List.take_zipWith, hTake]
  exact restoreAll_of_processAll (new_invariant hNew) hFirst

theorem restore_replays_process_toy :
    ∃ c c' decisions restored, new .plain .b3 [("a", 1), ("b", 10), ("c", 1)] ⟨"toy", 10, 1, 2⟩
        ⟨.empty⟩ = .ok c ∧ processAll .plain c Toy.events = .ok (decisions, c') ∧
      decisions.map (·.decision) = [.direct, .direct, .trustMap] ∧
      restoreAll .plain c ((Toy.events.zip decisions).take 2) = .ok restored ∧
      processAll .plain restored (Toy.events.drop 2) = .ok (decisions.drop 2, c') := by
  have hRun := Toy.run_decisions
  cases hResult : Toy.run .b3 with
  | error e =>
      rw [hResult] at hRun
      cases hRun
  | ok run =>
      obtain ⟨decisions, c'⟩ := run
      rw [hResult] at hRun
      obtain ⟨c, hNew, hProcess⟩ := bind_eq_ok.mp hResult
      obtain ⟨restored, -, hRestore, hRest⟩ := restore_replays_process hNew hProcess 2
      exact ⟨c, c', decisions, restored, hNew, hProcess, Option.some.inj hRun, hRestore, hRest⟩

end ReplayCoordinator

end TrustMap.Mapnode.Replay
