import TrustMap.Mapnode.Replay.Dominance

/-!
Checkpoints together with planning. A cheaper direct verification lowers the bound of the search, and
with it the search leaves out more blocks of the target chain. A path that was taken without
checkpoints is then only lost if it goes through one of these blocks.
-/

namespace TrustMap.Mapnode.Replay

open Checks ReplayTrustView

namespace ReplayCoordinator

section Runs

variable {lower : Lowercase} {c c' : ReplayCoordinator} {event : ReplayEvent}
  {events : List ReplayEvent} {decision : ReplayDecision} {decisions : List ReplayDecision}

/-! ## One graph -/

/-- Two coordinators plan on one graph. -/
structure SameGraph (c c' : ReplayCoordinator) : Prop where
  uses : c.setting.usesTrustMap = c'.setting.usesTrustMap
  profile : c.profile = c'.profile
  view : c.view = c'.view

theorem SameGraph.activateEnds (h : SameGraph c c') :
    c.activateEnds lower event = c'.activateEnds lower event := by
  rw [ReplayCoordinator.activateEnds, ReplayCoordinator.activateEnds, h.uses, h.view]

theorem SameGraph.addEvent (h : SameGraph c c') (view : ReplayTrustView) :
    c.addEvent lower event view = c'.addEvent lower event view := by
  rw [ReplayCoordinator.addEvent, ReplayCoordinator.addEvent, h.uses]

theorem SameGraph.search (h : SameGraph c c') (view : ReplayTrustView) (directCost : UInt64) :
    c.search lower event view directCost = c'.search lower event view directCost := by
  rw [ReplayCoordinator.search, ReplayCoordinator.search, h.profile]

/-- The graph after an event does not depend on what was decided. -/
theorem SameGraph.process {next next' : ReplayCoordinator} {decision' : ReplayDecision}
    (h : SameGraph c c') (hProcess : c.process lower event = .ok (decision, next))
    (hProcess' : c'.process lower event = .ok (decision', next')) : SameGraph next next' := by
  obtain ⟨view, _, _, final, hView, -, -, hFinal, -, rfl⟩ := process_eq_ok.mp hProcess
  obtain ⟨view', _, _, final', hView', -, -, hFinal', -, rfl⟩ := process_eq_ok.mp hProcess'
  rw [← h.activateEnds, hView] at hView'
  obtain rfl := Except.ok.inj hView'
  rw [← h.addEvent, hFinal] at hFinal'
  obtain rfl := Except.ok.inj hFinal'
  exact ⟨h.uses, h.profile, rfl⟩

theorem SameGraph.processAll {next next' : ReplayCoordinator} {decisions' : List ReplayDecision}
    (h : SameGraph c c') (hProcess : processAll lower c events = .ok (decisions, next))
    (hProcess' : processAll lower c' events = .ok (decisions', next')) : SameGraph next next' := by
  induction events generalizing c c' decisions decisions' with
  | nil =>
      cases hProcess
      cases hProcess'
      exact h
  | cons event events ih =>
      obtain ⟨_, _, _, hHead, hTail, rfl⟩ := processAll_cons.mp hProcess
      obtain ⟨_, _, _, hHead', hTail', rfl⟩ := processAll_cons.mp hProcess'
      exact ih (h.process hHead hHead') hTail hTail'

/-- Two runs over the same events that both plan have the same graph. -/
theorem processFresh_sameGraph {setting setting' : Setting} {initHeights : List (String × UInt64)}
    {profile : CostProfile} {policy policy' : CheckpointPolicy} {decisions' : List ReplayDecision}
    (hUses : setting.usesTrustMap = setting'.usesTrustMap)
    (hRun : processFresh lower setting initHeights profile policy events = .ok (decisions, c))
    (hRun' : processFresh lower setting' initHeights profile policy' events = .ok (decisions', c')) :
    SameGraph c c' := by
  obtain ⟨fresh, hNew, hProcess⟩ := bind_eq_ok.mp hRun
  obtain ⟨fresh', hNew', hProcess'⟩ := bind_eq_ok.mp hRun'
  simp only [new, bind_eq_ok, pure_eq_ok] at hNew hNew'
  obtain ⟨view, hView, rfl⟩ := hNew
  obtain ⟨view', hView', rfl⟩ := hNew'
  obtain rfl := Except.ok.inj (hView.symm.trans hView')
  have hFresh : SameGraph ⟨setting, profile, policy, view, .new lower initHeights⟩
      ⟨setting', profile, policy', view, .new lower initHeights⟩ := ⟨hUses, rfl, rfl⟩
  exact hFresh.processAll hProcess hProcess'

/-! ## A lower bound -/

/-- A path below a lower bound is found there as well, at the same cost or a lower one, unless it
goes through a block that the lower bound leaves out. -/
theorem search_lower {view : ReplayTrustView} (hView : view.Invariant lower c.profile)
    (hStart : event.destination.key lower ∈ view.nodeKeys)
    (hGoal : event.source.key lower ∈ view.nodeKeys) {high low : UInt64} {path : ReplayPath}
    (hSearch : c.search lower event view high = .ok (some path))
    (hLow : path.cost.toNat ≤ (low - c.profile.trustRootUpdateCost).toNat)
    (hAdmissible : ∀ node ∈ path.nodes, Admissible lower c.profile
      (low - c.profile.trustRootUpdateCost) (event.source.key lower).chain
      (event.source.key lower).height node) {found : Option ReplayPath}
    (hFound : c.search lower event view low = .ok found) :
    ∃ path', found = some path' ∧ path'.cost ≤ path.cost := by
  by_cases hSame : event.destination.key lower = event.source.key lower
  · rw [search_self hSame] at hSearch hFound
    obtain rfl := Option.some.inj (Except.ok.inj hSearch)
    exact ⟨_, (Except.ok.inj hFound).symm, le_refl _⟩
  · obtain ⟨hIsPath, hCost⟩ := search_isPath hView hStart hGoal hSearch
    have hAllowed : view.Allowed (searchBounds lower c.profile (low - c.profile.trustRootUpdateCost)
        (event.source.key lower).chain (event.source.key lower).height)
        (event.destination.key lower) (event.source.key lower) path.nodes path.segments :=
      ⟨hIsPath, fun node hMem => nodeOK_iff_admissible.mpr (hAdmissible node hMem), hCost ▸ hLow⟩
    obtain ⟨path', hResult, hShortest⟩ | ⟨-, hNone⟩ | ⟨hResult, -⟩ :=
      shortestPath_cases hStart hGoal hView hSame hFound rfl
    · refine ⟨path', Except.ok.inj hResult, ?_⟩
      rw [UInt64.le_iff_toNat_le, hCost]
      exact hShortest.least _ _ hAllowed
    · exact (hNone _ _ hAllowed).elim
    · cases hResult

/-- What a planning coordinator decides about an event: the graph, the estimate and the result. -/
theorem process_planned (h : c.Invariant lower) (hUses : c.setting.usesTrustMap = true)
    (hProcess : c.process lower event = .ok (decision, c')) :
    ∃ view, c.activateEnds lower event = .ok view ∧ view.Invariant lower c.profile ∧
      event.destination.key lower ∈ view.nodeKeys ∧ event.source.key lower ∈ view.nodeKeys ∧
      ((decision.decision = .direct ∧ decision.chosenCost = decision.directCost ∧
          (decision.directCost ≤ c.profile.trustRootUpdateCost ∨
            c.search lower event view decision.directCost = .ok none)) ∨
        (c.profile.trustRootUpdateCost < decision.directCost ∧
          c.search lower event view decision.directCost = .ok (some decision.path) ∧
          ∃ total : UInt64, decision.path.cost.toNat + c.profile.trustRootUpdateCost.toNat =
              total.toNat ∧
            decision.decision = (if total < decision.directCost then .trustMap else .direct) ∧
            decision.chosenCost =
              if total < decision.directCost then total else decision.directCost)) := by
  obtain ⟨view, estimate, result, final, hView, -, hPlan, -, rfl, -⟩ := process_eq_ok.mp hProcess
  obtain ⟨hInvariant, -, hEnds⟩ := h.activateEnds hView
  obtain ⟨nodes, edges, cross, hCount⟩ := @countGraph_eq c final
    { result with baselineAfter := c.nextBaseline lower event }
  rw [hCount]
  refine ⟨view, hView, hInvariant, (hEnds hUses).1, (hEnds hUses).2, ?_⟩
  obtain ⟨rfl, hFalse | hDirect⟩ | ⟨-, hCost, path, total, hSearch, hTotal, rfl⟩ :=
    planEvent_eq_ok.mp hPlan
  · rw [hUses] at hFalse
    cases hFalse
  · exact .inl ⟨rfl, rfl, hDirect⟩
  · exact .inr ⟨hCost, hSearch, total, hTotal, rfl, rfl⟩

/-- Of two coordinators on one graph, the one with the lower direct cost chooses no higher cost,
unless the path of the other is lost. -/
theorem process_chosen_le {next next' : ReplayCoordinator} {decision' : ReplayDecision}
    (h : c.Invariant lower) (h' : c'.Invariant lower) (hSame : SameGraph c c')
    (hUses : c.setting.usesTrustMap = true)
    (hProcess : c.process lower event = .ok (decision, next))
    (hProcess' : c'.process lower event = .ok (decision', next'))
    (hDirect : decision'.directCost ≤ decision.directCost) :
    decision'.chosenCost ≤ decision.chosenCost ∨
      (decision.decision = .trustMap ∧ decision.chosenCost < decision'.directCost ∧
        ∃ node ∈ decision.path.nodes, ¬ Admissible lower c.profile
          (decision'.directCost - c.profile.trustRootUpdateCost) (event.source.key lower).chain
          (event.source.key lower).height node) := by
  obtain ⟨view, hView, hInvariant, hStart, hGoal, hCases⟩ := process_planned h hUses hProcess
  obtain ⟨view', hView', -, -, -, hCases'⟩ := process_planned h' (hSame.uses ▸ hUses) hProcess'
  rw [← hSame.activateEnds, hView] at hView'
  obtain rfl := Except.ok.inj hView'
  rw [← hSame.profile, ← hSame.search] at hCases'
  have hLe' := (process_cost hProcess').2.2.1
  rcases le_or_gt decision'.directCost decision.chosenCost with hHigh | hBelow
  · exact .inl (hLe'.trans hHigh)
  · -- The other coordinator has taken a path whose total is below the lower direct cost.
    obtain ⟨-, hChosen, -⟩ | ⟨-, hSearch, total, hTotal, hDecision, hChosen⟩ := hCases
    · rw [hChosen] at hBelow
      exact absurd hDirect (not_le.mpr hBelow)
    · have hTaken : total < decision.directCost := by
        by_contra hNot
        rw [if_neg hNot] at hChosen
        rw [hChosen] at hBelow
        exact absurd hDirect (not_le.mpr hBelow)
      rw [if_pos hTaken] at hDecision hChosen
      rw [hChosen] at hBelow ⊢
      by_cases hAdmissible : ∀ node ∈ decision.path.nodes, Admissible lower c.profile
          (decision'.directCost - c.profile.trustRootUpdateCost) (event.source.key lower).chain
          (event.source.key lower).height node
      · left
        have hBelowNat := UInt64.lt_iff_toNat_lt.mp hBelow
        have hUpdate : c.profile.trustRootUpdateCost < decision'.directCost := by
          rw [UInt64.lt_iff_toNat_lt]
          omega
        have hLow : decision.path.cost.toNat ≤
            (decision'.directCost - c.profile.trustRootUpdateCost).toNat := by
          rw [UInt64.toNat_sub_of_le _ _ (le_of_lt hUpdate)]
          omega
        obtain ⟨-, hChosen', hNone | hNone⟩ | ⟨-, hSearch', total', hTotal', -, hChosen'⟩ := hCases'
        · exact absurd hNone (not_le.mpr hUpdate)
        · obtain ⟨path', hSome, -⟩ :=
            search_lower hInvariant hStart hGoal hSearch hLow hAdmissible hNone
          cases hSome
        · obtain ⟨path', hSome, hLess⟩ :=
            search_lower hInvariant hStart hGoal hSearch hLow hAdmissible hSearch'
          obtain rfl := Option.some.inj hSome
          have hTotalLe : total' ≤ total := by
            have := UInt64.le_iff_toNat_le.mp hLess
            rw [UInt64.le_iff_toNat_le]
            omega
          rw [hChosen', if_pos (lt_of_le_of_lt hTotalLe hBelow)]
          exact hTotalLe
      · push Not at hAdmissible
        obtain ⟨node, hMem, hPruned⟩ := hAdmissible
        exact .inr ⟨hDecision, hBelow, node, hMem, hPruned⟩

end Runs

namespace Toy

/-- The initial heights of the five chains of the next run. -/
def prunedHeights : List (String × UInt64) := [("d", 1), ("t", 10), ("x", 5), ("y", 7), ("z", 1)]

/-- Every block is on the way of the last event, which could reach block 100 of chain t by way of its
block 30. -/
def prunedEvents : List ReplayEvent :=
  [⟨"e0", 1, 0, ⟨"t", 10, 0⟩, ⟨"z", 1, 0⟩, 0, [], 1, 0⟩,
    ⟨"e1", 2, 1, ⟨"t", 100, 90⟩, ⟨"x", 5, 0⟩, 1, [], 1, 0⟩,
    ⟨"e2", 3, 2, ⟨"x", 5, 0⟩, ⟨"t", 30, 20⟩, 2, [], 1, 0⟩,
    ⟨"e3", 4, 3, ⟨"t", 30, 20⟩, ⟨"y", 7, 0⟩, 3, [], 1, 0⟩,
    ⟨"e4", 5, 4, ⟨"y", 7, 0⟩, ⟨"d", 1, 0⟩, 4, [], 1, 0⟩,
    ⟨"e5", 6, 5, ⟨"t", 100, 90⟩, ⟨"d", 1, 0⟩, 5, [], 1, 0⟩]

/-- A checkpoint of chain t at every 60th block. -/
def prunedPolicy : CheckpointPolicy := ⟨⟨[("t", 60)], by decide⟩⟩

/-- The run over these events. -/
def prunedRun (setting : Setting) : Except ReplayError (List ReplayDecision × ReplayCoordinator) :=
  processFresh .plain setting prunedHeights ⟨"toy", 10, 1, 2⟩ prunedPolicy prunedEvents

end Toy

/-- The last event costs 6 without the checkpoints and 400 with them. -/
theorem checkpoint_raises_chosen_cost :
    (Toy.prunedRun .b2).toOption.map (fun run => run.1.map (·.chosenCost)) =
        some [0, 900, 0, 200, 0, 6] ∧
      (Toy.prunedRun .b3).toOption.map (fun run => run.1.map (·.chosenCost)) =
        some [0, 400, 0, 200, 0, 400] := by
  decide +kernel

/-- With the checkpoints the chosen cost of an event is not higher than without them, unless the path
that is taken without them goes through a block of the source chain that the lower bound of the
search leaves out. -/
theorem checkpoint_le_unless_pruned {lower : Lowercase} {initHeights : List (String × UInt64)}
    {profile : CostProfile} {policy policy₂ : CheckpointPolicy} {events : List ReplayEvent}
    {decisions₂ decisions₃ : List ReplayDecision} {c₂ c₃ : ReplayCoordinator}
    (hRun₂ : processFresh lower .b2 initHeights profile policy₂ events = .ok (decisions₂, c₂))
    (hRun₃ : processFresh lower .b3 initHeights profile policy events = .ok (decisions₃, c₃))
    {i : ℕ} {event : ReplayEvent} (hEvent : events[i]? = some event) :
    ∃ d₂ d₃, decisions₂[i]? = some d₂ ∧ decisions₃[i]? = some d₃ ∧
      d₃.directCost ≤ d₂.directCost ∧
      (d₃.chosenCost ≤ d₂.chosenCost ∨
        (d₂.decision = .trustMap ∧ d₂.chosenCost < d₃.directCost ∧
          ∃ node ∈ d₂.path.nodes, node.chain = canonicalChain lower event.source.chain ∧
            (node.height.toNat : ℤ) < event.source.originalHeight.toNat -
              ((d₃.directCost - profile.trustRootUpdateCost).toNat /
                profile.directStepCost.toNat : ℕ))) := by
  obtain ⟨d₂, first₂, before₂, next₂, hDecision₂, hFirst₂, hInvariant₂, hSetting₂, hProfile₂, -, -,
    hProcess₂⟩ := processFresh_at hRun₂ hEvent
  obtain ⟨d₃, first₃, before₃, next₃, hDecision₃, hFirst₃, hInvariant₃, -, -, -, -, hProcess₃⟩ :=
    processFresh_at hRun₃ hEvent
  obtain ⟨_, hAt₂, hBase₂, ⟨e₂, hEstimate₂, hDirect₂⟩, -⟩ := processFresh_cost hRun₂ hEvent
  obtain ⟨_, hAt₃, hBase₃, ⟨e₃, hEstimate₃, hDirect₃⟩, -⟩ := processFresh_cost hRun₃ hEvent
  obtain rfl := Option.some.inj (hDecision₂.symm.trans hAt₂)
  obtain rfl := Option.some.inj (hDecision₃.symm.trans hAt₃)
  have hDirect : d₃.directCost ≤ d₂.directCost := by
    rw [hBase₃.unique hBase₂] at hEstimate₃
    rw [hDirect₂, hDirect₃]
    exact estimateFrom_checkpoint_le hEstimate₂ hEstimate₃
  have hSame := processFresh_sameGraph
    (show Setting.usesTrustMap .b2 = Setting.usesTrustMap .b3 from rfl) hFirst₂ hFirst₃
  refine ⟨d₂, d₃, hDecision₂, hDecision₃, hDirect, ?_⟩
  rcases process_chosen_le hInvariant₂ hInvariant₃ hSame (by rw [hSetting₂]; rfl) hProcess₂ hProcess₃
    hDirect with hLe | ⟨hTaken, hLess, node, hMem, hPruned⟩
  · exact .inl hLe
  · rw [hProfile₂, Admissible, not_not] at hPruned
    obtain ⟨hChain, hHeight⟩ := hPruned
    rw [ReplayBlock.key, canonicalChain_canonicalChain] at hChain
    exact .inr ⟨hTaken, hLess, node, hMem, hChain, hHeight⟩

/-- The last event is dearer with the checkpoints, so a block of chain t on its path is left out. -/
theorem checkpoint_le_unless_pruned_toy :
    ∃ run₂ run₃ d₂ d₃, Toy.prunedRun .b2 = .ok run₂ ∧ Toy.prunedRun .b3 = .ok run₃ ∧
      run₂.1[5]? = some d₂ ∧ run₃.1[5]? = some d₃ ∧ d₃.directCost ≤ d₂.directCost ∧
      d₂.chosenCost = 6 ∧ d₃.chosenCost = 400 ∧ d₂.decision = .trustMap ∧
      ∃ node ∈ d₂.path.nodes, node.chain = "t" ∧ (node.height.toNat : ℤ) < 100 -
        ((d₃.directCost - 2).toNat / 10 : ℕ) := by
  obtain ⟨run₂, hRun₂⟩ := exists_ok_of_isOk (x := Toy.prunedRun .b2) (by decide +kernel)
  obtain ⟨run₃, hRun₃⟩ := exists_ok_of_isOk (x := Toy.prunedRun .b3) (by decide +kernel)
  have hCosts : ∀ setting ∈ [Setting.b2, .b3], (Toy.prunedRun setting).map (fun run =>
      run.1[5]?.map (·.chosenCost)) = .ok (some (if setting = .b2 then 6 else 400)) := by
    decide +kernel
  have hCost₂ := hCosts .b2 (by simp)
  have hCost₃ := hCosts .b3 (by simp)
  obtain ⟨d₂, d₃, hDecision₂, hDecision₃, hDirect, hPruned⟩ :=
    checkpoint_le_unless_pruned hRun₂ hRun₃ (show Toy.prunedEvents[5]? = some _ from rfl)
  rw [hRun₂, Except.map, hDecision₂] at hCost₂
  rw [hRun₃, Except.map, hDecision₃] at hCost₃
  have hSix : d₂.chosenCost = 6 := Option.some.inj (Except.ok.inj hCost₂)
  have hMore : d₃.chosenCost = 400 := Option.some.inj (Except.ok.inj hCost₃)
  rw [hSix, hMore] at hPruned
  obtain ⟨hTaken, -, hNode⟩ := hPruned.resolve_left (by decide)
  exact ⟨run₂, run₃, d₂, d₃, hRun₂, hRun₃, hDecision₂, hDecision₃, hDirect, hSix, hMore, hTaken,
    hNode⟩

end ReplayCoordinator

end TrustMap.Mapnode.Replay
