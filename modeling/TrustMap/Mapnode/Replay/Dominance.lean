import Mathlib.Order.Bounds.Basic
import TrustMap.Mapnode.Replay.Restore

/-!
The four settings side by side. Their baselines only depend on the events, so the direct costs agree
up to the checkpoints, and a setting that can do more never chooses a higher cost.
-/

namespace TrustMap.Mapnode.Replay

open Checks ReplayTrustView

/-! ## Direct estimates -/

section Estimate

variable {profile : CostProfile} {period : Option UInt64} {baseline height : UInt64}
  {estimate estimate' : ReplayDirectEstimate}

/-- A checkpoint lies between the baseline and the target, or it is not used. -/
theorem checkpointStart_directStart (hUp : baseline ≤ height) :
    baseline ≤ (checkpointStart baseline height period).directStart ∧
      (checkpointStart baseline height period).directStart ≤ height := by
  cases period with
  | none => exact ⟨le_refl _, hUp⟩
  | some period =>
      have hBelow : height / period * period ≤ height := by
        have hNat := Nat.div_mul_le_self height.toNat period.toNat
        rw [UInt64.le_iff_toNat_le, UInt64.toNat_mul, UInt64.toNat_div,
          Nat.mod_eq_of_lt (lt_of_le_of_lt hNat height.toNat_lt)]
        exact hNat
      simp only [checkpointStart]
      split
      · rename_i hLater
        exact ⟨le_of_lt hLater, hBelow⟩
      · exact ⟨le_refl _, hUp⟩

/-- What an estimate is: the number of blocks times the cost of a step. -/
theorem estimateFrom_eq_ok :
    estimateFrom profile period baseline height = .ok estimate →
      (baseline ≤ height ∧ estimate.cost.toNat =
        (height.toNat - (checkpointStart baseline height period).directStart.toNat) *
          profile.directStepCost.toNat) ∨
      (height < baseline ∧ estimate.cost.toNat =
        (baseline.toNat - height.toNat) * profile.pathStepCost.toNat) := by
  intro hEstimate
  unfold estimateFrom at hEstimate
  split at hEstimate
  · rename_i hUp
    obtain ⟨cost, hCost, hEstimate⟩ := bind_eq_ok.mp hEstimate
    obtain rfl := pure_eq_ok.mp hEstimate
    rw [checkedCost_eq_ok, UInt64.toNat_sub_of_le _ _ (checkpointStart_directStart hUp).2] at hCost
    exact .inl ⟨hUp, hCost.symm⟩
  · rename_i hDown
    obtain ⟨cost, hCost, hEstimate⟩ := bind_eq_ok.mp hEstimate
    obtain rfl := pure_eq_ok.mp hEstimate
    have hLess := not_le.mp hDown
    rw [checkedCost_eq_ok, UInt64.toNat_sub_of_le _ _ (le_of_lt hLess)] at hCost
    exact .inr ⟨hLess, hCost.symm⟩

/-- A checkpoint never makes the direct verification more expensive. -/
theorem estimateFrom_checkpoint_le (hPlain : estimateFrom profile none baseline height = .ok estimate)
    (hCheckpoint : estimateFrom profile period baseline height = .ok estimate') :
    estimate'.cost ≤ estimate.cost := by
  rw [UInt64.le_iff_toNat_le]
  obtain ⟨hUp, hCost⟩ | ⟨hDown, hCost⟩ := estimateFrom_eq_ok hPlain
  · obtain ⟨-, hCost'⟩ | ⟨hDown', -⟩ := estimateFrom_eq_ok hCheckpoint
    · have hLater := UInt64.le_iff_toNat_le.mp
        (@checkpointStart_directStart period baseline height hUp).1
      rw [hCost, hCost']
      exact Nat.mul_le_mul_right _ (Nat.sub_le_sub_left hLater _)
    · exact absurd hUp (not_le.mpr hDown')
  · obtain ⟨hUp', -⟩ | ⟨-, hCost'⟩ := estimateFrom_eq_ok hCheckpoint
    · exact absurd hUp' (not_le.mpr hDown)
    · rw [hCost, hCost']

end Estimate

/-- The saving that `legacyDecisionRow` writes. -/
def ReplayDecision.saving (decision : ReplayDecision) : UInt64 :=
  decision.directCost - decision.chosenCost

namespace ReplayCoordinator

section Runs

variable {lower : Lowercase} {c c' : ReplayCoordinator} {event : ReplayEvent}
  {events : List ReplayEvent} {decision : ReplayDecision} {decisions : List ReplayDecision}

/-! ## The coordinator before an event -/

/-- The decision at a position is made by the coordinator after the events before it. -/
theorem processAll_at (hProcess : processAll lower c events = .ok (decisions, c')) {i : ℕ}
    (hEvent : events[i]? = some event) (hDecision : decisions[i]? = some decision) :
    ∃ first middle next, processAll lower c (events.take i) = .ok (first, middle) ∧
      middle.process lower event = .ok (decision, next) := by
  induction events generalizing c decisions i with
  | nil => simp at hEvent
  | cons head tail ih =>
      obtain ⟨made, next, rest, hHead, hTail, rfl⟩ := processAll_cons.mp hProcess
      cases i with
      | zero =>
          obtain rfl := Option.some.inj hEvent
          obtain rfl := Option.some.inj hDecision
          exact ⟨[], c, next, rfl, hHead⟩
      | succ i =>
          obtain ⟨first, middle, next', hFirst, hMiddle⟩ := ih hTail hEvent hDecision
          exact ⟨made :: first, middle, next',
            processAll_cons.mpr ⟨made, next, first, hHead, hFirst, rfl⟩, hMiddle⟩

/-- Two coordinators of one run have the same setting, profile and policy. -/
structure SameRun (c c' : ReplayCoordinator) : Prop where
  setting : c'.setting = c.setting
  profile : c'.profile = c.profile
  policy : c'.policy = c.policy

theorem sameRun_processAll (hProcess : processAll lower c events = .ok (decisions, c')) :
    SameRun c c' := by
  induction events generalizing c decisions with
  | nil =>
      cases hProcess
      exact ⟨rfl, rfl, rfl⟩
  | cons event events ih =>
      obtain ⟨decision, next, rest, hHead, hTail, rfl⟩ := processAll_cons.mp hProcess
      obtain ⟨view, estimate, result, final, -, -, -, -, -, rfl⟩ := process_eq_ok.mp hHead
      exact ⟨(ih hTail).setting, (ih hTail).profile, (ih hTail).policy⟩

/-! ## Baselines -/

/-- The pair of chains whose baseline an event moves. -/
def pair (lower : Lowercase) (event : ReplayEvent) : String × String :=
  baselineKey lower event.destination.chain event.source.chain

theorem value_advanced {verifier target : String} {view : ReplayTrustView} :
    (c.advanced lower event view).baselines.value lower verifier target =
      if pair lower event = baselineKey lower verifier target then
        max (c.baselines.value lower verifier target) event.source.originalHeight
      else c.baselines.value lower verifier target := by
  show ReplayBaselines.value lower (c.baselines.store lower _ _ _) verifier target = _
  rw [ReplayBaselines.value_store_eq]
  by_cases hPair : pair lower event = baselineKey lower verifier target
  · rw [if_pos hPair, if_pos (show baselineKey lower _ _ = _ from hPair), nextBaseline, baseline,
      ReplayBaselines.value_congr hPair]
    split
    · rename_i hLess
      exact (max_eq_right (le_of_lt hLess)).symm
    · rename_i hLess
      exact (max_eq_left (not_lt.mp hLess)).symm
  · rw [if_neg hPair, if_neg (show ¬ baselineKey lower _ _ = _ from hPair)]

/-- The baseline of a pair of chains is the largest of its first value and the source heights of the
events between these chains. -/
theorem value_isGreatest (hProcess : processAll lower c events = .ok (decisions, c'))
    (verifier target : String) :
    IsGreatest {height | height = c.baselines.value lower verifier target ∨
      ∃ event ∈ events, pair lower event = baselineKey lower verifier target ∧
        height = event.source.originalHeight} (c'.baselines.value lower verifier target) := by
  induction events generalizing c decisions with
  | nil =>
      cases hProcess
      refine ⟨.inl rfl, ?_⟩
      rintro height (rfl | ⟨event, hMem, -⟩)
      · exact le_refl _
      · cases hMem
  | cons event events ih =>
      obtain ⟨decision, next, rest, hHead, hTail, rfl⟩ := processAll_cons.mp hProcess
      obtain ⟨hIn, hUpper⟩ := ih hTail
      obtain ⟨view, estimate, result, final, -, -, -, -, -, rfl⟩ := process_eq_ok.mp hHead
      have hFirst := hUpper (.inl rfl)
      rw [value_advanced] at hIn hFirst
      constructor
      · rcases hIn with hIn | ⟨other, hMem, hPair, hHeight⟩
        · split at hIn
          · rename_i hPair
            rcases max_choice (c.baselines.value lower verifier target)
              event.source.originalHeight with hMax | hMax
            · exact .inl (hIn.trans hMax)
            · exact .inr ⟨event, List.mem_cons_self, hPair, hIn.trans hMax⟩
          · exact .inl hIn
        · exact .inr ⟨other, List.mem_cons_of_mem event hMem, hPair, hHeight⟩
      · rintro height (rfl | ⟨other, hMem, hPair, rfl⟩)
        · split at hFirst
          · exact (le_max_left _ _).trans hFirst
          · exact hFirst
        · rcases List.mem_cons.mp hMem with rfl | hMem
          · rw [if_pos hPair] at hFirst
            exact (le_max_right _ _).trans hFirst
          · exact hUpper (.inr ⟨other, hMem, hPair, rfl⟩)

/-! ## What a decision costs -/

/-- A decision never costs more than the direct verification, and it is the direct verification if
there is no planning. -/
theorem process_cost (hProcess : c.process lower event = .ok (decision, c')) :
    decision.baselineBefore = c.baseline lower event ∧
      (∃ estimate, estimateFrom c.profile (c.period lower event) (c.baseline lower event)
        event.source.originalHeight = .ok estimate ∧ decision.directCost = estimate.cost) ∧
      decision.chosenCost ≤ decision.directCost ∧
      (c.setting.usesTrustMap = false → decision.chosenCost = decision.directCost) := by
  obtain ⟨view, estimate, result, final, -, hEstimate, hPlan, -, rfl, -⟩ := process_eq_ok.mp hProcess
  obtain ⟨nodes, edges, cross, hCount⟩ := @countGraph_eq c final
    { result with baselineAfter := c.nextBaseline lower event }
  have hBefore := estimateFrom_baselineBefore hEstimate
  rw [hCount]
  obtain ⟨rfl, -⟩ | ⟨hUses, -, path, total, -, -, rfl⟩ := planEvent_eq_ok.mp hPlan
  · exact ⟨hBefore, ⟨estimate, hEstimate, rfl⟩, le_refl _, fun _ => rfl⟩
  · refine ⟨hBefore, ⟨estimate, hEstimate, rfl⟩, ?_, fun hNot => by simp [hUses] at hNot⟩
    show (if total < estimate.cost then total else estimate.cost) ≤ estimate.cost
    split
    · rename_i hLess
      exact le_of_lt hLess
    · exact le_refl _

/-! ## Whole runs -/

/-- The events of a trace, or of a part of it, with a fresh coordinator. -/
def processFresh (lower : Lowercase) (setting : Setting) (initHeights : List (String × UInt64))
    (profile : CostProfile) (policy : CheckpointPolicy) (events : List ReplayEvent) :
    Except ReplayError (List ReplayDecision × ReplayCoordinator) := do
  let c ← new lower setting initHeights profile policy
  processAll lower c events

/-- The initial height of a chain. -/
def initialHeight (lower : Lowercase) (initHeights : List (String × UInt64)) (chain : String) :
    UInt64 :=
  (ReplayBaselines.new lower initHeights).initHeights (canonicalChain lower chain)

/-- The heights that a direct verification can start from: the initial height of the source chain,
and the source heights of the earlier events between the same chains. -/
def trustedHeights (lower : Lowercase) (initHeights : List (String × UInt64))
    (earlier : List ReplayEvent) (event : ReplayEvent) : Set UInt64 :=
  {height | height = initialHeight lower initHeights event.source.chain ∨
    ∃ other ∈ earlier, pair lower other = pair lower event ∧ height = other.source.originalHeight}

variable {setting : Setting} {initHeights : List (String × UInt64)} {profile : CostProfile}
  {policy : CheckpointPolicy}

/-- After the events of a run, the baseline of an event is the greatest height it can start from. -/
theorem processFresh_baseline
    (hRun : processFresh lower setting initHeights profile policy events = .ok (decisions, c'))
    (event : ReplayEvent) :
    IsGreatest (trustedHeights lower initHeights events event) (c'.baseline lower event) := by
  obtain ⟨fresh, hNew, hProcess⟩ := bind_eq_ok.mp hRun
  have hBaseline := value_isGreatest hProcess event.destination.chain event.source.chain
  simp only [new, bind_eq_ok, pure_eq_ok] at hNew
  obtain ⟨view, -, rfl⟩ := hNew
  exact hBaseline

/-- The coordinator that decides about an event of a run. -/
theorem processFresh_at
    (hRun : processFresh lower setting initHeights profile policy events = .ok (decisions, c'))
    {i : ℕ} (hEvent : events[i]? = some event) :
    ∃ decision first c next, decisions[i]? = some decision ∧
      processFresh lower setting initHeights profile policy (events.take i) = .ok (first, c) ∧
      c.Invariant lower ∧ c.setting = setting ∧ c.profile = profile ∧ c.policy = policy ∧
      IsGreatest (trustedHeights lower initHeights (events.take i) event) (c.baseline lower event) ∧
      c.process lower event = .ok (decision, next) := by
  obtain ⟨fresh, hNew, hProcess⟩ := bind_eq_ok.mp hRun
  have hLength := processAll_length hProcess
  have hShort : i < decisions.length := hLength ▸ (List.getElem?_eq_some_iff.mp hEvent).1
  have hDecision := List.getElem?_eq_getElem hShort
  obtain ⟨first, c, next, hFirst, hNext⟩ := processAll_at hProcess hEvent hDecision
  have hBefore : processFresh lower setting initHeights profile policy (events.take i) =
      .ok (first, c) := by rw [processFresh, hNew, ok_bind, hFirst]
  have hInvariant := (new_invariant hNew).processAll hFirst
  have hSame := sameRun_processAll hFirst
  simp only [new, bind_eq_ok, pure_eq_ok] at hNew
  obtain ⟨view, -, rfl⟩ := hNew
  exact ⟨_, first, c, next, hDecision, hBefore, hInvariant, hSame.setting, hSame.profile, hSame.policy,
    processFresh_baseline hBefore event, hNext⟩

/-- What a decision of a run costs. -/
theorem processFresh_cost
    (hRun : processFresh lower setting initHeights profile policy events = .ok (decisions, c'))
    {i : ℕ} (hEvent : events[i]? = some event) :
    ∃ decision, decisions[i]? = some decision ∧
      IsGreatest (trustedHeights lower initHeights (events.take i) event) decision.baselineBefore ∧
      (∃ estimate, estimateFrom profile
          (if setting.usesCheckpoint then policy.period lower event.source.chain else none)
          decision.baselineBefore event.source.originalHeight = .ok estimate ∧
        decision.directCost = estimate.cost) ∧
      decision.chosenCost ≤ decision.directCost ∧
      (setting.usesTrustMap = false → decision.chosenCost = decision.directCost) := by
  obtain ⟨decision, first, c, next, hDecision, -, -, rfl, rfl, rfl, hGreatest, hProcess⟩ :=
    processFresh_at hRun hEvent
  obtain ⟨hBefore, hEstimate, hChosen⟩ := process_cost hProcess
  rw [← hBefore] at hGreatest hEstimate
  exact ⟨decision, hDecision, hGreatest, hEstimate, hChosen⟩

end Runs

namespace Toy

/-- The policy with a checkpoint at every seventh block of chain b. -/
def policy : CheckpointPolicy := ⟨⟨[("b", 7)], by decide⟩⟩

/-- The small run with this policy. -/
def runWith (setting : Setting) : Except ReplayError (List ReplayDecision × ReplayCoordinator) :=
  processFresh .plain setting [("a", 1), ("b", 10), ("c", 1)] ⟨"toy", 10, 1, 2⟩ policy events

/-- Chain b is verified from block 28 on with the policy, and the last event follows the path. -/
theorem runWith_cost (setting : Setting) :
    (runWith setting).toOption.map (fun run => run.1.map (·.chosenCost)) =
      some [if setting.usesCheckpoint then 20 else 200, 80, if setting.usesTrustMap then 4 else 80] := by
  cases setting <;> decide +kernel

theorem runWith_eq_ok (setting : Setting) : ∃ run, runWith setting = .ok run := by
  have hCost := runWith_cost setting
  cases hRun : runWith setting with
  | error e =>
      rw [hRun] at hCost
      cases hCost
  | ok run => exact ⟨run, rfl⟩

end Toy

/-- In every run of the four settings over the same events, the direct costs only differ by the
checkpoints; checkpoints and planning never make the chosen cost of an event higher. -/
theorem settings_dominate {lower : Lowercase} {initHeights : List (String × UInt64)}
    {profile : CostProfile} {policy policy₀ policy₂ : CheckpointPolicy} {events : List ReplayEvent}
    {decisions₀ decisions₁ decisions₂ decisions₃ : List ReplayDecision}
    {c₀ c₁ c₂ c₃ : ReplayCoordinator}
    (hRun₀ : processFresh lower .b0 initHeights profile policy₀ events = .ok (decisions₀, c₀))
    (hRun₁ : processFresh lower .b1 initHeights profile policy events = .ok (decisions₁, c₁))
    (hRun₂ : processFresh lower .b2 initHeights profile policy₂ events = .ok (decisions₂, c₂))
    (hRun₃ : processFresh lower .b3 initHeights profile policy events = .ok (decisions₃, c₃))
    {i : ℕ} {event : ReplayEvent} (hEvent : events[i]? = some event) :
    ∃ d₀ d₁ d₂ d₃, decisions₀[i]? = some d₀ ∧ decisions₁[i]? = some d₁ ∧
      decisions₂[i]? = some d₂ ∧ decisions₃[i]? = some d₃ ∧
      d₀.directCost = d₂.directCost ∧ d₁.directCost = d₃.directCost ∧
      d₁.chosenCost ≤ d₀.chosenCost ∧ d₂.chosenCost ≤ d₀.chosenCost ∧
      d₃.chosenCost ≤ d₁.chosenCost ∧
      ∀ d ∈ [d₀, d₁, d₂, d₃],
        IsGreatest (trustedHeights lower initHeights (events.take i) event) d.baselineBefore ∧
        d.chosenCost ≤ d.directCost ∧
        d.saving.toNat = d.directCost.toNat - d.chosenCost.toNat := by
  obtain ⟨d₀, hDecision₀, hBase₀, ⟨e₀, hEstimate₀, hDirect₀⟩, hLe₀, hChosen₀⟩ :=
    processFresh_cost hRun₀ hEvent
  obtain ⟨d₁, hDecision₁, hBase₁, ⟨e₁, hEstimate₁, hDirect₁⟩, hLe₁, hChosen₁⟩ :=
    processFresh_cost hRun₁ hEvent
  obtain ⟨d₂, hDecision₂, hBase₂, ⟨e₂, hEstimate₂, hDirect₂⟩, hLe₂, -⟩ :=
    processFresh_cost hRun₂ hEvent
  obtain ⟨d₃, hDecision₃, hBase₃, ⟨e₃, hEstimate₃, hDirect₃⟩, hLe₃, -⟩ :=
    processFresh_cost hRun₃ hEvent
  have hSaving : ∀ d : ReplayDecision, d.chosenCost ≤ d.directCost →
      d.saving.toNat = d.directCost.toNat - d.chosenCost.toNat :=
    fun d hLe => UInt64.toNat_sub_of_le _ _ hLe
  -- The greatest trusted height is the same in all runs, so the estimates start from one baseline.
  rw [hBase₁.unique hBase₀] at hEstimate₁
  rw [hBase₂.unique hBase₀] at hEstimate₂
  rw [hBase₃.unique hBase₀] at hEstimate₃
  have hSame₂ : d₀.directCost = d₂.directCost := by
    rw [hDirect₀, hDirect₂, Except.ok.inj (hEstimate₀.symm.trans hEstimate₂)]
  have hSame₃ : d₁.directCost = d₃.directCost := by
    rw [hDirect₁, hDirect₃, Except.ok.inj (hEstimate₁.symm.trans hEstimate₃)]
  refine ⟨d₀, d₁, d₂, d₃, hDecision₀, hDecision₁, hDecision₂, hDecision₃, hSame₂, hSame₃, ?_, ?_, ?_,
    ?_⟩
  · rw [hChosen₁ rfl, hChosen₀ rfl, hDirect₁, hDirect₀]
    exact estimateFrom_checkpoint_le hEstimate₀ hEstimate₁
  · rw [hChosen₀ rfl, hSame₂]
    exact hLe₂
  · rw [hChosen₁ rfl, hSame₃]
    exact hLe₃
  · intro d hMem
    simp only [List.mem_cons, List.not_mem_nil, or_false] at hMem
    obtain rfl | rfl | rfl | rfl := hMem
    · exact ⟨hBase₀, hLe₀, hSaving _ hLe₀⟩
    · exact ⟨hBase₁, hLe₁, hSaving _ hLe₁⟩
    · exact ⟨hBase₂, hLe₂, hSaving _ hLe₂⟩
    · exact ⟨hBase₃, hLe₃, hSaving _ hLe₃⟩

theorem settings_dominate_toy :
    ∃ run₀ run₁ run₂ run₃, Toy.runWith .b0 = .ok run₀ ∧ Toy.runWith .b1 = .ok run₁ ∧
      Toy.runWith .b2 = .ok run₂ ∧ Toy.runWith .b3 = .ok run₃ ∧
      ∃ d₀ d₁ d₂ d₃, run₀.1[2]? = some d₀ ∧ run₁.1[2]? = some d₁ ∧ run₂.1[2]? = some d₂ ∧
        run₃.1[2]? = some d₃ ∧ d₂.chosenCost ≤ d₀.chosenCost ∧ d₃.chosenCost ≤ d₁.chosenCost := by
  obtain ⟨⟨decisions₀, c₀⟩, hRun₀⟩ := Toy.runWith_eq_ok .b0
  obtain ⟨⟨decisions₁, c₁⟩, hRun₁⟩ := Toy.runWith_eq_ok .b1
  obtain ⟨⟨decisions₂, c₂⟩, hRun₂⟩ := Toy.runWith_eq_ok .b2
  obtain ⟨⟨decisions₃, c₃⟩, hRun₃⟩ := Toy.runWith_eq_ok .b3
  have hEvent : Toy.events[2]? = some ⟨"e2", 2, 2, ⟨"c", 9, 0⟩, ⟨"a", 1, 0⟩, 0, [], 1, 0⟩ := rfl
  obtain ⟨d₀, d₁, d₂, d₃, h₀, h₁, h₂, h₃, -, -, -, hPlan, hBoth, -⟩ :=
    settings_dominate hRun₀ hRun₁ hRun₂ hRun₃ hEvent
  exact ⟨_, _, _, _, hRun₀, hRun₁, hRun₂, hRun₃, d₀, d₁, d₂, d₃, h₀, h₁, h₂, h₃, hPlan, hBoth⟩

end ReplayCoordinator

end TrustMap.Mapnode.Replay
