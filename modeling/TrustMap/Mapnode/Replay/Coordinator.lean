import TrustMap.Mapnode.Replay.Baseline
import TrustMap.Mapnode.Replay.ShortestPath

/-!
`ReplayCoordinator`: for every event it compares the direct verification with the cheapest path in the
graph of the earlier events, and then adds the event to the graph. `Restore` repeats the change of a
committed decision without planning again.
-/

namespace TrustMap.Mapnode.Replay

open Checks

/-- `Setting`. -/
inductive Setting
  | b0
  | b1
  | b2
  | b3
  deriving DecidableEq

/-- `UsesTrustMap`. -/
def Setting.usesTrustMap : Setting → Bool
  | b2 | b3 => true
  | b0 | b1 => false

/-- `UsesCheckpoint`. -/
def Setting.usesCheckpoint : Setting → Bool
  | b1 | b3 => true
  | b0 | b2 => false

/-- `ReplayEvent`. The bridge name is the bytes of the trace, and the volume the bits of the number. -/
structure ReplayEvent where
  id : String
  originalRow : UInt64
  sequence : UInt64
  source : ReplayBlock
  destination : ReplayBlock
  sourceTime : ℤ
  bridgeName : List UInt8
  txCount : ℤ
  volumeUSD : UInt64
  deriving DecidableEq

/-- `ReplayDecisionKind`: its two values, and the other texts of the Go string type. -/
inductive ReplayDecisionKind
  | direct
  | trustMap
  | other (text : String) (unnamed : text ∉ ["direct", "trustmap"])
  deriving DecidableEq

/-- A path that was not looked for or not found. -/
def ReplayPath.none : ReplayPath := ⟨0, [], []⟩

/-- `ReplayDecision`. -/
structure ReplayDecision where
  eventID : String
  sequence : UInt64
  setting : Setting
  decision : ReplayDecisionKind
  planningEnabled : Bool
  baselineBefore : UInt64
  baselineAfter : UInt64
  directStart : UInt64
  directBlocks : UInt64
  checkpointConfigured : Bool
  checkpointPeriod : UInt64
  checkpointHeight : UInt64
  checkpointApplied : Bool
  directCost : UInt64
  pathFound : Bool
  pathCost : UInt64
  trustMapTotalCost : UInt64
  chosenCost : UInt64
  path : ReplayPath
  graphNodes : UInt64
  graphEdges : UInt64
  crossEdgesAdded : UInt64
  deriving DecidableEq

/-- Nothing of a path is recorded. -/
def ReplayDecision.NoPath (decision : ReplayDecision) : Prop :=
  decision.decision = .direct ∧ decision.chosenCost = decision.directCost ∧
    decision.pathFound = false ∧ decision.pathCost = 0 ∧ decision.trustMapTotalCost = 0 ∧
    decision.path.nodes = [] ∧ decision.path.segments = []

instance (decision : ReplayDecision) : Decidable decision.NoPath := by
  unfold ReplayDecision.NoPath
  infer_instance

/-! ## Planning -/

/-- `ReplayPlanChoice`. -/
structure ReplayPlanChoice where
  useTrustMap : Bool
  pathFound : Bool
  path : ReplayPath
  totalCost : UInt64
  deriving DecidableEq

/-- `choose`. -/
def choose (profile : CostProfile) (directCost : UInt64) :
    Option ReplayPath → Except ReplayError ReplayPlanChoice
  | none => .ok ⟨false, false, .none, directCost⟩
  | some path => do
      let total ← checkedAdd path.cost profile.trustRootUpdateCost
      if total < directCost then return ⟨true, true, path, total⟩
      else return ⟨false, true, path, directCost⟩

/-- `ReplayPlanner.Plan`. -/
def plan (lower : Lowercase) (profile : CostProfile) (view : ReplayTrustView)
    (start goal : ReplayBlockKey) (directCost : UInt64) : Except ReplayError ReplayPlanChoice :=
  if directCost ≤ profile.trustRootUpdateCost then .ok ⟨false, false, .none, directCost⟩
  else do
    let found ← view.shortestPath lower start goal (directCost - profile.trustRootUpdateCost)
      goal.chain goal.height
    choose profile directCost found

/-! ## The coordinator -/

/-- `ReplayCoordinator`. -/
structure ReplayCoordinator where
  setting : Setting
  profile : CostProfile
  policy : CheckpointPolicy
  view : ReplayTrustView
  baselines : ReplayBaselines

namespace ReplayCoordinator

/-- `NewReplayCoordinator`. -/
def new (lower : Lowercase) (setting : Setting) (initHeights : List (String × UInt64))
    (profile : CostProfile) (policy : CheckpointPolicy) : Except ReplayError ReplayCoordinator := do
  let view ← ReplayTrustView.new profile
  return ⟨setting, profile, policy, view, .new lower initHeights⟩

variable (lower : Lowercase) (c : ReplayCoordinator)

/-- The activations of `Process` and `Restore`. -/
def activateEnds (event : ReplayEvent) : Except ReplayError ReplayTrustView :=
  if c.setting.usesTrustMap then do
    let view ← c.view.activate lower event.destination
    view.activate lower event.source
  else .ok c.view

/-- `EstimateDirect` as `Process` and `Restore` call it. -/
def estimate (event : ReplayEvent) (baselines : ReplayBaselines) :
    Except ReplayError (ReplayDirectEstimate × ReplayBaselines) :=
  baselines.estimateDirect lower event.destination.chain event.source.chain
    event.source.originalHeight c.profile c.policy c.setting.usesCheckpoint

/-- The decision before any planning. -/
def directDecision (event : ReplayEvent) (estimate : ReplayDirectEstimate) : ReplayDecision where
  eventID := event.id
  sequence := event.sequence
  setting := c.setting
  decision := .direct
  planningEnabled := c.setting.usesTrustMap
  baselineBefore := estimate.baselineBefore
  baselineAfter := 0
  directStart := estimate.directStart
  directBlocks := estimate.directBlocks
  checkpointConfigured := estimate.checkpointConfigured
  checkpointPeriod := estimate.checkpointPeriod
  checkpointHeight := estimate.checkpointHeight
  checkpointApplied := estimate.checkpointApplied
  directCost := estimate.cost
  pathFound := false
  pathCost := 0
  trustMapTotalCost := 0
  chosenCost := estimate.cost
  path := .none
  graphNodes := 0
  graphEdges := 0
  crossEdgesAdded := 0

/-- The decision with what the planner has chosen. -/
def applyChoice (choice : ReplayPlanChoice) (result : ReplayDecision) :
    Except ReplayError ReplayDecision := do
  let total ←
    if choice.pathFound then checkedAdd choice.path.cost c.profile.trustRootUpdateCost else pure 0
  return { result with
    pathFound := choice.pathFound
    path := choice.path
    pathCost := if choice.pathFound then choice.path.cost else 0
    trustMapTotalCost := total
    decision := if choice.useTrustMap then .trustMap else .direct
    chosenCost := if choice.useTrustMap then choice.totalCost else result.chosenCost }

/-- The planning of `Process`. -/
def planEvent (event : ReplayEvent) (view : ReplayTrustView) (estimate : ReplayDirectEstimate) :
    Except ReplayError ReplayDecision :=
  if c.setting.usesTrustMap then do
    let choice ← plan lower c.profile view (event.destination.key lower) (event.source.key lower)
      estimate.cost
    c.applyChoice choice (c.directDecision event estimate)
  else .ok (c.directDecision event estimate)

/-- The last part of `Process` and `Restore`: the event is added to the graph. -/
def addEvent (event : ReplayEvent) (view : ReplayTrustView) : Except ReplayError ReplayTrustView :=
  if c.setting.usesTrustMap then
    view.addVerifiedDependency lower event.destination event.source
  else .ok view

/-- The decision with the counters of the graph, which are only filled in if it is used. -/
def countGraph (view : ReplayTrustView) (result : ReplayDecision) : ReplayDecision :=
  if c.setting.usesTrustMap then
    { result with
      crossEdgesAdded := view.crossEdgesAdded
      graphNodes := view.nodeCount
      graphEdges := view.edgeCount }
  else result

/-- `Process`. -/
def process (event : ReplayEvent) : Except ReplayError (ReplayDecision × ReplayCoordinator) := do
  let view ← c.activateEnds lower event
  let (estimate, baselines) ← c.estimate lower event c.baselines
  let result ← c.planEvent lower event view estimate
  let (after, baselines) := baselines.advance lower event.destination.chain event.source.chain
    event.source.originalHeight
  let view ← c.addEvent lower event view
  return (c.countGraph view { result with baselineAfter := after },
    { c with view := view, baselines := baselines })

/-! ## Restoring -/

/-- The loop of `validateRestoredDecision` over the segments, with the cost so far. -/
def validateSegments (view : ReplayTrustView) :
    List ReplayBlockKey → List ReplayPathSegment → UInt64 → Except ReplayError UInt64
  | node :: next :: nodes, segment :: segments, cost => do
      require (segment.fromKey = node ∧ segment.toKey = next) (.decisionMismatch "path segment")
      require (view.edge (canonicalKey lower segment.fromKey) (canonicalKey lower segment.toKey) =
        some ⟨segment.kind, segment.weight⟩) (.decisionMismatch "path edge")
      let cost ← (checkedAdd cost segment.weight).mapError fun _ =>
        .decisionMismatch "path cost overflow"
      validateSegments view (next :: nodes) segments cost
  | _, _, cost => .ok cost

/-- `validateRestoredDecision` for a path that was found. -/
def validatePath (event : ReplayEvent) (decision : ReplayDecision) (view : ReplayTrustView) :
    Except ReplayError Unit := do
  require (decision.path.segments.length + 1 = decision.path.nodes.length ∧
    decision.path.nodes.head? = some (event.destination.key lower) ∧
    decision.path.nodes.getLast? = some (event.source.key lower)) (.decisionMismatch "path endpoints")
  let pathCost ← validateSegments lower view decision.path.nodes decision.path.segments 0
  require (decision.path.cost = pathCost ∧ decision.pathCost = pathCost)
    (.decisionMismatch "path cost")
  let total ← (checkedAdd pathCost c.profile.trustRootUpdateCost).mapError fun _ =>
    .decisionMismatch "TrustMap total"
  require (decision.trustMapTotalCost = total) (.decisionMismatch "TrustMap total")
  if decision.decision = .trustMap then
    require (total < decision.directCost ∧ decision.chosenCost = total)
      (.decisionMismatch "TrustMap selection")
  else
    require (¬ total < decision.directCost ∧ decision.chosenCost = decision.directCost)
      (.decisionMismatch "Direct selection")

/-- `validateRestoredDecision`. -/
def validateRestoredDecision (event : ReplayEvent) (decision : ReplayDecision)
    (estimate : ReplayDirectEstimate) (view : ReplayTrustView) : Except ReplayError Unit := do
  require (decision.planningEnabled = c.setting.usesTrustMap) (.decisionMismatch "planning mode")
  require (decision.baselineBefore = estimate.baselineBefore ∧
    decision.directStart = estimate.directStart ∧ decision.directBlocks = estimate.directBlocks ∧
    decision.checkpointConfigured = estimate.checkpointConfigured ∧
    decision.checkpointPeriod = estimate.checkpointPeriod ∧
    decision.checkpointHeight = estimate.checkpointHeight ∧
    decision.checkpointApplied = estimate.checkpointApplied ∧
    decision.directCost = estimate.cost) (.decisionMismatch "direct estimate")
  require (decision.baselineAfter =
    if decision.baselineBefore < event.source.originalHeight then event.source.originalHeight
    else decision.baselineBefore) (.decisionMismatch "baseline after")
  if decision.planningEnabled = false then
    require decision.NoPath (.decisionMismatch "baseline-only result")
  else do
    require (decision.decision = .direct ∨ decision.decision = .trustMap) (.decisionMismatch "kind")
    if decision.pathFound = false then
      require decision.NoPath (.decisionMismatch "missing path")
    else c.validatePath lower event decision view

/-- `Restore`. -/
def restore (event : ReplayEvent) (decision : ReplayDecision) :
    Except ReplayError ReplayCoordinator := do
  require (decision.eventID = event.id ∧ decision.sequence = event.sequence ∧
    decision.setting = c.setting) .identityMismatch
  let view ← c.activateEnds lower event
  let (baseline, baselines) := c.baselines.get lower event.destination.chain event.source.chain
  require (baseline = decision.baselineBefore) .baselineMismatch
  let (estimate, baselines) ← c.estimate lower event baselines
  c.validateRestoredDecision lower event decision estimate view
  let (after, baselines) := baselines.advance lower event.destination.chain event.source.chain
    event.source.originalHeight
  require (after = decision.baselineAfter) .baselineMismatch
  let view ← c.addEvent lower event view
  require (view.nodeCount = decision.graphNodes ∧ view.edgeCount = decision.graphEdges ∧
    view.crossEdgesAdded = decision.crossEdgesAdded) .counterMismatch
  return { c with view := view, baselines := baselines }

/-! ## Sequences of events -/

/-- `Process` for one event after the other. -/
def processAll : ReplayCoordinator → List ReplayEvent →
    Except ReplayError (List ReplayDecision × ReplayCoordinator)
  | c, [] => .ok ([], c)
  | c, event :: events => do
      let (decision, c) ← c.process lower event
      let (decisions, c) ← processAll c events
      return (decision :: decisions, c)

/-- `Restore` for one committed pair after the other. -/
def restoreAll : ReplayCoordinator → List (ReplayEvent × ReplayDecision) →
    Except ReplayError ReplayCoordinator
  | c, [] => .ok c
  | c, (event, decision) :: pairs => do
      let c ← c.restore lower event decision
      restoreAll c pairs

/-! ## What one event does -/

/-- The baseline of an event. -/
def baseline (event : ReplayEvent) : UInt64 :=
  c.baselines.value lower event.destination.chain event.source.chain

/-- The checkpoint period that the direct estimate of an event uses. -/
def period (event : ReplayEvent) : Option UInt64 :=
  if c.setting.usesCheckpoint then c.policy.period lower event.source.chain else none

/-- The baseline that an event leaves. -/
def nextBaseline (event : ReplayEvent) : UInt64 :=
  if c.baseline lower event < event.source.originalHeight then event.source.originalHeight
  else c.baseline lower event

/-- The coordinator after an event, with the given graph. -/
def advanced (event : ReplayEvent) (view : ReplayTrustView) : ReplayCoordinator :=
  { c with
    view := view
    baselines := c.baselines.store lower event.destination.chain event.source.chain
      (c.nextBaseline lower event) }

/-- The decision for an event for which a path was found. -/
def withPath (path : ReplayPath) (total : UInt64) (result : ReplayDecision) : ReplayDecision :=
  { result with
    pathFound := true
    path := path
    pathCost := path.cost
    trustMapTotalCost := total
    decision := if total < result.chosenCost then .trustMap else .direct
    chosenCost := if total < result.chosenCost then total else result.chosenCost }

section Inversion

variable {lower : Lowercase} {c c' : ReplayCoordinator} {event : ReplayEvent}
  {view : ReplayTrustView} {estimate : ReplayDirectEstimate} {decision result : ReplayDecision}

/-- The estimate reads the baseline and stores it. -/
theorem estimate_eq {baselines : ReplayBaselines} :
    c.estimate lower event baselines =
      (estimateFrom c.profile (c.period lower event)
        (baselines.value lower event.destination.chain event.source.chain)
        event.source.originalHeight).map fun estimate =>
          (estimate, baselines.store lower event.destination.chain event.source.chain
            (baselines.value lower event.destination.chain event.source.chain)) := by
  simp only [ReplayCoordinator.estimate, ReplayBaselines.estimateDirect, ReplayBaselines.get_eq,
    period]
  cases estimateFrom c.profile _ _ event.source.originalHeight with
  | error e => rfl
  | ok estimate => rfl

/-- `Advance` after the estimate of an event. -/
theorem advance_eq :
    (c.baselines.store lower event.destination.chain event.source.chain
      (c.baseline lower event)).advance lower event.destination.chain event.source.chain
        event.source.originalHeight =
      (c.nextBaseline lower event, (c.advanced lower event c.view).baselines) := by
  simp [ReplayBaselines.advance, nextBaseline, advanced]

/-- The search that an event leads to. -/
def search (lower : Lowercase) (c : ReplayCoordinator) (event : ReplayEvent)
    (view : ReplayTrustView) (directCost : UInt64) : Except ReplayError (Option ReplayPath) :=
  view.shortestPath lower (event.destination.key lower) (event.source.key lower)
    (directCost - c.profile.trustRootUpdateCost) (event.source.key lower).chain
    (event.source.key lower).height

theorem planEvent_of_le (hUses : c.setting.usesTrustMap = true)
    (hCost : estimate.cost ≤ c.profile.trustRootUpdateCost) :
    c.planEvent lower event view estimate = .ok (c.directDecision event estimate) := by
  rw [planEvent, if_pos hUses, plan, if_pos hCost]
  rfl

/-- What becomes of the result of a search. -/
def planFound (c : ReplayCoordinator) (event : ReplayEvent) (estimate : ReplayDirectEstimate) :
    Option ReplayPath → Except ReplayError ReplayDecision
  | none => .ok (c.directDecision event estimate)
  | some path => do
      let total ← checkedAdd path.cost c.profile.trustRootUpdateCost
      return withPath path total (c.directDecision event estimate)

section Choice

variable {path : ReplayPath} {total directCost : UInt64}
  (hTotal : checkedAdd path.cost c.profile.trustRootUpdateCost = .ok total)

include hTotal

theorem choose_of_lt (hLess : total < directCost) :
    choose c.profile directCost (some path) = .ok ⟨true, true, path, total⟩ := by
  rw [choose, hTotal, ok_bind, if_pos hLess]
  rfl

theorem choose_of_not_lt (hLess : ¬ total < directCost) :
    choose c.profile directCost (some path) = .ok ⟨false, true, path, directCost⟩ := by
  rw [choose, hTotal, ok_bind, if_neg hLess]
  rfl

theorem applyChoice_found {cost : UInt64} {use : Bool} :
    c.applyChoice ⟨use, true, path, cost⟩ result = .ok { result with
      pathFound := true
      path := path
      pathCost := path.cost
      trustMapTotalCost := total
      decision := if use then .trustMap else .direct
      chosenCost := if use then cost else result.chosenCost } := by
  rw [applyChoice, if_pos rfl, hTotal]
  rfl

theorem applyChoice_path :
    (choose c.profile result.chosenCost (some path) >>= fun choice => c.applyChoice choice result) =
      .ok (withPath path total result) := by
  by_cases hLess : total < result.chosenCost
  · rw [choose_of_lt hTotal hLess, ok_bind, applyChoice_found hTotal, withPath, if_pos rfl,
      if_pos rfl, if_pos hLess, if_pos hLess]
  · rw [choose_of_not_lt hTotal hLess, ok_bind, applyChoice_found hTotal, withPath,
      if_neg Bool.false_ne_true, if_neg Bool.false_ne_true, if_neg hLess, if_neg hLess]

end Choice

theorem applyChoice_choose {found : Option ReplayPath} :
    (choose c.profile estimate.cost found >>= fun choice =>
      c.applyChoice choice (c.directDecision event estimate)) = c.planFound event estimate found := by
  cases found with
  | none => rfl
  | some path =>
      rw [planFound]
      cases hTotal : checkedAdd path.cost c.profile.trustRootUpdateCost with
      | error e =>
          rw [choose, hTotal]
          rfl
      | ok total =>
          have hPath := @applyChoice_path c (c.directDecision event estimate) path total hTotal
          rw [ok_bind]
          exact hPath

theorem planEvent_of_lt (hUses : c.setting.usesTrustMap = true)
    (hCost : c.profile.trustRootUpdateCost < estimate.cost) :
    c.planEvent lower event view estimate =
      c.search lower event view estimate.cost >>= c.planFound event estimate := by
  rw [planEvent, if_pos hUses, plan, if_neg (not_le.mpr hCost), bind_assoc]
  exact congrArg _ (funext fun found => applyChoice_choose)

/-- What planning decides: the direct verification, unless there is a path, which is then taken if it
is cheaper together with the update of the root. -/
theorem planEvent_eq_ok :
    c.planEvent lower event view estimate = .ok result ↔
      (c.directDecision event estimate = result ∧ (c.setting.usesTrustMap = false ∨
        estimate.cost ≤ c.profile.trustRootUpdateCost ∨
        c.search lower event view estimate.cost = .ok none)) ∨
      (c.setting.usesTrustMap = true ∧ c.profile.trustRootUpdateCost < estimate.cost ∧
        ∃ path total, c.search lower event view estimate.cost = .ok (some path) ∧
          path.cost.toNat + c.profile.trustRootUpdateCost.toNat = total.toNat ∧
          withPath path total (c.directDecision event estimate) = result) := by
  cases hUses : c.setting.usesTrustMap with
  | false =>
      rw [planEvent, hUses]
      simp
  | true =>
      rcases le_or_gt estimate.cost c.profile.trustRootUpdateCost with hCost | hCost
      · rw [planEvent_of_le hUses hCost]
        simp [hCost]
      · rw [planEvent_of_lt hUses hCost, bind_eq_ok]
        simp only [hCost, not_le.mpr hCost, ← checkedAdd_eq_ok]
        constructor
        · rintro ⟨found, hFound, hResult⟩
          cases found with
          | none => exact .inl ⟨Except.ok.inj hResult, .inr (.inr hFound)⟩
          | some path =>
              obtain ⟨total, hTotal, hResult⟩ := bind_eq_ok.mp hResult
              exact .inr ⟨trivial, trivial, path, total, hFound, hTotal, pure_eq_ok.mp hResult⟩
        · rintro (⟨rfl, hFalse | hFalse | hNone⟩ | ⟨-, -, path, total, hFound, hTotal, rfl⟩)
          · cases hFalse
          · exact hFalse.elim
          · exact ⟨none, hNone, rfl⟩
          · exact ⟨some path, hFound, by rw [planFound, hTotal]; rfl⟩

/-- What `Process` does for an event. -/
theorem process_eq_ok :
    c.process lower event = .ok (decision, c') ↔
      ∃ view estimate result final, c.activateEnds lower event = .ok view ∧
        estimateFrom c.profile (c.period lower event) (c.baseline lower event)
          event.source.originalHeight = .ok estimate ∧
        c.planEvent lower event view estimate = .ok result ∧
        c.addEvent lower event view = .ok final ∧
        decision = c.countGraph final { result with baselineAfter := c.nextBaseline lower event } ∧
        c' = c.advanced lower event final := by
  rw [process, estimate_eq, ← baseline]
  cases hView : c.activateEnds lower event with
  | error e => simp [bind, Except.bind]
  | ok view =>
      cases hEstimate : estimateFrom c.profile (c.period lower event) (c.baseline lower event)
          event.source.originalHeight with
      | error e => simp [bind, Except.bind, Except.map]
      | ok estimate =>
          simp only [ok_bind, Except.map, advance_eq, bind_eq_ok, pure_eq_ok, Except.ok.injEq,
            Prod.mk.injEq, exists_and_left, exists_eq_left']
          constructor
          · rintro ⟨result, hResult, final, hFinal, rfl, rfl⟩
            exact ⟨result, hResult, final, hFinal, rfl, rfl⟩
          · rintro ⟨result, hResult, final, hFinal, rfl, rfl⟩
            exact ⟨result, hResult, final, hFinal, rfl, rfl⟩

end Inversion

end ReplayCoordinator

end TrustMap.Mapnode.Replay
