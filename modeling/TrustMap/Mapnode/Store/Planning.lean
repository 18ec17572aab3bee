import TrustMap.Contracts.Chain
import TrustMap.Mapnode.Store.Plans

/-!
When `Planner.Plan` returns a plan, and how it chooses between the path and the direct
verification.
-/

namespace TrustMap.Mapnode.Store

open Transaction Checks

theorem validatePlanForStorage_eq_ok {plan : Plan} :
    validatePlanForStorage plan = .ok () ↔
      (plan.id ≠ 0 ∧ plan.requestID ≠ 0 ∧ plan.snapshotID ≠ 0 ∧ plan.homeNodeID ≠ 0 ∧
        plan.targetNodeID ≠ 0 ∧ plan.profileID ≠ "") ∧
      (plan.attempt.toNat ≤ maxInt64 ∧ plan.pathStepCost.toNat ≤ maxInt64) ∧
      (costInRange plan.pathCost ∧ costInRange plan.directCost) ∧
      (if plan.hops ≠ [] then Plan.pathCostConsistent plan
        else plan.pathCost = none ∧ plan.pathStepCost = 0) ∧
      (match plan.type with
        | .path => plan.hops ≠ [] ∧ plan.pathCost ≠ none ∧ plan.directCost ≠ none ∧
            plan.fallbackReason = none
        | .direct => plan.fallbackReason ≠ none) := by
  unfold validatePlanForStorage
  by_cases hHops : plan.hops = []
  all_goals
    cases hType : plan.type with
    | path => simp [hHops]
    | direct => simp [hHops]

/-- The costs and the decision of a plan are as `validatePlanForStorage` wants them. -/
structure StorableDecision (plan : Plan) : Prop where
  stepCost : plan.pathStepCost.toNat ≤ maxInt64
  pathCost : costInRange plan.pathCost
  directCost : costInRange plan.directCost
  consistent : if plan.hops ≠ [] then Plan.pathCostConsistent plan
    else plan.pathCost = none ∧ plan.pathStepCost = 0
  complete : match plan.type with
    | .path => plan.hops ≠ [] ∧ plan.pathCost ≠ none ∧ plan.directCost ≠ none ∧
        plan.fallbackReason = none
    | .direct => plan.fallbackReason ≠ none

/-- A request to plan on a snapshot: both are stored, the snapshot was taken for the request, and the
attempt is later than those that have a plan. The hash names the plan as no other one. -/
structure PlanningAsked (keccak : Keccak) (db : WorkDB) (profile : DirectProfile)
    (request : PlanRequest) (snapshot : TrustViewSnapshot) : Prop where
  loaded : db.store.snapshots.find? request.snapshotID = some snapshot
  requested : Requested keccak request snapshot
  stored : ∃ row ∈ db.store.requests.rows, row.id = request.id
  attempt : request.attempt.toNat ≤ maxInt64
  requestID : request.id ≠ 0
  snapshotID : snapshot.id ≠ 0
  profileID : profile.id ≠ ""
  later : ∀ plan ∈ db.plans.rows, plan.requestID = request.id → plan.attempt < request.attempt
  owned : ∀ row ∈ db.currentPlans.rows, ∃ plan ∈ db.plans.rows, plan.id = row.planID ∧
    plan.requestID = row.requestID
  named : ∀ plan, planDecision profile request snapshot = .ok plan → plan.computeID keccak ≠ 0 ∧
    ∀ other ∈ db.plans.rows, other.id ≠ plan.computeID keccak

/-- The graph of the snapshot is valid, too. -/
structure PlanningReady (keccak : Keccak) (db : WorkDB) (profile : DirectProfile)
    (request : PlanRequest) (snapshot : TrustViewSnapshot) : Prop
    extends PlanningAsked keccak db profile request snapshot where
  graph : snapshot.checkGraph keccak = .ok ()

variable {profiles : Bytes32 → Option DirectProfile} {step : UInt64}

namespace PlanningReady

theorem plannable (h : PlanningReady keccak db profile request snapshot) :
    Plannable keccak request snapshot :=
  ⟨h.requested, h.graph⟩

variable {keccak : Keccak} {db : WorkDB} {profile : DirectProfile} {request : PlanRequest}
  {snapshot : TrustViewSnapshot} {decided : Plan}

theorem newPlan (h : PlanningReady keccak db profile request snapshot)
    (hDecision : planDecision profile request snapshot = .ok decided)
    (hFollows : decided.Follows profile request snapshot) (hStorable : StorableDecision decided) :
    NewPlan keccak db (decided.named keccak) := by
  obtain ⟨hNonzero, hFresh⟩ := h.named decided hDecision
  obtain ⟨hLoaded, hSnapshotID⟩ := Table.find?_eq_some.mp h.loaded
  have hFind : db.store.snapshots.find? (decided.named keccak).snapshotID = some snapshot := by
    rw [← h.loaded, ← hSnapshotID]
    exact congrArg _ hFollows.snapshotID
  constructor
  case id => rfl
  case valid =>
    refine validatePlanForStorage_eq_ok.mpr ⟨⟨hNonzero, ?_, ?_, ?_, ?_, ?_⟩, ⟨?_, hStorable.stepCost⟩,
      ⟨hStorable.pathCost, hStorable.directCost⟩, hStorable.consistent, hStorable.complete⟩
    · exact hFollows.requestID ▸ h.requestID
    · exact hFollows.snapshotID ▸ h.snapshotID
    · exact hFollows.homeNodeID ▸ h.plannable.start_ne_zero
    · exact hFollows.targetNodeID ▸ h.plannable.target_ne_zero
    · exact hFollows.profileID ▸ h.profileID
    · exact hFollows.attempt ▸ h.attempt
  case binding =>
    refine validatePlanSnapshotBinding_of_find hFind h.plannable.isSealed ?_
      hFollows.homeNodeID.symm hFollows.targetNodeID.symm
    have hBound := h.plannable.bound
    rw [← hFollows.requestID, ← hFollows.attempt] at hBound
    exact hBound.trans hFollows.snapshotID.symm
  case later =>
    intro other hMem hRequest
    have hLater := h.later other hMem (hRequest.trans hFollows.requestID)
    exact hFollows.attempt ▸ hLater
  case fresh => exact hFresh
  case admissible =>
    obtain ⟨row, hRow, hRowID⟩ := h.stored
    obtain ⟨start, hStart, -⟩ := h.plannable.start
    obtain ⟨target, hTarget⟩ := Option.isSome_iff_exists.mp h.plannable.target
    refine ⟨⟨row, hRow, hRowID.trans hFollows.requestID.symm⟩, ⟨snapshot, hLoaded,
      hFollows.snapshotID.symm, h.plannable.isSealed, ⟨start, List.mem_of_find?_eq_some hStart, ?_⟩,
      ⟨target, List.mem_of_find?_eq_some hTarget, ?_⟩, hFollows.hops⟩, ?_⟩
    · have hID : start.id = snapshot.startNodeID := by simpa using List.find?_some hStart
      exact hID.trans hFollows.homeNodeID.symm
    · have hID : target.id = snapshot.targetNodeID := by simpa using List.find?_some hTarget
      exact hID.trans hFollows.targetNodeID.symm
    · rintro other hMem ⟨hRequest, hAttempt⟩
      have hLater := h.later other hMem (hRequest.trans hFollows.requestID)
      rw [hAttempt.trans hFollows.attempt] at hLater
      exact UInt64.lt_irrefl _ hLater
  case owned => exact h.owned

/-- `Plan` saves and returns what it has decided. -/
theorem plan_run (h : PlanningReady keccak db profile request snapshot)
    (hProfile : (profiles request.homeChainID).getD unavailableProfile = profile)
    (hDecision : planDecision profile request snapshot = .ok decided)
    (hFollows : decided.Follows profile request snapshot) (hStorable : StorableDecision decided) :
    plan keccak profiles request db =
      (.ok (decided.named keccak), db.addPlan (decided.named keccak)) := by
  have hNew := h.newPlan hDecision hFollows hStorable
  have hLoad : loadTrustViewSnapshot request.snapshotID db = .ok (snapshot, db) := by
    rw [loadTrustViewSnapshot, gets_bind_apply, h.loaded]
    rfl
  have hPlanFor : planFor keccak (profiles request.homeChainID) request snapshot =
      .ok (decided.named keccak) := by
    simp only [planFor, planSnapshot_eq_ok.mpr h.plannable, hProfile, hDecision]
    rfl
  have hCheck : (Process.check (planFor keccak (profiles request.homeChainID) request snapshot)
      WorkError.planning : WorkProcess Plan) db = (.ok (decided.named keccak), db) := by
    rw [hPlanFor]
    rfl
  rw [plan, Process.bind_of_ok (Process.atomically_of_ok hLoad), Process.bind_of_ok hCheck,
    Process.bind_of_ok (Process.atomically_of_ok hNew.savePlan),
    Process.atomically_of_ok hNew.loadPlan]

theorem storable_noPath (hDirect : profile.directCost.toNat ≤ maxInt64) :
    StorableDecision { calibratedBase profile request snapshot with
      fallbackReason := some .noPath } where
  stepCost := Nat.zero_le _
  pathCost := by simp [costInRange, calibratedBase, planBase]
  directCost := by simpa [costInRange, calibratedBase] using hDirect
  consistent := ⟨rfl, rfl⟩
  complete := by simp [calibratedBase, planBase]

theorem storable_considering {path : List TrustEdge} {type : PlanType}
    {reason : Option FallbackReason} (hPath : path ≠ []) (hStep : 0 < step.toNat)
    (hCost : path.length * step.toNat ≤ maxInt64) (hDirect : profile.directCost.toNat ≤ maxInt64)
    (hReason : reason = none ↔ type = .path) :
    StorableDecision ((calibratedBase profile request snapshot).considering step path type
      reason) := by
  have hMax : maxInt64 < 2 ^ 64 := by decide
  have hLength : 0 < path.length := List.length_pos_iff.mpr hPath
  obtain ⟨hProduct, hBound⟩ := multiple_of_range hStep (lt_of_le_of_lt hCost hMax)
  have hHops : ((calibratedBase profile request snapshot).considering step path type
      reason).hops ≠ [] := by
    simpa [Plan.considering] using hPath
  constructor
  case stepCost => exact (Nat.le_mul_of_pos_left _ hLength).trans hCost
  case pathCost =>
    rintro value hValue
    obtain rfl : UInt64.ofNat path.length * step = value := Option.some.inj hValue
    rw [hProduct]
    exact hCost
  case directCost => simpa [costInRange, calibratedBase, Plan.considering] using hDirect
  case consistent =>
    rw [if_pos hHops]
    refine ⟨?_, ?_, ?_⟩
    · intro hZero
      have hStepZero : step = 0 := hZero
      rw [hStepZero] at hStep
      exact absurd hStep (Nat.lt_irrefl 0)
    · simp [Plan.considering]
    · simpa [Plan.considering] using hBound
  case complete =>
    cases type with
    | path => exact ⟨hHops, Option.some_ne_none _, Option.some_ne_none _, hReason.mpr rfl⟩
    | direct =>
        intro hNone
        cases hReason.mp hNone

/-- Without a path `Plan` returns a direct plan. -/
theorem plan_of_noPath (h : PlanningReady keccak db profile request snapshot)
    (hProfile : (profiles request.homeChainID).getD unavailableProfile = profile)
    (hCalibrated : profile.calibrated = true) (hDirect : profile.directCost.toNat ≤ maxInt64)
    (hStep : snapshot.UniformStep step) (hNone : ¬ ∃ path, snapshot.Joins path) :
    ∃ decided : Plan, decided.type = .direct ∧ decided.fallbackReason = some .noPath ∧
      plan keccak profiles request db =
        (.ok (decided.named keccak), db.addPlan (decided.named keccak)) := by
  have hDecision : planDecision profile request snapshot = .ok _ :=
    planDecision_of_noPath hCalibrated hStep hNone
  refine ⟨_, rfl, rfl, h.plan_run hProfile hDecision ?_ (storable_noPath hDirect)⟩
  exact ⟨rfl, rfl, rfl, rfl, rfl, rfl, by simp [calibratedBase, planBase]⟩

/-- With a path whose cost can be stored `Plan` returns what it has decided about the first one. -/
theorem plan_of_path (h : PlanningReady keccak db profile request snapshot)
    (hProfile : (profiles request.homeChainID).getD unavailableProfile = profile)
    (hCalibrated : profile.calibrated = true) (hDirect : profile.directCost.toNat ≤ maxInt64)
    (hStep : snapshot.UniformStep step) {path : List TrustEdge} (hPath : snapshot.Joins path)
    (hRange : path.length * step.toNat ≤ maxInt64) :
    ∃ first, snapshot.IsFirstPath first ∧ first ≠ [] ∧
      plan keccak profiles request db =
        (.ok ((planPath (calibratedBase profile request snapshot) profile.directCost step
            first).named keccak),
          db.addPlan ((planPath (calibratedBase profile request snapshot) profile.directCost step
            first).named keccak)) := by
  obtain ⟨first, hFirst, hNonempty, hDecision⟩ := @planDecision_of_path profile request snapshot step
    hCalibrated hStep h.plannable.distinct path hPath (lt_of_le_of_lt hRange (by decide))
  have hFirstCost : first.length * step.toNat ≤ maxInt64 :=
    (Nat.mul_le_mul_right _ (hFirst.length_le hPath)).trans hRange
  have hFollows : ∀ type reason, ((calibratedBase profile request snapshot).considering step first
      type reason).Follows profile request snapshot :=
    fun type reason => considering_follows hFirst.joins.subset
  refine ⟨first, hFirst, hNonempty, ?_⟩
  obtain ⟨-, hPlan⟩ | ⟨-, -, hPlan⟩ | ⟨-, -, hPlan⟩ :=
    @planPath_cases (calibratedBase profile request snapshot) profile.directCost step first
  all_goals
    rw [hPlan] at hDecision ⊢
    refine h.plan_run hProfile hDecision (hFollows _ _) ?_
    refine storable_considering hNonempty hStep.positive hFirstCost hDirect ?_
    simp [calibratedBase, planBase]

end PlanningReady

/-! ## The choice between the path and the direct verification -/

/-- A fully witnessed path from the start to the target that costs no more than the direct
verification. -/
structure Reusable (snapshot : TrustViewSnapshot)
    (step directCost : UInt64) (path : List TrustEdge) : Prop where
  joins : snapshot.Joins path
  witnessed : Witnessed path
  cost : path.length * step.toNat ≤ directCost.toNat

/-- `Plan` returns a plan of the given type, and a direct one with a reason. -/
def Returns (keccak : Keccak) (profiles : Bytes32 → Option DirectProfile) (request : PlanRequest)
    (db : WorkDB) (type : PlanType) : Prop :=
  ∃ planned, (plan keccak profiles request db).1 = .ok planned ∧ planned.type = type ∧
    (type = .direct → planned.fallbackReason ≠ none)

/-- The plan takes a path exactly if there is one that can be reused, and is direct otherwise. -/
def DecisionRule (keccak : Keccak) (profiles : Bytes32 → Option DirectProfile)
    (request : PlanRequest) (db : WorkDB) (snapshot : TrustViewSnapshot)
    (step directCost : UInt64) : Prop :=
  (Returns keccak profiles request db .path ↔ ∃ path, Reusable snapshot step directCost path) ∧
    ((¬ ∃ path, Reusable snapshot step directCost path) →
      Returns keccak profiles request db .direct)

/-- If a path can be reused, the first path is fully witnessed. -/
def FirstPathWitnessed (snapshot : TrustViewSnapshot) (step directCost : UInt64) : Prop :=
  (∃ path, Reusable snapshot step directCost path) →
    ∀ first, snapshot.IsFirstPath first → Witnessed first

theorem returns_iff {keccak : Keccak} {request : PlanRequest} {db db' : WorkDB} {planned : Plan}
    (hRun : plan keccak profiles request db = (.ok planned, db')) {type : PlanType} :
    Returns keccak profiles request db type ↔
      planned.type = type ∧ (type = .direct → planned.fallbackReason ≠ none) := by
  unfold Returns
  rw [hRun]
  constructor
  · rintro ⟨other, hOther, hDecided⟩
    rwa [Except.ok.inj hOther]
  · intro hDecided
    exact ⟨planned, rfl, hDecided⟩

/-- The paths cost no less than the first one. -/
theorem Reusable.first_cost {snapshot : TrustViewSnapshot} {directCost : UInt64}
    {path first : List TrustEdge} (hPath : Reusable snapshot step directCost path)
    (hFirst : snapshot.IsFirstPath first) : first.length * step.toNat ≤ directCost.toNat := by
  exact (Nat.mul_le_mul_right _ (hFirst.length_le hPath.joins)).trans hPath.cost

namespace Toy

open Contracts

/-- The node of a block. -/
def planNode (chainID height : Bytes32) : TrustNode :=
  newTrustNode Chain.toyKeccak ⟨chainID, height, 1000 + height⟩ 44 0

/-- An edge of step cost 5. -/
def planEdge (fromNode toNode : TrustNode) (evidenceID : EvidenceID) (witnessID : Option WitnessID) :
    TrustEdge where
  id := Chain.toyKeccak (edgeEncoded fromNode.id toNode.id evidenceID 1)
  fromID := fromNode.id
  toID := toNode.id
  evidenceID := evidenceID
  leafIndex := 1
  witnessID := witnessID
  pathStepCost := 5

/-- Home block 5 reaches block 3 of chain 2 by an edge with the given witness, and by two witnessed
edges over chain 3. -/
def planSnapshot (witnessID : Option WitnessID) : TrustViewSnapshot where
  id := computeSnapshotID Chain.toyKeccak 9 0 1 (planNode 1 5).id (planNode 2 3).id 44
  revision := 1
  homeChainID := 1
  homeTrustRoot := 44
  startNodeID := (planNode 1 5).id
  targetNodeID := (planNode 2 3).id
  isSealed := true
  nodes := [planNode 1 5, planNode 2 3, planNode 3 4]
  edges := [planEdge (planNode 1 5) (planNode 2 3) 21 witnessID,
    planEdge (planNode 1 5) (planNode 3 4) 22 (some 32),
    planEdge (planNode 3 4) (planNode 2 3) 23 (some 33)]

theorem planRequests_nodup :
    ([⟨⟨9, 1, 10, 7, 0, 2, 3, 1003⟩, .evidenceReady, "", 1⟩].map fun row : Request => row.id).Nodup := by
  decide

/-- The request for block 3 of chain 2, and the snapshot. -/
def planDB (witnessID : Option WitnessID) : WorkDB :=
  { WorkDB.empty with
    store := { DB.empty with
      requests := ⟨[⟨⟨9, 1, 10, 7, 0, 2, 3, 1003⟩, .evidenceReady, "", 1⟩],
        planRequests_nodup⟩
      snapshots := ⟨[planSnapshot witnessID], by simp⟩ } }

/-- The first attempt of the request. -/
def planRequest : PlanRequest :=
  ⟨9, 0, (planSnapshot none).id, 1⟩

/-- The direct verification costs as much as two edges. -/
def planProfile : DirectProfile :=
  ⟨"direct", 5, 10, true⟩

theorem planRequest_ready (witnessID : Option WitnessID)
    (hWitness : witnessID = none ∨ witnessID = some 31) :
    PlanningReady Chain.toyKeccak (planDB witnessID) planProfile planRequest
      (planSnapshot witnessID) := by
  have hNamed : ∀ plan ∈ (planDecision planProfile planRequest (planSnapshot witnessID)).toOption,
      plan.computeID Chain.toyKeccak ≠ 0 := by
    rcases hWitness with rfl | rfl <;> decide +kernel
  have hPlannable : Plannable Chain.toyKeccak planRequest (planSnapshot witnessID) := by
    refine planSnapshot_eq_ok.mp ?_
    rcases hWitness with rfl | rfl <;> decide +kernel
  refine ⟨?_, hPlannable.graph⟩
  constructor
  case loaded => rcases hWitness with rfl | rfl <;> decide +kernel
  case requested => exact hPlannable.toRequested
  case named =>
    intro plan hPlan
    refine ⟨hNamed plan (by simp [hPlan, Except.toOption]), ?_⟩
    simp [planDB, WorkDB.empty]
  case snapshotID => rcases hWitness with rfl | rfl <;> decide +kernel
  all_goals simp [planDB, planRequest, planProfile, WorkDB.empty, maxInt64]

theorem planSnapshot_uniformCost (witnessID : Option WitnessID) :
    (planSnapshot witnessID).UniformCost 5 where
  uniform := by simp [planSnapshot, planEdge]
  positive := by decide
  range := by simp [planSnapshot]

end Toy

/-- `Plan` decides about the first path only, so the rule holds exactly if that path is witnessed
whenever some path can be reused. -/
theorem decisionRule_iff_firstPathWitnessed {keccak : Keccak} {db : WorkDB}
    {profile : DirectProfile} {request : PlanRequest} {snapshot : TrustViewSnapshot}
    (hReady : PlanningReady keccak db profile request snapshot)
    (hProfile : profiles request.homeChainID = some profile)
    (hCalibrated : profile.calibrated = true) (hDirect : profile.directCost.toNat < 2 ^ 63)
    (hCost : snapshot.UniformCost step) (hRange : snapshot.edges.length * step.toNat < 2 ^ 63) :
    DecisionRule keccak profiles request db snapshot step profile.directCost ↔
      FirstPathWitnessed snapshot step profile.directCost := by
  have hMax : maxInt64 = 2 ^ 63 - 1 := rfl
  have hLookup : (profiles request.homeChainID).getD unavailableProfile = profile := by
    rw [hProfile, Option.getD_some]
  by_cases hJoined : ∃ path, snapshot.Joins path
  · obtain ⟨path, hPath⟩ := hJoined
    obtain ⟨short, hShort, hLength, -⟩ := Digraph.Edges.IsPath.exists_length_le hPath
    have hShortCost : short.length * step.toNat ≤ snapshot.edges.length * step.toNat :=
      Nat.mul_le_mul_right _ hLength
    obtain ⟨first, hFirst, -, hRun⟩ := hReady.plan_of_path hLookup hCalibrated (by omega)
      hCost.uniformStep hShort (by omega)
    have hFirstCost : (UInt64.ofNat first.length * step).toNat = first.length * step.toNat :=
      (multiple_of_range hCost.positive
        (hCost.length_mul_lt ((hFirst.length_le hShort).trans hLength))).1
    have hUnique : ∀ other, snapshot.IsFirstPath other → other = first :=
      fun other hOther => hOther.unique hReady.plannable.validEdges.unique hFirst
    rw [DecisionRule, returns_iff hRun, returns_iff hRun]
    obtain ⟨hAbove, hPlan⟩ | ⟨hWithin, hMissing, hPlan⟩ | ⟨hWithin, hWitnessed, hPlan⟩ :=
      @planPath_cases (calibratedBase profile request snapshot) profile.directCost step first
    · -- the first path is too expensive, and so are all others
      rw [hPlan]
      have hNone : ¬ ∃ path, Reusable snapshot step profile.directCost path := by
        rintro ⟨other, hOther⟩
        have hLe := hOther.first_cost hFirst
        rw [UInt64.lt_iff_toNat_lt, hFirstCost] at hAbove
        omega
      simp [FirstPathWitnessed, hNone, Plan.named, Plan.considering]
    · -- the first path is affordable, but it is not witnessed
      rw [hPlan]
      have hCondition : FirstPathWitnessed snapshot step profile.directCost ↔
          ¬ ∃ path, Reusable snapshot step profile.directCost path := by
        refine ⟨fun h hSome => hMissing (h hSome first hFirst), fun h hSome => absurd hSome h⟩
      rw [hCondition]
      simp [Plan.named, Plan.considering]
    · -- the first path can be reused
      rw [hPlan]
      have hSome : ∃ path, Reusable snapshot step profile.directCost path := by
        refine ⟨first, hFirst.joins, hWitnessed, ?_⟩
        rw [UInt64.lt_iff_toNat_lt, hFirstCost] at hWithin
        omega
      have hCondition : FirstPathWitnessed snapshot step profile.directCost := by
        intro _ other hOther
        rw [hUnique other hOther]
        exact hWitnessed
      simp [hSome, hCondition, Plan.named, Plan.considering]
  · obtain ⟨decided, hType, hReason, hRun⟩ := hReady.plan_of_noPath hLookup hCalibrated
      (by omega) hCost.uniformStep hJoined
    have hNone : ¬ ∃ path, Reusable snapshot step profile.directCost path := by
      rintro ⟨path, hPath⟩
      exact hJoined ⟨path, hPath.joins⟩
    rw [DecisionRule, returns_iff hRun, returns_iff hRun]
    simp [FirstPathWitnessed, hNone, Plan.named, hType, hReason]

theorem decisionRule_witnessed_toy :
    DecisionRule Contracts.Chain.toyKeccak (fun _ => some Toy.planProfile) Toy.planRequest
      (Toy.planDB (some 31)) (Toy.planSnapshot (some 31)) 5 10 := by
  refine (decisionRule_iff_firstPathWitnessed (Toy.planRequest_ready (some 31) (Or.inr rfl)) rfl rfl
    (by decide) (Toy.planSnapshot_uniformCost (some 31)) (by simp [Toy.planSnapshot])).mpr ?_
  intro _ first hFirst edge hMem
  have hEdge := hFirst.joins.subset edge hMem
  simp only [TrustViewSnapshot.graph, Toy.planSnapshot, List.mem_cons, List.not_mem_nil,
    or_false] at hEdge
  rcases hEdge with rfl | rfl | rfl <;> simp [Toy.planEdge]

/-- The edge without a witness comes first, so the two witnessed edges are not looked at. -/
theorem decisionRule_fails_behind_unwitnessed :
    PlanningReady Contracts.Chain.toyKeccak (Toy.planDB none) Toy.planProfile Toy.planRequest
        (Toy.planSnapshot none) ∧
      (Toy.planSnapshot none).UniformCost 5 ∧
      ¬ DecisionRule Contracts.Chain.toyKeccak (fun _ => some Toy.planProfile) Toy.planRequest
        (Toy.planDB none) (Toy.planSnapshot none) 5 10 := by
  refine ⟨Toy.planRequest_ready none (Or.inl rfl), Toy.planSnapshot_uniformCost none, ?_⟩
  rintro ⟨hPath, -⟩
  have hReusable : Reusable (Toy.planSnapshot none) 5 10
      [Toy.planEdge (Toy.planNode 1 5) (Toy.planNode 3 4) 22 (some 32),
        Toy.planEdge (Toy.planNode 3 4) (Toy.planNode 2 3) 23 (some 33)] := by
    refine ⟨?_, ?_, by decide⟩
    · simp [TrustViewSnapshot.Joins, Digraph.Edges.isPath_cons, TrustViewSnapshot.graph,
        Toy.planSnapshot, Toy.planEdge]
    · simp [Witnessed, Toy.planEdge]
  obtain ⟨planned, hRun, hType, -⟩ := hPath.mpr ⟨_, hReusable⟩
  obtain ⟨snapshot, decided, hFind, -, hDecision, rfl, -⟩ := plan_eq_ok (Process.eq_of_fst hRun)
  obtain rfl : Toy.planSnapshot none = snapshot :=
    Option.some.inj ((Toy.planRequest_ready none (Or.inl rfl)).loaded.symm.trans hFind)
  have hDirect : (planDecision Toy.planProfile Toy.planRequest
      (Toy.planSnapshot none)).toOption.map (·.type) = some .direct := by
    decide +kernel
  rw [Option.getD_some] at hDecision
  rw [hDecision] at hDirect
  have hDecided : decided.type = .direct := by simpa [Except.toOption] using hDirect
  rw [Plan.named, hDecided] at hType
  cases hType

/-! ## The path is canonical -/

/-- On a valid graph with one positive step cost, with a path whose cost is in range, the search
returns the only first path and its cost, however the nodes and edges are listed; and `Plan`
carries that path at its number of hops times the step cost. -/
theorem shortestPath_canonical {keccak : Keccak} {snapshot : TrustViewSnapshot}
    (hGraph : snapshot.checkGraph keccak = .ok ()) (hStep : snapshot.UniformStep step)
    (hPath : ∃ path, snapshot.Joins path ∧ pathCost path < 2 ^ 64) :
    ∃ first cost, snapshot.IsFirstPath first ∧
      (∀ other, snapshot.IsFirstPath other → other = first) ∧
      cost.toNat = first.length * step.toNat ∧
      ∀ nodes edges, nodes.Perm snapshot.nodes → edges.Perm snapshot.edges →
        (snapshot.relisted nodes edges).shortestPath = .ok (first, cost) ∧
        (∀ (profiles : Bytes32 → Option DirectProfile) request,
          Plannable keccak request (snapshot.relisted nodes edges) →
          ∃ planned, planFor keccak (profiles request.homeChainID) request
            (snapshot.relisted nodes edges) = .ok planned ∧
            planned.Carries ((profiles request.homeChainID).getD unavailableProfile).calibrated
              step first cost) ∧
        ∀ (profiles : Bytes32 → Option DirectProfile) request db db' planned,
          db.store.snapshots.find? request.snapshotID = some (snapshot.relisted nodes edges) →
          plan keccak profiles request db = (.ok planned, db') →
          planned.Carries ((profiles request.homeChainID).getD unavailableProfile).calibrated
            step first cost := by
  obtain ⟨path, hJoins, hRange⟩ := hPath
  rw [hStep.pathCost_eq hJoins] at hRange
  obtain ⟨first, cost, hFound⟩ := hStep.shortestPath_of_range hJoins hRange
  obtain ⟨hFirst, hCost⟩ := hStep.isFirstPath_of_shortestPath hFound
  have hUnique : ∀ other, snapshot.IsFirstPath other → other = first :=
    fun other hOther =>
      hOther.unique (TrustViewSnapshot.valid_of_checkGraph hGraph).2.unique hFirst
  refine ⟨first, cost, hFirst, hUnique, hCost, ?_⟩
  intro nodes edges _ hEdges
  have hStep' : (snapshot.relisted nodes edges).UniformStep step := hStep.relisted hEdges
  have hFirst' : (snapshot.relisted nodes edges).IsFirstPath first :=
    (TrustViewSnapshot.isFirstPath_relisted hEdges).mpr hFirst
  have hUnique' : ∀ other, (snapshot.relisted nodes edges).IsFirstPath other → other = first :=
    fun other hOther => hUnique other ((TrustViewSnapshot.isFirstPath_relisted hEdges).mp hOther)
  have hDecision : ∀ profile request,
      Plannable keccak request (snapshot.relisted nodes edges) →
      ∃ decided, planDecision profile request (snapshot.relisted nodes edges) = .ok decided ∧
        decided.Carries profile.calibrated step first cost :=
    fun profile request h => planDecision_carries hStep' h.distinct hFirst' hUnique' hCost
  refine ⟨?_, ?_, ?_⟩
  · obtain ⟨path', cost', hFound'⟩ :=
      hStep'.shortestPath_of_range hFirst'.joins (hCost ▸ cost.toNat_lt)
    obtain ⟨hPath', hCost'⟩ := hStep'.isFirstPath_of_shortestPath hFound'
    obtain rfl := hUnique' path' hPath'
    rw [hFound', UInt64.toNat_inj.mp (hCost'.trans hCost.symm)]
  · intro profiles request hPlannable
    obtain ⟨decided, hDecided, hCarries⟩ :=
      hDecision ((profiles request.homeChainID).getD unavailableProfile) request hPlannable
    exact ⟨_, planFor_eq_ok.mpr ⟨hPlannable, decided, hDecided, rfl⟩, hCarries.named keccak⟩
  · intro profiles request db db' planned hFind hRun
    obtain ⟨loaded, decided, hLoaded, hPlannable, hDecided, rfl, -⟩ := plan_eq_ok hRun
    obtain rfl := Option.some.inj (hLoaded.symm.trans hFind)
    obtain ⟨other, hOther, hCarries⟩ := hDecision _ request hPlannable
    obtain rfl := Except.ok.inj (hOther.symm.trans hDecided)
    exact hCarries.named keccak

/-- The toy graph with its lists reversed. -/
theorem shortestPath_canonical_toy :
    ∃ first cost, ((Toy.planSnapshot none).relisted (Toy.planSnapshot none).nodes.reverse
      (Toy.planSnapshot none).edges.reverse).shortestPath = .ok (first, cost) ∧
      cost.toNat = first.length * 5 := by
  have hReady := Toy.planRequest_ready none (Or.inl rfl)
  have hPath : ∃ path, (Toy.planSnapshot none).Joins path ∧ pathCost path < 2 ^ 64 := by
    refine ⟨[Toy.planEdge (Toy.planNode 1 5) (Toy.planNode 2 3) 21 none], ?_, by decide⟩
    simp [TrustViewSnapshot.Joins, Digraph.Edges.isPath_cons, TrustViewSnapshot.graph,
      Toy.planSnapshot, Toy.planEdge]
  obtain ⟨first, cost, -, -, hCost, hRelisted⟩ := shortestPath_canonical hReady.plannable.graph
    (Toy.planSnapshot_uniformCost none).uniformStep hPath
  exact ⟨first, cost,
    (hRelisted _ _ (List.reverse_perm _) (List.reverse_perm _)).1, hCost⟩

end TrustMap.Mapnode.Store
