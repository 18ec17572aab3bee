import TrustMap.Library.Process
import TrustMap.Mapnode.Store.Work

/-!
`PlanRepository`, and `Planner.Plan` as it runs on the database: it loads the snapshot, decides,
saves the plan and returns the stored one.
-/

namespace TrustMap.Mapnode.Store

open Transaction

/-- A process on the database of the worker. -/
abbrev WorkProcess (α : Type) := Process WorkDB WorkError α

/-! ## The repository -/

/-- `LoadTrustViewSnapshot`. -/
def loadTrustViewSnapshot (id : Bytes32) : WorkTx TrustViewSnapshot := do
  let row ← gets (·.store.snapshots.find? id)
  expect row (.store .recordNotFound)

/-- `loadPlan`. -/
def loadPlan (keccak : Keccak) (id : Bytes32) : WorkTx Plan := do
  let row ← gets (·.plans.find? id)
  let plan ← expect row .planNotFound
  require (plan.id = plan.computeID keccak) .planIDMismatch
  return plan

/-- `LoadCurrentPlan`. -/
def loadCurrentPlan (keccak : Keccak) (requestID : Bytes32) : WorkTx Plan := do
  let row ← gets (·.currentPlans.find? requestID)
  let current ← expect row .planNotFound
  loadPlan keccak current.planID

/-- A cost that SQLite can hold. -/
def costInRange (cost : Option UInt64) : Prop :=
  ∀ value ∈ cost, value.toNat ≤ maxInt64

instance (cost : Option UInt64) : Decidable (costInRange cost) :=
  match cost with
  | none => isTrue (by simp [costInRange])
  | some value => decidable_of_iff (value.toNat ≤ maxInt64) (by simp [costInRange])

/-- What `validatePlanForStorage` asks of the costs of a path. -/
def Plan.pathCostConsistent (plan : Plan) : Prop :=
  plan.pathStepCost ≠ 0 ∧ plan.pathCost = some (UInt64.ofNat plan.hops.length * plan.pathStepCost) ∧
    ¬ maxUint64 / plan.pathStepCost < UInt64.ofNat plan.hops.length

instance (plan : Plan) : Decidable (Plan.pathCostConsistent plan) :=
  inferInstanceAs (Decidable (_ ∧ _))

/-- `validatePlanForStorage`. -/
def validatePlanForStorage (plan : Plan) : Except StoreError Unit := do
  Checks.require (plan.id ≠ 0 ∧ plan.requestID ≠ 0 ∧ plan.snapshotID ≠ 0 ∧ plan.homeNodeID ≠ 0 ∧
    plan.targetNodeID ≠ 0 ∧ plan.profileID ≠ "") (.invalidInput "plan identity fields are required")
  Checks.require (plan.attempt.toNat ≤ maxInt64 ∧ plan.pathStepCost.toNat ≤ maxInt64)
    (.invalidInput "plan integer exceeds SQLite range")
  Checks.require (costInRange plan.pathCost ∧ costInRange plan.directCost)
    (.invalidInput "plan cost exceeds SQLite range")
  if plan.hops ≠ [] then
    Checks.require (Plan.pathCostConsistent plan)
      (.invalidInput "plan path cost does not match hop count and trusted step cost")
  else
    Checks.require (plan.pathCost = none ∧ plan.pathStepCost = 0)
      (.invalidInput "zero-hop plan must not persist a path cost")
  match plan.type with
  | .path =>
      Checks.require (plan.hops ≠ [] ∧ plan.pathCost ≠ none ∧ plan.directCost ≠ none ∧
        plan.fallbackReason = none) (.invalidInput "invalid PathPlan persistence fields")
  | .direct =>
      Checks.require (plan.fallbackReason ≠ none)
        (.invalidInput "DirectPlan requires fallback reason")

/-- `validatePlanSnapshotBinding`. -/
def validatePlanSnapshotBinding (keccak : Keccak) (plan : Plan) : WorkTx Unit := do
  let row ← gets (·.store.snapshots.find? plan.snapshotID)
  let snapshot ← expect row (.store .noRows)
  require snapshot.isSealed .snapshotUnsealed
  require (computeSnapshotID keccak plan.requestID plan.attempt snapshot.revision
      snapshot.startNodeID snapshot.targetNodeID snapshot.homeTrustRoot = plan.snapshotID ∧
    snapshot.startNodeID = plan.homeNodeID ∧ snapshot.targetNodeID = plan.targetNodeID)
    .snapshotEndpoint

/-- The foreign keys and triggers of `plans` and `plan_hops`. -/
def WorkDB.planAdmissible (db : WorkDB) (plan : Plan) : Prop :=
  (∃ request ∈ db.store.requests.rows, request.id = plan.requestID) ∧
    (∃ snapshot ∈ db.store.snapshots.rows, snapshot.id = plan.snapshotID ∧ snapshot.isSealed ∧
      (∃ node ∈ snapshot.nodes, node.id = plan.homeNodeID) ∧
      (∃ node ∈ snapshot.nodes, node.id = plan.targetNodeID) ∧
      ∀ hop ∈ plan.hops, ∃ edge ∈ snapshot.edges, edge.id = hop) ∧
    ∀ other ∈ db.plans.rows, ¬ (other.requestID = plan.requestID ∧ other.attempt = plan.attempt)

instance (db : WorkDB) (plan : Plan) : Decidable (db.planAdmissible plan) :=
  inferInstanceAs (Decidable (_ ∧ _))

/-- `INSERT INTO plans` with the rows of `plan_hops`. -/
def insertPlan (plan : Plan) : WorkTx Unit := fun db =>
  if db.planAdmissible plan then
    match db.plans.insert? plan with
    | some plans => .ok ((), { db with plans := plans })
    | none => .error (.store .constraint)
  else .error (.store .constraint)

/-- `INSERT INTO request_current_plan … ON CONFLICT(request_id) DO UPDATE`; a plan is current for
the one request it belongs to. -/
def setCurrentPlan (row : CurrentPlan) : WorkTx Unit := fun db =>
  if (∃ plan ∈ db.plans.rows, plan.requestID = row.requestID ∧ plan.id = row.planID) ∧
      ∀ other ∈ db.currentPlans.rows, other.planID = row.planID → other.requestID = row.requestID then
    .ok ((), { db with currentPlans := db.currentPlans.upsert row })
  else .error (.store .constraint)

/-- The part of `SavePlan` for a request without a current plan of this attempt. -/
def storePlan (keccak : Keccak) (plan : Plan) : WorkTx Unit := do
  validatePlanSnapshotBinding keccak plan
  match ← gets (·.plans.find? plan.id) with
  | some _ =>
      let persisted ← loadPlan keccak plan.id
      require (persisted = plan) (.store .recordConflict)
      setCurrentPlan ⟨plan.requestID, plan.id⟩
  | none =>
      let taken ← gets fun db => db.plans.rows.any fun other =>
        other.requestID = plan.requestID ∧ other.attempt = plan.attempt
      require (taken = false) (.store .recordConflict)
      insertPlan plan
      setCurrentPlan ⟨plan.requestID, plan.id⟩

/-- The current plan of a request, as `SavePlan` joins it. -/
def WorkDB.currentPlan (db : WorkDB) (requestID : Bytes32) : Option Plan :=
  (db.currentPlans.find? requestID).bind fun row => db.plans.find? row.planID

/-- `SavePlan`; plans are compared as a whole. -/
def savePlan (keccak : Keccak) (plan : Plan) : WorkTx Unit := do
  require (plan.id = plan.computeID keccak) .planIDMismatch
  check (validatePlanForStorage plan) .store
  match ← gets (·.currentPlan plan.requestID) with
  | some current =>
      require (¬ plan.attempt < current.attempt) .stalePlanningAttempt
      if plan.attempt = current.attempt then
        require (current.id = plan.id) (.store .recordConflict)
        let persisted ← loadPlan keccak plan.id
        require (persisted = plan) (.store .recordConflict)
      else storePlan keccak plan
  | none => storePlan keccak plan

/-! ## What is stored when a plan is saved -/

theorem loadPlan_ensures {P : WorkDB → Prop} {keccak : Keccak} {id : Bytes32} :
    Ensures P (loadPlan keccak id) fun plan db =>
      P db ∧ db.plans.find? id = some plan ∧ plan.id = plan.computeID keccak := by
  refine .gets fun row => .expect fun plan hRow => .require fun hID => .pure fun db h => ?_
  exact ⟨h.1, h.2.trans hRow, hID⟩

theorem insertPlan_ensures {plan : Plan} :
    Ensures (fun _ => True) (insertPlan plan) fun _ db => db.plans.find? plan.id = some plan := by
  intro db _ u db' hRun
  unfold insertPlan at hRun
  split at hRun
  · split at hRun
    · rename_i plans hInsert
      cases hRun
      refine Table.find?_eq_some.mpr ⟨?_, rfl⟩
      rw [(Table.insert?_eq_some.mp hInsert).2]
      exact List.mem_append_right _ (List.mem_singleton_self plan)
    · cases hRun
  · cases hRun

theorem setCurrentPlan_ensures {row : CurrentPlan} {id : Bytes32} {plan : Plan} :
    Ensures (fun db => db.plans.find? id = some plan) (setCurrentPlan row) fun _ db =>
      db.plans.find? id = some plan := by
  intro db hFind u db' hRun
  unfold setCurrentPlan at hRun
  split at hRun
  · cases hRun
    exact hFind
  · cases hRun

theorem storePlan_ensures {keccak : Keccak} {plan : Plan} :
    Ensures (fun _ => True) (storePlan keccak plan) fun _ db =>
      db.plans.find? plan.id = some plan := by
  refine .seq ?_ fun _ => .read fun row => ?_
  · exact fun _ _ _ _ _ => trivial
  · cases row with
    | some _ =>
        refine .bind loadPlan_ensures fun persisted => .require fun hSame => ?_
        refine setCurrentPlan_ensures.pre fun db h => ?_
        rw [h.2.1, hSame]
    | none =>
        refine .read fun taken => .require fun _ => ?_
        exact .bind insertPlan_ensures fun _ => setCurrentPlan_ensures

/-- A plan that was saved is the one stored under its identifier. -/
theorem savePlan_ensures {keccak : Keccak} {plan : Plan} :
    Ensures (fun _ => True) (savePlan keccak plan) fun _ db =>
      db.plans.find? plan.id = some plan := by
  refine .require fun _ => .check fun _ _ => .read fun current => ?_
  cases current with
  | none => exact storePlan_ensures
  | some current =>
      refine .require fun _ => .ite (fun _ => ?_) fun _ => storePlan_ensures
      refine .require fun _ => .bind loadPlan_ensures fun persisted => .require_last ?_
      intro hSame db h
      rw [h.2.1, hSame]

theorem savePlan_valid {keccak : Keccak} {plan : Plan} :
    Ensures (fun _ => True) (savePlan keccak plan) fun _ _ => validatePlanForStorage plan = .ok () :=
  .require fun _ => .check fun _ hValid _ _ _ _ _ => hValid

/-! ## The planner -/

/-- `Planner.Plan`. -/
def plan (keccak : Keccak) (profiles : Bytes32 → Option DirectProfile) (request : PlanRequest) :
    WorkProcess Plan := do
  let snapshot ← .atomically (loadTrustViewSnapshot request.snapshotID)
  let planned ← .check (planFor keccak (profiles request.homeChainID) request snapshot) .planning
  .atomically (savePlan keccak planned)
  .atomically (loadPlan keccak planned.id)

theorem loadTrustViewSnapshot_ok {db db' : WorkDB} {id : Bytes32} {snapshot : TrustViewSnapshot}
    (hRun : loadTrustViewSnapshot id db = .ok (snapshot, db')) :
    db.store.snapshots.find? id = some snapshot ∧ db' = db := by
  rw [loadTrustViewSnapshot, gets_bind_apply] at hRun
  cases hFind : db.store.snapshots.find? id with
  | none =>
      rw [hFind] at hRun
      cases hRun
  | some row =>
      rw [hFind] at hRun
      cases hRun
      exact ⟨rfl, rfl⟩

/-- `Plan` returns what it has decided on the stored snapshot, once that is stored. -/
theorem plan_eq_ok {keccak : Keccak} {profiles : Bytes32 → Option DirectProfile}
    {request : PlanRequest} {db db' : WorkDB} {planned : Plan}
    (hRun : plan keccak profiles request db = (.ok planned, db')) :
    ∃ snapshot decided, db.store.snapshots.find? request.snapshotID = some snapshot ∧
      Plannable keccak request snapshot ∧
      planDecision ((profiles request.homeChainID).getD unavailableProfile) request snapshot =
        .ok decided ∧ planned = decided.named keccak ∧
      validatePlanForStorage planned = .ok () ∧ db'.plans.find? planned.id = some planned := by
  obtain ⟨snapshot, _, hLoad, hRest⟩ := Process.bind_run_eq_ok.mp hRun
  obtain ⟨saved, _, hDecide, hPersist⟩ := Process.bind_run_eq_ok.mp hRest
  obtain ⟨_, stored, hSave, hReturn⟩ := Process.bind_run_eq_ok.mp hPersist
  obtain ⟨hPlanFor, rfl⟩ := Process.check_eq_ok.mp hDecide
  have hFind := loadTrustViewSnapshot_ok (Process.atomically_eq_ok.mp hLoad)
  obtain ⟨hPlannable, decided, hDecision, rfl⟩ := planFor_eq_ok.mp hPlanFor
  have hSaved := Process.atomically_eq_ok.mp hSave
  have hStored : stored.plans.find? (decided.named keccak).id = some (decided.named keccak) :=
    savePlan_ensures _ trivial _ _ hSaved
  obtain ⟨rfl, hReturned, -⟩ := loadPlan_ensures (P := (· = stored)) _ rfl _ _
    (Process.atomically_eq_ok.mp hReturn)
  obtain rfl : planned = decided.named keccak := Option.some.inj (hReturned.symm.trans hStored)
  exact ⟨snapshot, decided, hFind.1, hPlannable, hDecision, rfl,
    savePlan_valid _ trivial _ _ hSaved, hStored⟩

/-! ## Saving a plan for a new attempt -/

section NewAttempt

variable {keccak : Keccak} {db : WorkDB}

theorem loadPlan_of_find {id : Bytes32} {plan : Plan} (hFind : db.plans.find? id = some plan)
    (hID : plan.id = plan.computeID keccak) : loadPlan keccak id db = .ok (plan, db) := by
  rw [loadPlan, gets_bind_apply, hFind, expect_some_bind_apply, require_bind_apply, if_pos hID]
  rfl

theorem validatePlanSnapshotBinding_of_find {plan : Plan} {snapshot : TrustViewSnapshot}
    (hFind : db.store.snapshots.find? plan.snapshotID = some snapshot)
    (hSealed : snapshot.isSealed = true)
    (hBound : computeSnapshotID keccak plan.requestID plan.attempt snapshot.revision
        snapshot.startNodeID snapshot.targetNodeID snapshot.homeTrustRoot = plan.snapshotID)
    (hHome : snapshot.startNodeID = plan.homeNodeID)
    (hTarget : snapshot.targetNodeID = plan.targetNodeID) :
    validatePlanSnapshotBinding keccak plan db = .ok ((), db) := by
  rw [validatePlanSnapshotBinding, gets_bind_apply, hFind, expect_some_bind_apply,
    require_bind_apply, if_pos hSealed, Transaction.require, if_pos ⟨hBound, hHome, hTarget⟩]
  rfl

/-- The database with a plan that is new, and current for its request. -/
def WorkDB.addPlan (db : WorkDB) (plan : Plan) : WorkDB :=
  { db with
    plans := db.plans.insertIgnore plan
    currentPlans := db.currentPlans.upsert ⟨plan.requestID, plan.id⟩ }

/-- A plan for a later attempt than the plans a request has so far. -/
structure NewPlan (keccak : Keccak) (db : WorkDB) (plan : Plan) : Prop where
  id : plan.id = plan.computeID keccak
  valid : validatePlanForStorage plan = .ok ()
  binding : validatePlanSnapshotBinding keccak plan db = .ok ((), db)
  later : ∀ other ∈ db.plans.rows, other.requestID = plan.requestID → other.attempt < plan.attempt
  fresh : ∀ other ∈ db.plans.rows, other.id ≠ plan.id
  admissible : db.planAdmissible plan
  owned : ∀ row ∈ db.currentPlans.rows, ∃ other ∈ db.plans.rows, other.id = row.planID ∧
    other.requestID = row.requestID

namespace NewPlan

variable {plan : Plan} (h : NewPlan keccak db plan)

include h

theorem find?_none : db.plans.find? plan.id = none :=
  Table.find?_eq_none.mpr h.fresh

theorem rows :
    (db.addPlan plan).plans.rows = db.plans.rows ++ [plan] := by
  cases hInsert : db.plans.insert? plan with
  | none =>
      obtain ⟨other, hMem, hID⟩ := Table.insert?_eq_none.mp hInsert
      exact absurd hID (h.fresh other hMem)
  | some plans =>
      have hTable : (db.addPlan plan).plans = plans := by
        simp [WorkDB.addPlan, Table.insertIgnore, hInsert]
      rw [hTable]
      exact (Table.insert?_eq_some.mp hInsert).2

theorem insert? :
    db.plans.insert? plan = some (db.addPlan plan).plans :=
  Table.insert?_eq_some.mpr ⟨h.find?_none, h.rows⟩

theorem find? :
    (db.addPlan plan).plans.find? plan.id = some plan := by
  refine Table.find?_eq_some.mpr ⟨?_, rfl⟩
  rw [h.rows]
  exact List.mem_append_right _ (List.mem_singleton_self plan)

theorem storePlan :
    storePlan keccak plan db = .ok ((), db.addPlan plan) := by
  have hTaken : (db.plans.rows.any fun other =>
      other.requestID = plan.requestID ∧ other.attempt = plan.attempt) = false := by
    rw [List.any_eq_false]
    intro other hMem hSame
    obtain ⟨hRequest, hAttempt⟩ := of_decide_eq_true hSame
    have hLater := h.later other hMem hRequest
    rw [hAttempt] at hLater
    exact UInt64.lt_irrefl _ hLater
  have hInsert : insertPlan plan db = .ok ((), { db with plans := (db.addPlan plan).plans }) := by
    rw [insertPlan, if_pos h.admissible, h.insert?]
  have hCurrent : setCurrentPlan ⟨plan.requestID, plan.id⟩
      { db with plans := (db.addPlan plan).plans } = .ok ((), db.addPlan plan) := by
    have hOwn : ∃ other ∈ (db.addPlan plan).plans.rows,
        other.requestID = plan.requestID ∧ other.id = plan.id :=
      ⟨plan, (Table.find?_eq_some.mp h.find?).1, rfl, rfl⟩
    have hOnly : ∀ row ∈ db.currentPlans.rows, row.planID = plan.id →
        row.requestID = plan.requestID := by
      intro row hMem hPlan
      obtain ⟨other, hOther, hID, -⟩ := h.owned row hMem
      exact absurd (hID.trans hPlan) (h.fresh other hOther)
    exact if_pos ⟨hOwn, hOnly⟩
  rw [Store.storePlan, bind_of_ok h.binding, gets_bind_apply, h.find?_none]
  simp only
  rw [gets_bind_apply, require_bind_apply, if_pos hTaken, bind_of_ok hInsert, hCurrent]

/-- The plan is stored and becomes the current one. -/
theorem savePlan :
    savePlan keccak plan db = .ok ((), db.addPlan plan) := by
  have hValid : check (validatePlanForStorage plan) WorkError.store db = .ok ((), db) := by
    rw [h.valid]
    rfl
  rw [Store.savePlan, require_bind_apply, if_pos h.id, bind_of_ok hValid, gets_bind_apply]
  cases hCurrent : db.currentPlan plan.requestID with
  | none => exact h.storePlan
  | some current =>
      have hLater : current.attempt < plan.attempt := by
        obtain ⟨row, hRow, hFind⟩ := Option.bind_eq_some_iff.mp hCurrent
        obtain ⟨hMem, hID⟩ := Table.find?_eq_some.mp hFind
        obtain ⟨hRowMem, hRequest⟩ := Table.find?_eq_some.mp hRow
        obtain ⟨other, hOther, hOtherID, hOwner⟩ := h.owned row hRowMem
        obtain rfl : other = current := Table.eq_of_key hOther hMem (hOtherID.trans hID.symm)
        exact h.later other hMem (hOwner.trans hRequest)
      have hNotStale : ¬ plan.attempt < current.attempt := UInt64.not_lt.mpr (UInt64.le_of_lt hLater)
      have hNotSame : plan.attempt ≠ current.attempt := (UInt64.ne_of_lt hLater).symm
      simp only [require_bind_apply, if_pos hNotStale, if_neg hNotSame]
      exact h.storePlan

theorem loadPlan :
    loadPlan keccak plan.id (db.addPlan plan) = .ok (plan, db.addPlan plan) :=
  loadPlan_of_find h.find? h.id

end NewPlan

end NewAttempt

end TrustMap.Mapnode.Store
