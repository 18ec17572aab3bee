import Mathlib.Logic.Relation
import TrustMap.Mapnode.Store.Plans

/-!
The plans of a request over any calls of `SavePlan`. Plans are only appended, and the current plan is
the one with the highest attempt.
-/

namespace TrustMap.Mapnode.Store

open Transaction

/-! ## What a save does -/

section Steps

variable {keccak : Keccak} {db db' : WorkDB} {plan : Plan} {u : Unit}

theorem setCurrentPlan_eq_ok {row : CurrentPlan} (hRun : setCurrentPlan row db = .ok (u, db')) :
    db' = { db with currentPlans := db.currentPlans.upsert row } := by
  unfold setCurrentPlan at hRun
  split at hRun
  · cases hRun
    rfl
  · cases hRun

theorem insertPlan_eq_ok (hRun : insertPlan plan db = .ok (u, db')) :
    ∃ plans, db.plans.insert? plan = some plans ∧ db' = { db with plans := plans } := by
  unfold insertPlan at hRun
  split at hRun
  · split at hRun
    · rename_i plans hInsert
      cases hRun
      exact ⟨plans, hInsert, rfl⟩
    · cases hRun
  · cases hRun

theorem loadPlan_eq_ok {id : Bytes32} {loaded : Plan} (hRun : loadPlan keccak id db = .ok (loaded, db')) :
    db.plans.find? id = some loaded ∧ db' = db := by
  obtain ⟨rfl, hFind, -⟩ := loadPlan_ensures (P := (· = db)) db rfl loaded db' hRun
  exact ⟨hFind, rfl⟩

theorem validatePlanSnapshotBinding_state
    (hRun : validatePlanSnapshotBinding keccak plan db = .ok (u, db')) : db' = db := by
  have hKeep : Ensures (· = db) (validatePlanSnapshotBinding keccak plan) fun _ => (· = db) := by
    refine .read fun row => .expect fun snapshot _ => .require fun _ => .require_last ?_
    exact fun _ _ h => h
  exact hKeep db rfl u db' hRun

/-- `storePlan` makes a stored plan the current one, or appends the plan and makes it current. -/
theorem storePlan_eq_ok (hRun : storePlan keccak plan db = .ok (u, db')) :
    (db.plans.find? plan.id = some plan ∧
        db' = { db with currentPlans := db.currentPlans.upsert ⟨plan.requestID, plan.id⟩ }) ∨
      ∃ plans, db.plans.insert? plan = some plans ∧
        (∀ other ∈ db.plans.rows, ¬ (other.requestID = plan.requestID ∧ other.attempt = plan.attempt)) ∧
        db' = { db with
          plans := plans
          currentPlans := db.currentPlans.upsert ⟨plan.requestID, plan.id⟩ } := by
  obtain ⟨_, next, hBinding, hRest⟩ := bind_eq_ok.mp hRun
  clear hRun
  obtain rfl := validatePlanSnapshotBinding_state hBinding
  rw [gets_bind_apply] at hRest
  cases hFind : next.plans.find? plan.id with
  | some stored =>
      left
      rw [hFind] at hRest
      obtain ⟨persisted, loaded, hLoad, hLast⟩ := bind_eq_ok.mp hRest
      clear hRest
      obtain ⟨hPersisted, rfl⟩ := loadPlan_eq_ok hLoad
      rw [require_bind_apply] at hLast
      split at hLast
      · rename_i hSame
        subst hSame
        exact ⟨hFind.symm.trans hPersisted, setCurrentPlan_eq_ok hLast⟩
      · cases hLast
  | none =>
      right
      rw [hFind] at hRest
      simp only at hRest
      rw [gets_bind_apply, require_bind_apply] at hRest
      split at hRest
      · rename_i hTaken
        obtain ⟨_, inserted, hInsert, hCurrent⟩ := bind_eq_ok.mp hRest
        obtain ⟨plans, hPlans, rfl⟩ := insertPlan_eq_ok hInsert
        refine ⟨plans, hPlans, fun other hOther hSame => ?_, setCurrentPlan_eq_ok hCurrent⟩
        exact List.any_eq_false.mp hTaken other hOther (decide_eq_true hSame)
      · cases hRest

/-- The cases of a successful `SavePlan`. -/
theorem savePlan_eq_ok (hRun : savePlan keccak plan db = .ok (u, db')) :
    plan.id = plan.computeID keccak ∧ validatePlanForStorage plan = .ok () ∧
      ((db.currentPlan plan.requestID = some plan ∧ db' = db) ∨
        ((∀ current ∈ db.currentPlan plan.requestID, current.attempt < plan.attempt) ∧
          storePlan keccak plan db = .ok (u, db'))) := by
  rw [savePlan, require_bind_apply] at hRun
  split at hRun
  · rename_i hID
    obtain ⟨_, next, hCheck, hRest⟩ := bind_eq_ok.mp hRun
    clear hRun
    have hValid : validatePlanForStorage plan = .ok () ∧ next = db := by
      cases hResult : validatePlanForStorage plan with
      | error e =>
          rw [hResult] at hCheck
          cases hCheck
      | ok _ =>
          rw [hResult] at hCheck
          cases hCheck
          exact ⟨rfl, rfl⟩
    obtain ⟨hValid, rfl⟩ := hValid
    refine ⟨hID, hValid, ?_⟩
    rw [gets_bind_apply] at hRest
    cases hCurrent : next.currentPlan plan.requestID with
    | none =>
        rw [hCurrent] at hRest
        exact .inr ⟨by simp, hRest⟩
    | some current =>
        rw [hCurrent] at hRest
        simp only at hRest
        rw [require_bind_apply] at hRest
        split at hRest
        · rename_i hNotStale
          split at hRest
          · left
            rw [require_bind_apply] at hRest
            split at hRest
            · rename_i hSameID
              obtain ⟨persisted, loaded, hLoad, hLast⟩ := bind_eq_ok.mp hRest
              clear hRest
              obtain ⟨hPersisted, rfl⟩ := loadPlan_eq_ok hLoad
              obtain ⟨row, -, hFind⟩ := Option.bind_eq_some_iff.mp hCurrent
              have hStored : loaded.plans.find? plan.id = some current := by
                rw [← hSameID]
                exact Table.find?_key (Table.find?_eq_some.mp hFind).1
              unfold Transaction.require at hLast
              split at hLast
              · rename_i hSame
                cases hLast
                rw [← hSame]
                exact ⟨hStored.symm.trans hPersisted, rfl⟩
              · cases hLast
            · cases hRest
          · rename_i hOther
            refine .inr ⟨fun latest hLatest => ?_, hRest⟩
            obtain rfl := Option.some.inj hLatest
            exact lt_of_le_of_ne (UInt64.not_lt.mp hNotStale) (Ne.symm hOther)
        · cases hRest
  · cases hRun

end Steps

/-! ## Histories -/

/-- The plans of a database as `SavePlan` leaves them. -/
structure PlanHistory (keccak : Keccak) (db : WorkDB) : Prop where
  valid : ∀ plan ∈ db.plans.rows, plan.id = plan.computeID keccak ∧ validatePlanForStorage plan = .ok ()
  unique : ∀ plan ∈ db.plans.rows, ∀ other ∈ db.plans.rows, plan.requestID = other.requestID →
    plan.attempt = other.attempt → plan = other
  owned : ∀ row ∈ db.currentPlans.rows, ∃ plan ∈ db.plans.rows, plan.id = row.planID ∧
    plan.requestID = row.requestID
  latest : ∀ plan ∈ db.plans.rows, ∃ current, db.currentPlan plan.requestID = some current ∧
    plan.attempt ≤ current.attempt

/-- A call of `SavePlan`, or a change of other tables by another writer. -/
inductive PlanStep (keccak : Keccak) : WorkDB → WorkDB → Prop
  | save (db : WorkDB) (plan : Plan) : PlanStep keccak db (commit (savePlan keccak plan) db)
  | other {db db' : WorkDB} (hPlans : db'.plans = db.plans)
      (hCurrent : db'.currentPlans = db.currentPlans) : PlanStep keccak db db'

section History

variable {keccak : Keccak} {db db' : WorkDB} {plan : Plan} {u : Unit}

theorem currentPlan_congr (hPlans : db'.plans = db.plans)
    (hCurrent : db'.currentPlans = db.currentPlans) (requestID : Bytes32) :
    db'.currentPlan requestID = db.currentPlan requestID := by
  rw [WorkDB.currentPlan, WorkDB.currentPlan, hPlans, hCurrent]

/-- An older attempt, or other content for the current attempt, is refused. -/
theorem savePlan_refused {current : Plan}
    (hCurrent : db.currentPlan plan.requestID = some current)
    (hBad : plan.attempt < current.attempt ∨ plan.attempt = current.attempt ∧ plan ≠ current) :
    ∃ e, savePlan keccak plan db = .error e := by
  cases hRun : savePlan keccak plan db with
  | error e => exact ⟨e, rfl⟩
  | ok result =>
      obtain ⟨-, -, ⟨hSame, -⟩ | ⟨hLater, -⟩⟩ := savePlan_eq_ok hRun
      · obtain rfl := Option.some.inj (hCurrent.symm.trans hSame)
        rcases hBad with hLess | ⟨-, hNe⟩
        · exact absurd hLess (lt_irrefl _)
        · exact absurd rfl hNe
      · have hLess := hLater current hCurrent
        rcases hBad with hOld | ⟨hEq, -⟩
        · exact absurd hOld (not_lt_of_gt hLess)
        · exact absurd hEq.symm (ne_of_lt hLess)

namespace PlanHistory

theorem empty (hPlans : db.plans = .empty) (hCurrent : db.currentPlans = .empty) :
    PlanHistory keccak db := by
  constructor <;> simp [hPlans, hCurrent]

variable (h : PlanHistory keccak db)

include h

theorem congr (hPlans : db'.plans = db.plans)
    (hCurrent : db'.currentPlans = db.currentPlans) : PlanHistory keccak db' where
  valid := by
    rw [hPlans]
    exact h.valid
  unique := by
    rw [hPlans]
    exact h.unique
  owned := by
    rw [hPlans, hCurrent]
    exact h.owned
  latest := by
    rw [hPlans]
    intro plan hMem
    rw [currentPlan_congr hPlans hCurrent]
    exact h.latest plan hMem

/-- The current plan is a stored plan of its request. -/
theorem currentPlan_mem {requestID : Bytes32} {current : Plan}
    (hCurrent : db.currentPlan requestID = some current) :
    current ∈ db.plans.rows ∧ current.requestID = requestID := by
  obtain ⟨row, hRow, hFind⟩ := Option.bind_eq_some_iff.mp hCurrent
  obtain ⟨hMem, hID⟩ := Table.find?_eq_some.mp hFind
  obtain ⟨hRowMem, hRequest⟩ := Table.find?_eq_some.mp hRow
  obtain ⟨owner, hOwner, hOwnerID, hOwnerRequest⟩ := h.owned row hRowMem
  obtain rfl : owner = current := Table.eq_of_key hOwner hMem (hOwnerID.trans hID.symm)
  exact ⟨hMem, hOwnerRequest.trans hRequest⟩

/-- `LoadCurrentPlan` returns the current plan. -/
theorem loadCurrentPlan_eq_ok {requestID : Bytes32} {current : Plan} :
    loadCurrentPlan keccak requestID db = .ok (current, db) ↔
      db.currentPlan requestID = some current := by
  rw [loadCurrentPlan, gets_bind_apply, WorkDB.currentPlan]
  cases hRow : db.currentPlans.find? requestID with
  | none => exact iff_of_false nofun nofun
  | some row =>
      obtain ⟨plan, hMem, hID, -⟩ := h.owned row (Table.find?_eq_some.mp hRow).1
      have hFind : db.plans.find? row.planID = some plan := Table.find?_eq_some.mpr ⟨hMem, hID⟩
      rw [expect_some_bind_apply, loadPlan_of_find hFind (h.valid plan hMem).1, Option.bind_some,
        hFind]
      simp

/-- The current plan is the stored plan with the highest attempt. -/
theorem currentPlan_eq_some {requestID : Bytes32} {current : Plan} :
    db.currentPlan requestID = some current ↔
      current ∈ db.plans.rows ∧ current.requestID = requestID ∧
        ∀ other ∈ db.plans.rows, other.requestID = requestID → other.attempt ≤ current.attempt := by
  constructor
  · intro hCurrent
    obtain ⟨hMem, hRequest⟩ := h.currentPlan_mem hCurrent
    refine ⟨hMem, hRequest, fun other hOther hSame => ?_⟩
    obtain ⟨latest, hLatest, hLe⟩ := h.latest other hOther
    rw [hSame, hCurrent] at hLatest
    exact Option.some.inj hLatest ▸ hLe
  · rintro ⟨hMem, rfl, hHighest⟩
    obtain ⟨latest, hLatest, hLe⟩ := h.latest current hMem
    obtain ⟨hLatestMem, hRequest⟩ := h.currentPlan_mem hLatest
    have hAttempt : latest.attempt = current.attempt :=
      le_antisymm (hHighest latest hLatestMem hRequest) hLe
    rw [hLatest, h.unique latest hLatestMem current hMem hRequest hAttempt]

/-- A plan later than the current one is appended. -/
theorem append {plans : Table Plan.id}
    (hID : plan.id = plan.computeID keccak) (hValid : validatePlanForStorage plan = .ok ())
    (hLater : ∀ current ∈ db.currentPlan plan.requestID, current.attempt < plan.attempt)
    (hInsert : db.plans.insert? plan = some plans) :
    PlanHistory keccak { db with
      plans := plans
      currentPlans := db.currentPlans.upsert ⟨plan.requestID, plan.id⟩ } := by
  obtain ⟨hFresh, hRows⟩ := Table.insert?_eq_some.mp hInsert
  have hMem : ∀ other, other ∈ plans.rows ↔ other ∈ db.plans.rows ∨ other = plan := by
    intro other
    rw [hRows, List.mem_append, List.mem_singleton]
  have hBefore : ∀ other ∈ db.plans.rows, other.requestID = plan.requestID →
      other.attempt < plan.attempt := by
    intro other hOther hRequest
    obtain ⟨current, hCurrent, hLe⟩ := h.latest other hOther
    exact lt_of_le_of_lt hLe (hLater current (hRequest ▸ hCurrent))
  have hFind : ∀ other ∈ plans.rows, plans.find? other.id = some other := fun other hOther =>
    Table.find?_key hOther
  constructor
  case valid =>
    intro other hOther
    rcases (hMem other).mp hOther with hOld | rfl
    · exact h.valid other hOld
    · exact ⟨hID, hValid⟩
  case unique =>
    intro first hFirst second hSecond hRequest hAttempt
    rcases (hMem first).mp hFirst with hOld | rfl
    · rcases (hMem second).mp hSecond with hOld' | rfl
      · exact h.unique first hOld second hOld' hRequest hAttempt
      · exact absurd hAttempt (ne_of_lt (hBefore first hOld hRequest))
    · rcases (hMem second).mp hSecond with hOld' | rfl
      · exact absurd hAttempt.symm (ne_of_lt (hBefore second hOld' hRequest.symm))
      · rfl
  case owned =>
    intro row hRow
    rcases Table.mem_upsert.mp hRow with rfl | ⟨hOld, -⟩
    · exact ⟨plan, (hMem plan).mpr (.inr rfl), rfl, rfl⟩
    · obtain ⟨other, hOther, hSame⟩ := h.owned row hOld
      exact ⟨other, (hMem other).mpr (.inl hOther), hSame⟩
  case latest =>
    intro other hOther
    simp only [WorkDB.currentPlan, Table.find?_upsert]
    by_cases hRequest : other.requestID = plan.requestID
    · rw [if_pos hRequest]
      refine ⟨plan, hFind plan ((hMem plan).mpr (.inr rfl)), ?_⟩
      rcases (hMem other).mp hOther with hOld | rfl
      · exact le_of_lt (hBefore other hOld hRequest)
      · exact le_refl _
    · rw [if_neg hRequest]
      rcases (hMem other).mp hOther with hOld | rfl
      · obtain ⟨current, hCurrent, hLe⟩ := h.latest other hOld
        obtain ⟨row, hRow, hCurrentFind⟩ := Option.bind_eq_some_iff.mp hCurrent
        obtain ⟨hCurrentMem, hCurrentID⟩ := Table.find?_eq_some.mp hCurrentFind
        refine ⟨current, Option.bind_eq_some_iff.mpr ⟨row, hRow, ?_⟩, hLe⟩
        rw [← hCurrentID]
        exact hFind current ((hMem current).mpr (.inl hCurrentMem))
      · exact absurd rfl hRequest

/-- A successful `SavePlan` repeats the current plan or appends a later one. -/
theorem savePlan_cases (hRun : savePlan keccak plan db = .ok (u, db')) :
    (db.currentPlan plan.requestID = some plan ∧ db' = db) ∨
      (db'.plans.rows = db.plans.rows ++ [plan] ∧ PlanHistory keccak db') := by
  obtain ⟨hID, hValid, hSame | ⟨hLater, hStore⟩⟩ := savePlan_eq_ok hRun
  · exact .inl hSame
  · right
    rcases storePlan_eq_ok hStore with ⟨hFind, -⟩ | ⟨plans, hInsert, -, rfl⟩
    · -- A stored plan is no later than the current one, so it cannot come back as the next attempt.
      obtain ⟨current, hCurrent, hLe⟩ := h.latest plan (Table.find?_eq_some.mp hFind).1
      exact absurd (hLater current hCurrent) (not_lt_of_ge hLe)
    · exact ⟨(Table.insert?_eq_some.mp hInsert).2, h.append hID hValid hLater hInsert⟩

/-- What a step keeps. -/
theorem step (hStep : PlanStep keccak db db') :
    PlanHistory keccak db' ∧ db.plans.rows <+: db'.plans.rows := by
  cases hStep with
  | other hPlans hCurrent => exact ⟨h.congr hPlans hCurrent, hPlans ▸ List.prefix_rfl⟩
  | save plan =>
      cases hRun : savePlan keccak plan db with
      | error e =>
          rw [commit_of_error hRun]
          exact ⟨h, List.prefix_rfl⟩
      | ok result =>
          obtain ⟨u, next⟩ := result
          rw [commit_of_ok hRun]
          rcases h.savePlan_cases hRun with ⟨-, rfl⟩ | ⟨hRows, hNext⟩
          · exact ⟨h, List.prefix_rfl⟩
          · exact ⟨hNext, hRows ▸ List.prefix_append _ _⟩

/-- What a run keeps. -/
theorem run (hRun : Relation.ReflTransGen (PlanStep keccak) db db') :
    PlanHistory keccak db' ∧ db.plans.rows <+: db'.plans.rows := by
  induction hRun with
  | refl => exact ⟨h, List.prefix_rfl⟩
  | tail _ hStep ih =>
      obtain ⟨hNext, hPrefix⟩ := ih.1.step hStep
      exact ⟨hNext, ih.2.trans hPrefix⟩

/-- Saving the current plan again changes nothing. -/
theorem savePlan_current (hCurrent : db.currentPlan plan.requestID = some plan) :
    savePlan keccak plan db = .ok ((), db) := by
  obtain ⟨hMem, -⟩ := h.currentPlan_mem hCurrent
  obtain ⟨hID, hValid⟩ := h.valid plan hMem
  have hCheck : check (validatePlanForStorage plan) WorkError.store db = .ok ((), db) := by
    rw [hValid]
    rfl
  rw [savePlan, require_bind_apply, if_pos hID, bind_of_ok hCheck, gets_bind_apply, hCurrent]
  simp only
  rw [require_bind_apply, if_pos (lt_irrefl _), if_pos trivial, require_bind_apply, if_pos rfl,
    bind_of_ok (loadPlan_of_find (Table.find?_key hMem) hID), Transaction.require, if_pos rfl]
  rfl

end PlanHistory

end History

namespace HistoryToy

/-- A hash that is 5 everywhere; one plan is stored. -/
def keccak : Keccak := fun _ => 5

/-- The sealed snapshot of an attempt. -/
def snapshot (attempt : UInt64) : TrustViewSnapshot :=
  ⟨computeSnapshotID keccak 9 attempt 1 3 4 44, 1, 1, 44, 3, 4, true,
    [⟨3, ⟨1, 5, 6⟩, 44, 0⟩, ⟨4, ⟨2, 3, 7⟩, 45, 0⟩], []⟩

/-- A direct plan of request 9. -/
def plan (attempt : UInt64) (reason : FallbackReason) : Plan :=
  (Plan.mk 0 9 attempt (snapshot attempt).id "direct" 5 .direct 3 4 [] 0 none (some 7)
    (some reason)).named keccak

/-- The request and the snapshot of its second attempt. -/
def db : WorkDB :=
  { WorkDB.empty with
    store := { DB.empty with
      requests := ⟨[⟨⟨9, 1, 10, 7, 0, 2, 3, 1003⟩, .evidenceReady, "", 1⟩], by decide⟩
      snapshots := ⟨[snapshot 2], by simp⟩ } }

theorem newPlan : NewPlan keccak db (plan 2 .noPath) where
  id := rfl
  valid := by decide +kernel
  binding := by
    have hFind : db.store.snapshots.find? (snapshot 2).id = some (snapshot 2) :=
      Table.find?_key (List.mem_singleton_self _)
    exact validatePlanSnapshotBinding_of_find hFind rfl rfl rfl rfl
  later := by simp [db, WorkDB.empty]
  fresh := by simp [db, WorkDB.empty]
  admissible := by
    refine ⟨⟨_, List.mem_singleton_self _, rfl⟩, ⟨snapshot 2, List.mem_singleton_self _, rfl, rfl, ?_⟩, ?_⟩
    · exact ⟨⟨_, List.mem_cons_self, rfl⟩, ⟨_, List.mem_cons_of_mem _ List.mem_cons_self, rfl⟩,
        by simp [plan, Plan.named]⟩
    · simp [db, WorkDB.empty]
  owned := by simp [db, WorkDB.empty]

end HistoryToy

/-- After any calls of `SavePlan` the current plan of a request is its stored plan with the highest
attempt, `LoadCurrentPlan` returns it, there is one plan for each attempt, and later calls only append. The current plan can be saved
again without effect; an older attempt and other content for the current attempt are refused. -/
theorem plan_history_append_only {keccak : Keccak} {start db : WorkDB} (hPlans : start.plans = .empty)
    (hCurrent : start.currentPlans = .empty)
    (hRun : Relation.ReflTransGen (PlanStep keccak) start db) :
    (∀ requestID current, db.currentPlan requestID = some current ↔
      current ∈ db.plans.rows ∧ current.requestID = requestID ∧
        ∀ other ∈ db.plans.rows, other.requestID = requestID → other.attempt ≤ current.attempt) ∧
    (∀ requestID current, loadCurrentPlan keccak requestID db = .ok (current, db) ↔
      db.currentPlan requestID = some current) ∧
    (∀ plan ∈ db.plans.rows, ∀ other ∈ db.plans.rows, plan.requestID = other.requestID →
      plan.attempt = other.attempt → plan = other) ∧
    (∀ db', Relation.ReflTransGen (PlanStep keccak) db db' → db.plans.rows <+: db'.plans.rows) ∧
    (∀ plan, db.currentPlan plan.requestID = some plan → savePlan keccak plan db = .ok ((), db)) ∧
    ∀ plan current, db.currentPlan plan.requestID = some current →
      (plan.attempt < current.attempt ∨ plan.attempt = current.attempt ∧ plan ≠ current) →
      (∃ e, savePlan keccak plan db = .error e) ∧ commit (savePlan keccak plan) db = db := by
  obtain ⟨hHistory, -⟩ := (PlanHistory.empty hPlans hCurrent).run hRun
  refine ⟨fun _ _ => hHistory.currentPlan_eq_some, fun _ _ => hHistory.loadCurrentPlan_eq_ok,
    hHistory.unique, fun _ hLater => (hHistory.run hLater).2, fun _ hSame => hHistory.savePlan_current hSame, fun plan current hFound hBad => ?_⟩
  obtain ⟨e, hError⟩ := savePlan_refused hFound hBad
  exact ⟨⟨e, hError⟩, commit_of_error hError⟩

/-- A request whose second attempt is planned: the plan is current, and the first attempt comes too
late. -/
theorem plan_history_append_only_toy :
    let planned := HistoryToy.db.addPlan (HistoryToy.plan 2 .noPath)
    planned.currentPlan 9 = some (HistoryToy.plan 2 .noPath) ∧
      (∃ e, savePlan HistoryToy.keccak (HistoryToy.plan 1 .noPath) planned = .error e) ∧
      savePlan HistoryToy.keccak (HistoryToy.plan 2 .noPath) planned = .ok ((), planned) := by
  intro planned
  have hStep : PlanStep HistoryToy.keccak HistoryToy.db planned := by
    have hSave : PlanStep HistoryToy.keccak HistoryToy.db _ := .save _ (HistoryToy.plan 2 .noPath)
    rwa [commit_of_ok HistoryToy.newPlan.savePlan] at hSave
  have hCurrent : planned.currentPlan 9 = some (HistoryToy.plan 2 .noPath) := by
    refine Option.bind_eq_some_iff.mpr ⟨⟨9, (HistoryToy.plan 2 .noPath).id⟩, ?_, HistoryToy.newPlan.find?⟩
    exact Table.find?_upsert.trans (if_pos rfl)
  obtain ⟨-, -, -, -, hAgain, hRefused⟩ := plan_history_append_only rfl rfl (.single hStep)
  refine ⟨hCurrent, ?_, hAgain _ hCurrent⟩
  exact (hRefused (HistoryToy.plan 1 .noPath) _ hCurrent (.inl (by decide))).1

end TrustMap.Mapnode.Store
