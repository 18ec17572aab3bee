import TrustMap.Mapnode.Store.Lifecycle
import TrustMap.Mapnode.Store.Reconcile

/-!
The choice of the next work: `NextRequest` offers the oldest open request when no submission is
active, and `NextAttempt` numbers the attempt it is worked on in.
-/

namespace TrustMap.Mapnode.Store

/-! ## Work -/

/-- The condition of `NextRequest` on a request: it is not rejected, not resolved, and no submission
of it is confirmed. -/
def WorkDB.isOpen (db : WorkDB) (request : Request) : Bool :=
  request.state ≠ .rejected ∧
    ¬ (db.store.resolutions.rows.any fun row => row.requestID = request.id) ∧
    ¬ (db.submissions.rows.any fun row => row.requestID = request.id ∧ row.state = .confirmed)

/-- `ORDER BY created_at,id`. -/
def Request.isBefore (a b : Request) : Prop :=
  a.createdAt < b.createdAt ∨ a.createdAt = b.createdAt ∧ a.id ≤ b.id

instance (a b : Request) : Decidable (Request.isBefore a b) :=
  inferInstanceAs (Decidable (_ ∨ _))

/-- `NextRequest`. -/
def nextRequest (db : WorkDB) : Option Request :=
  if db.submissions.rows.any (·.state.isActive) then none
  else ((db.store.requests.rows.filter db.isOpen).insertionSort Request.isBefore).head?

/-- `NextAttempt`: the highest attempt with a plan, or the one after it for a retryable request. -/
def nextAttempt (db : WorkDB) (id : Bytes32) : Option UInt64 := do
  let request ← db.store.requests.find? id
  match ((db.plans.rows.filter (·.requestID = id)).map (·.attempt)).max? with
  | none => return 0
  | some attempt => return if request.state = .retryable then attempt + 1 else attempt

theorem not_active_of_nextRequest {db : WorkDB} {request : Request}
    (h : nextRequest db = some request) {row : TransactionSubmission}
    (hRow : row ∈ db.submissions.rows) : row.state.isActive = false := by
  unfold nextRequest at h
  split at h
  · cases h
  · rename_i hNone
    rw [List.any_eq_true] at hNone
    exact Bool.eq_false_iff.mpr fun hActive => hNone ⟨row, hRow, hActive⟩

theorem isOpen_of_nextRequest {db : WorkDB} {request : Request}
    (h : nextRequest db = some request) : db.isOpen request := by
  unfold nextRequest at h
  split at h
  · cases h
  · have hMem := List.mem_of_head? h
    exact (List.mem_filter.mp ((List.mem_insertionSort _).mp hMem)).2

/-- A submission of an offered request is given up. -/
theorem isGivenUp_of_nextRequest {db : WorkDB} {request : Request}
    (h : nextRequest db = some request) {row : TransactionSubmission}
    (hRow : row ∈ db.submissions.rows) (hRequest : row.requestID = request.id) :
    row.state.isGivenUp := by
  have hActive := not_active_of_nextRequest h hRow
  have hOpen := isOpen_of_nextRequest h
  simp only [WorkDB.isOpen, List.any_eq_true, decide_eq_true_eq] at hOpen
  have hConfirmed : row.state ≠ .confirmed := fun hState =>
    hOpen.2.2 ⟨row, hRow, hRequest, hState⟩
  cases hState : row.state with
  | prepared | submitted | retryable =>
      rw [hState] at hActive
      cases hActive
  | confirmed => exact absurd hState hConfirmed
  | reverted | superseded => rfl

/-! ## Fresh attempts -/

/-- The request is stored as retryable. -/
def WorkDB.isRetryable (db : WorkDB) (id : Bytes32) : Prop :=
  (db.store.requests.find? id).map (·.state) = some .retryable

/-- The request has a plan for a later attempt. -/
def WorkDB.plannedBeyond (db : WorkDB) (id : Bytes32) (attempt : UInt64) : Prop :=
  ∃ plan ∈ db.plans.rows, plan.requestID = id ∧ attempt < plan.attempt

/-- How the other components treat attempts: plans are only added, their attempts fit the column, and
a request leaves `retryable` only with a plan for an attempt after those of its submissions. -/
structure KeepsAttempts (db after : WorkDB) : Prop where
  plans : ∀ plan ∈ db.plans.rows, plan ∈ after.plans.rows
  range : ∀ plan ∈ after.plans.rows, plan.attempt.toNat < 2 ^ 63
  replanned : ∀ row ∈ db.submissions.rows, db.isRetryable row.requestID →
    after.isRetryable row.requestID ∨ after.plannedBeyond row.requestID row.attempt

theorem KeepsAttempts.of_plans_eq {db after : WorkDB} (hPlans : after.plans = db.plans)
    (hRange : ∀ plan ∈ db.plans.rows, plan.attempt.toNat < 2 ^ 63)
    (hStill : ∀ id, db.isRetryable id → after.isRetryable id) : KeepsAttempts db after where
  plans := fun _ hPlan => hPlans ▸ hPlan
  range := fun plan hPlan => hRange plan (hPlans ▸ hPlan)
  replanned := fun row _ hRetryable => .inl (hStill row.requestID hRetryable)

/-- A change of the state of a request keeps the attempts, unless it starts from `retryable`. -/
theorem requestTransition_keepsAttempts {db : WorkDB} {id : Bytes32} {request : Request}
    {toState : RequestState} (hFind : db.store.requests.find? id = some request)
    (hFrom : request.state ≠ .retryable) (hLegal : request.state.legal toState) (reason : String)
    (hRange : ∀ plan ∈ db.plans.rows, plan.attempt.toNat < 2 ^ 63) :
    KeepsAttempts db (persist (requestTransition id request.state toState reason) db).2 := by
  have hSame : KeepsAttempts db db := .of_plans_eq rfl hRange fun _ h => h
  rw [persist, requestTransition_apply hFind (.inr hLegal)]
  split
  · rename_i hRun
    split at hRun
    · cases hRun
      exact hSame
    · split at hRun
      · cases hRun
        refine .of_plans_eq rfl hRange fun other hRetryable => ?_
        have hOther : other ≠ id := by
          rintro rfl
          rw [WorkDB.isRetryable, hFind] at hRetryable
          exact hFrom (Option.some.inj hRetryable)
        rw [WorkDB.isRetryable, WorkDB.moveRequest, Table.find?_modify, if_neg hOther]
        exact hRetryable
      · cases hRun
  · exact hSame

/-- A submission is made for the attempt of its plan, as `validateWorkPlan` asks, and the other
components keep the attempts. -/
def SubmitterStep.Lawful (db : WorkDB) : SubmitterStep → Prop
  | .submit submission _ => ∀ plan ∈ db.plans.rows, plan.id = submission.planID →
      plan.attempt = submission.attempt
  | .recover _ => True
  | .other after => KeepsAttempts db after

section Runs

variable (keccak : Keccak) (depth : UInt64)

/-- A run of lawful steps. -/
def LawfulRun : List SubmitterStep → WorkDB → Prop
  | [], _ => True
  | step :: rest, db => step.Lawful db ∧ LawfulRun rest (step.run keccak depth db)

/-- After a failed receipt of a submission of the request has been read, the request becomes
retryable at some time. -/
def MarkedAfterFailure (id : Bytes32) : List SubmitterStep → WorkDB → Prop
  | [], _ => True
  | step :: rest, db =>
      ((∃ item, step.ReadsFailure depth db item ∧ item.requestID = id) →
        ∃ steps, steps <+: rest ∧
          (runSubmitter keccak depth steps (step.run keccak depth db)).isRetryable id) ∧
      MarkedAfterFailure id rest (step.run keccak depth db)

/-- Every submission has a plan for its attempt, and for the submissions of the request that are given
up a later attempt is or will be due. -/
structure AttemptsDue (id : Bytes32) (steps : List SubmitterStep) (db : WorkDB) : Prop where
  range : ∀ plan ∈ db.plans.rows, plan.attempt.toNat < 2 ^ 63
  numbered : ∀ row ∈ db.submissions.rows, ∃ plan ∈ db.plans.rows,
    plan.requestID = row.requestID ∧ plan.attempt = row.attempt
  due : ∀ row ∈ db.submissions.rows, row.requestID = id → row.state.isGivenUp →
    db.plannedBeyond id row.attempt ∨
      ∃ before, before <+: steps ∧ (runSubmitter keccak depth before db).isRetryable id

variable {keccak depth} {id : Bytes32} {steps : List SubmitterStep} {step : SubmitterStep}
  {db : WorkDB} {row : TransactionSubmission}

/-- What is due stays due: if the request is retryable now, it still is after the step or it has a
later plan. -/
theorem AttemptsDue.due_step (h : AttemptsDue keccak depth id (step :: steps) db)
    (hKeeps : KeepsAttempts db (step.run keccak depth db)) (hRow : row ∈ db.submissions.rows)
    (hRequest : row.requestID = id) (hGivenUp : row.state.isGivenUp) :
    (step.run keccak depth db).plannedBeyond id row.attempt ∨ ∃ before, before <+: steps ∧
      (runSubmitter keccak depth before (step.run keccak depth db)).isRetryable id := by
  rcases h.due row hRow hRequest hGivenUp with ⟨plan, hPlan, hBeyond⟩ | ⟨before, hBefore, hRetryable⟩
  · exact .inl ⟨plan, hKeeps.plans plan hPlan, hBeyond⟩
  · cases before with
    | nil =>
        subst hRequest
        rcases hKeeps.replanned row hRow hRetryable with hStill | hBeyond
        · exact .inr ⟨[], List.nil_prefix, hStill⟩
        · exact .inl hBeyond
    | cons first before =>
        obtain ⟨rfl, hRest⟩ := List.cons_prefix_cons.mp hBefore
        exact .inr ⟨before, hRest, hRetryable⟩

/-- One step of a run. -/
theorem AttemptsDue.next (h : AttemptsDue keccak depth id (step :: steps) db)
    (hLawful : step.Lawful db) (hMarked : (∃ item, step.ReadsFailure depth db item ∧ item.requestID = id) →
      ∃ before, before <+: steps ∧
        (runSubmitter keccak depth before (step.run keccak depth db)).isRetryable id) :
    AttemptsDue keccak depth id steps (step.run keccak depth db) := by
  by_cases hOther : ∃ after, step = .other after
  · obtain ⟨after, rfl⟩ := hOther
    have hKeeps : KeepsAttempts db after := hLawful
    refine ⟨hKeeps.range, fun row hRow => ?_, fun row hRow => ?_⟩
    · obtain ⟨plan, hPlan, hSame⟩ := h.numbered row hRow
      exact ⟨plan, hKeeps.plans plan hPlan, hSame⟩
    · exact h.due_step ⟨hKeeps.plans, hKeeps.range, hKeeps.replanned⟩ hRow
  · -- the submitter changes neither plans nor requests, and gives up what it reads a failure of
    let rule : SubmissionRule := {
      known := fun content => ∃ plan ∈ db.plans.rows, plan.requestID = content.requestID ∧
        plan.attempt = content.attempt
      final := fun content => (∃ row ∈ db.submissions.rows, row.content = content ∧
        row.state.isGivenUp) ∨ ∃ item, step.ReadsFailure depth db item ∧ item.content = content
      frame := fun store plans => store = db.store ∧ plans = db.plans }
    have hMet : rule.Met (step.run keccak depth db) := by
      refine step.run_met (fun submission rpc hStep db' hFrame hAdmits => ?_)
        (fun after hStep => (hOther ⟨after, hStep⟩).elim) (fun item hRead => .inr ⟨item, hRead, rfl⟩)
        ⟨⟨rfl, rfl⟩, fun row hRow =>
          ⟨h.numbered row hRow, fun hGivenUp => .inl ⟨row, hRow, rfl, hGivenUp⟩⟩⟩
      subst hStep
      simp only [WorkDB.admits, hFrame.2, List.any_eq_true, decide_eq_true_eq] at hAdmits
      obtain ⟨-, -, -, -, ⟨plan, hPlan, hID, hRequest, -⟩, -⟩ := hAdmits
      exact ⟨plan, hPlan, hRequest, hLawful plan hPlan hID⟩
    obtain ⟨⟨hStore, hPlans⟩, hRows⟩ := hMet
    have hKeeps : KeepsAttempts db (step.run keccak depth db) := by
      refine .of_plans_eq hPlans h.range fun other hRetryable => ?_
      rw [WorkDB.isRetryable, hStore]
      exact hRetryable
    refine ⟨hKeeps.range, fun row hRow => hPlans ▸ (hRows row hRow).1,
      fun row hRow hRequest hGivenUp => ?_⟩
    rcases (hRows row hRow).2 hGivenUp with ⟨old, hOld, hSame, hOldGivenUp⟩ | ⟨item, hRead, hSame⟩
    · have hAttempt : old.attempt = row.attempt := (TransactionSubmission.mk.inj hSame).2.2.1
      have hOldRequest : old.requestID = row.requestID := (TransactionSubmission.mk.inj hSame).2.1
      rw [← hAttempt]
      exact h.due_step hKeeps hOld (hOldRequest.trans hRequest) hOldGivenUp
    · exact .inr (hMarked ⟨item, hRead, (TransactionSubmission.mk.inj hSame).2.1.trans hRequest⟩)

/-- A run of lawful steps. -/
theorem AttemptsDue.run (h : AttemptsDue keccak depth id steps db)
    (hLawful : LawfulRun keccak depth steps db) (hMarked : MarkedAfterFailure keccak depth id steps db) :
    AttemptsDue keccak depth id [] (runSubmitter keccak depth steps db) := by
  induction steps generalizing db with
  | nil => exact h
  | cons step steps ih => exact ih (h.next hLawful.1 hMarked.1) hLawful.2 hMarked.2

/-- At the end of the run the next attempt comes after those of the submissions that are given up. -/
theorem AttemptsDue.lt_nextAttempt (h : AttemptsDue keccak depth id [] db) {attempt : UInt64}
    (hAttempt : nextAttempt db id = some attempt) (hRow : row ∈ db.submissions.rows)
    (hRequest : row.requestID = id) (hGivenUp : row.state.isGivenUp) : row.attempt < attempt := by
  obtain ⟨request, hFind, hAttempt⟩ := Option.bind_eq_some_iff.mp hAttempt
  obtain ⟨plan, hPlan, hPlanRequest, hNumber⟩ := h.numbered row hRow
  have hMem : ∀ plan ∈ db.plans.rows, plan.requestID = id →
      plan.attempt ∈ (db.plans.rows.filter (·.requestID = id)).map (·.attempt) :=
    fun plan hPlan hID =>
      List.mem_map.mpr ⟨plan, List.mem_filter.mpr ⟨hPlan, decide_eq_true hID⟩, rfl⟩
  have hPlanned := hMem plan hPlan (hPlanRequest.trans hRequest)
  cases hMax : ((db.plans.rows.filter (·.requestID = id)).map (·.attempt)).max? with
  | none =>
      rw [List.max?_eq_none_iff.mp hMax] at hPlanned
      cases hPlanned
  | some highest =>
      obtain ⟨hHighest, hLe⟩ := List.max?_eq_some_iff.mp hMax
      obtain ⟨last, hLast, rfl⟩ := List.mem_map.mp hHighest
      have hRange := h.range last (List.mem_of_mem_filter hLast)
      rw [hMax] at hAttempt
      obtain rfl := Option.some.inj hAttempt
      split
      · have hAtMost := UInt64.le_iff_toNat_le.mp (hLe _ hPlanned)
        rw [UInt64.lt_iff_toNat_lt, UInt64.toNat_add, UInt64.toNat_one, ← hNumber]
        omega
      · rename_i hState
        rcases h.due row hRow hRequest hGivenUp with
          ⟨later, hLater, hID, hBeyond⟩ | ⟨_, hNil, hRetryable⟩
        · exact lt_of_lt_of_le hBeyond (hLe _ (hMem later hLater hID))
        · rw [List.prefix_nil.mp hNil, runSubmitter, List.foldl_nil, WorkDB.isRetryable,
            hFind] at hRetryable
          exact (hState (Option.some.inj hRetryable)).elim

end Runs

namespace RevertToy

/-- The tables after the recovery; then the request is marked. -/
def failed : WorkDB := runSubmitter (fun _ => 7) 3 (.other start :: steps) .empty

/-- The reverted submission is followed by a change of the request. -/
def markedSteps : List SubmitterStep :=
  .other start :: steps ++
    [.other (persist (requestTransition 1 request.state .retryable "transaction reverted") failed).2]

theorem markedSteps_lawful : LawfulRun (fun _ => 7) 3 markedSteps .empty := by
  refine ⟨⟨nofun, by decide +kernel, nofun⟩, ?_, trivial, ?_, trivial⟩
  · intro plan hPlan _
    obtain rfl : plan = RevertToy.plan := List.mem_singleton.mp hPlan
    rfl
  · exact requestTransition_keepsAttempts (by decide +kernel) (by decide) rfl _ (by decide +kernel)

theorem markedSteps_marked : MarkedAfterFailure (fun _ => 7) 3 1 markedSteps .empty := by
  refine ⟨nofun, nofun, fun _ => ⟨_, List.prefix_rfl, ?_⟩, nofun, trivial⟩
  unfold WorkDB.isRetryable
  decide +kernel

end RevertToy

end TrustMap.Mapnode.Store
