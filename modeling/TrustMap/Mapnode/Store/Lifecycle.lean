import TrustMap.Library.AuditedWalk
import TrustMap.Mapnode.Store.Work

/-!
The durable state machines of requests and of transaction submissions as audited machines: a walk
through the legal transitions is refused at the first transition it has made before.
-/

namespace TrustMap.Mapnode.Store

open Transaction AuditedWalk

/-! ## One transition -/

/-- A database with a request in a new state and the audit of the change. -/
def WorkDB.moveRequest (db : WorkDB) (id : Bytes32) (toState : RequestState) (reason : String)
    (requestTransitions :
      Table fun row : RequestTransition => (row.requestID, row.fromState, row.toState)) : WorkDB :=
  { db with
    store := { db.store with
      requests := db.store.requests.modify id (fun row => row.move toState reason)
        (Request.move_id toState reason) }
    requestTransitions := requestTransitions }

variable {db : WorkDB} {id : Bytes32}

/-- What `requestTransition` does with a stored request, from the state it is in. -/
theorem requestTransition_apply {request : Request} {toState : RequestState} {reason : String}
    (hFind : db.store.requests.find? id = some request)
    (hLegal : request.state = toState ∨ request.state.legal toState) :
    requestTransition id request.state toState reason db =
      if request.state = toState then .ok ((request, false), db)
      else
        match db.requestTransitions.insert? ⟨id, request.state, toState, reason⟩ with
        | some requestTransitions =>
            .ok ((request.move toState reason, true),
              db.moveRequest id toState reason requestTransitions)
        | none => .error (.store .constraint) := by
  have hLoad : loadRequest id db = .ok (request, db) := by
    rw [loadRequest, gets_bind_apply, hFind]
    rfl
  rw [requestTransition, require_bind_apply, if_pos hLegal, bind_of_ok hLoad]
  by_cases hSame : request.state = toState
  · rw [if_pos hSame, if_pos hSame, pure_apply]
  · rw [if_neg hSame, if_neg hSame, require_bind_apply, if_pos rfl]
    have hUpdate : updateRequest id toState reason db =
        .ok ((), db.moveRequest id toState reason db.requestTransitions) := rfl
    rw [bind_of_ok hUpdate]
    cases hInsert : db.requestTransitions.insert? ⟨id, request.state, toState, reason⟩ with
    | none =>
        have hAudit : insertRequestTransition ⟨id, request.state, toState, reason⟩
            (db.moveRequest id toState reason db.requestTransitions) =
              .error (.store .constraint) := by
          simp only [insertRequestTransition, WorkDB.moveRequest, hInsert]
        rw [bind_of_error hAudit]
    | some requestTransitions =>
        have hAudit : insertRequestTransition ⟨id, request.state, toState, reason⟩
            (db.moveRequest id toState reason db.requestTransitions) =
              .ok ((), db.moveRequest id toState reason requestTransitions) := by
          simp only [insertRequestTransition, WorkDB.moveRequest, hInsert]
        rw [bind_of_ok hAudit, pure_apply]

/-- A database with a submission in a new state and the audit of the change. -/
def WorkDB.moveSubmission (db : WorkDB) (id : Bytes32) (toState : ExecutionState) (reason : String)
    (executionTransitions :
      Table fun row : ExecutionTransition => (row.submissionID, row.fromState, row.toState)) :
    WorkDB :=
  { db with
    submissions := db.submissions.modify id (fun row => row.move toState reason)
      (TransactionSubmission.move_id toState reason)
    executionTransitions := executionTransitions }

/-- What `submissionTransition` does with a stored submission, from the state it is in. -/
theorem submissionTransition_apply {submission : TransactionSubmission} {toState : ExecutionState}
    {reason : String} (hFind : db.submissions.find? id = some submission)
    (hLegal : submission.state.legal toState) (hReason : toState.needsReason → reason ≠ "") :
    submissionTransition id submission.state toState reason db =
      match db.executionTransitions.insert?
          ⟨submission.requestID, id, submission.state, toState, reason⟩ with
      | some executionTransitions =>
          .ok ((submission.move toState reason, true),
            db.moveSubmission id toState reason executionTransitions)
      | none => .error (.store .constraint) := by
  have hLoad : loadSubmission id db = .ok (submission, db) := by
    rw [loadSubmission, gets_bind_apply, hFind]
    rfl
  have hMoves : submission.state ≠ toState := by
    intro hSame
    rw [hSame] at hLegal
    revert hLegal
    cases toState <;> decide
  have hUpdate : updateSubmission id toState reason db =
      .ok ((), db.moveSubmission id toState reason db.executionTransitions) := rfl
  rw [submissionTransition, require_bind_apply, if_pos hLegal, require_bind_apply, if_pos hReason,
    bind_of_ok hLoad, if_neg hMoves, require_bind_apply, if_pos rfl, bind_of_ok hUpdate]
  cases hInsert : db.executionTransitions.insert?
      ⟨submission.requestID, id, submission.state, toState, reason⟩ with
  | none =>
      have hAudit : insertExecutionTransition
          ⟨submission.requestID, id, submission.state, toState, reason⟩
          (db.moveSubmission id toState reason db.executionTransitions) =
            .error (.store .constraint) := by
        simp only [insertExecutionTransition, WorkDB.moveSubmission, hInsert]
      rw [bind_of_error hAudit]
  | some executionTransitions =>
      have hAudit : insertExecutionTransition
          ⟨submission.requestID, id, submission.state, toState, reason⟩
          (db.moveSubmission id toState reason db.executionTransitions) =
            .ok ((), db.moveSubmission id toState reason executionTransitions) := by
        simp only [insertExecutionTransition, WorkDB.moveSubmission, hInsert]
      rw [bind_of_ok hAudit, pure_apply]

/-! ## The two machines -/

/-- The states of a request. A label is the next state with the reason for it. -/
def requestMachine (id : Bytes32) :
    Machine WorkDB WorkError (RequestState × String) RequestState where
  step fromState label db := (requestTransition id fromState label.1 label.2 db).map Prod.snd
  target := Prod.fst
  legal fromState label := fromState = label.1 ∨ fromState.legal label.1
  ready db := (db.store.requests.find? id).isSome
  state db := ((db.store.requests.find? id).map (·.state)).getD .observed
  audit db := (db.requestTransitions.rows.filter fun row => row.requestID = id).map
    fun row => (row.fromState, row.toState)

/-- The states of a submission; a label names a reason where the state needs one. -/
def submissionMachine (id : Bytes32) :
    Machine WorkDB WorkError (ExecutionState × String) ExecutionState where
  step fromState label db := (submissionTransition id fromState label.1 label.2 db).map Prod.snd
  target := Prod.fst
  legal fromState label := fromState.legal label.1 ∧ (label.1.needsReason → label.2 ≠ "")
  ready db := (db.submissions.find? id).isSome
  state db := ((db.submissions.find? id).map (·.state)).getD .prepared
  audit db := (db.executionTransitions.rows.filter fun row => row.submissionID = id).map
    fun row => (row.fromState, row.toState)

theorem requestMachine_state {request : Request} (hFind : db.store.requests.find? id = some request) :
    (requestMachine id).state db = request.state := by
  simp [requestMachine, hFind]

/-- The row of a change can be inserted if the change is not in the audit. -/
theorem requestTransitions_insert {fromState toState : RequestState} (reason : String) :
    db.requestTransitions.insert? ⟨id, fromState, toState, reason⟩ = none ↔
      (fromState, toState) ∈ (requestMachine id).audit db := by
  rw [Table.insert?_eq_none]
  simp only [requestMachine, List.mem_map, List.mem_filter, decide_eq_true_eq, Prod.mk.injEq]
  constructor
  · rintro ⟨row, hMem, hID, hFrom, hTo⟩
    exact ⟨row, ⟨hMem, hID⟩, hFrom, hTo⟩
  · rintro ⟨row, ⟨hMem, hID⟩, hFrom, hTo⟩
    exact ⟨row, hMem, hID, hFrom, hTo⟩

theorem requestMachine_lawful (id : Bytes32) : (requestMachine id).Lawful where
  stay {db label} hReady hLegal hTarget := by
    obtain ⟨request, hFind⟩ := Option.isSome_iff_exists.mp hReady
    rw [requestMachine_state hFind] at hLegal hTarget ⊢
    have hSame : request.state = label.1 := hTarget.symm
    have hStep : requestTransition id request.state label.1 label.2 db = _ :=
      requestTransition_apply hFind hLegal
    rw [if_pos hSame] at hStep
    exact congrArg (Except.map Prod.snd) hStep
  move {db label} hReady hLegal hTarget hFresh := by
    obtain ⟨request, hFind⟩ := Option.isSome_iff_exists.mp hReady
    rw [requestMachine_state hFind] at hLegal hTarget hFresh ⊢
    have hMoves : request.state ≠ label.1 := hTarget
    have hStep : requestTransition id request.state label.1 label.2 db = _ :=
      requestTransition_apply hFind hLegal
    rw [if_neg hMoves] at hStep
    cases hInsert : db.requestTransitions.insert? ⟨id, request.state, label.1, label.2⟩ with
    | none => exact absurd ((requestTransitions_insert label.2).mp hInsert) hFresh
    | some requestTransitions =>
        rw [hInsert] at hStep
        have hMoved : (db.moveRequest id label.1 label.2 requestTransitions).store.requests.find? id =
            some (request.move label.1 label.2) := by
          simp only [WorkDB.moveRequest]
          rw [Table.find?_modify, if_pos rfl, hFind]
          rfl
        refine ⟨_, congrArg (Except.map Prod.snd) hStep, by simp [requestMachine, hMoved], ?_, ?_⟩
        · rw [requestMachine_state hMoved]
          rfl
        · have hRows := (Table.insert?_eq_some.mp hInsert).2
          simp [requestMachine, WorkDB.moveRequest, hRows]
  refuse {db label} hReady hLegal hTarget hTaken := by
    obtain ⟨request, hFind⟩ := Option.isSome_iff_exists.mp hReady
    rw [requestMachine_state hFind] at hLegal hTarget hTaken ⊢
    have hMoves : request.state ≠ label.1 := hTarget
    have hInsert : db.requestTransitions.insert? ⟨id, request.state, label.1, label.2⟩ = none :=
      (requestTransitions_insert label.2).mpr hTaken
    have hStep : requestTransition id request.state label.1 label.2 db = _ :=
      requestTransition_apply hFind hLegal
    rw [if_neg hMoves, hInsert] at hStep
    exact ⟨_, congrArg (Except.map Prod.snd) hStep⟩

theorem submissionMachine_state {submission : TransactionSubmission}
    (hFind : db.submissions.find? id = some submission) :
    (submissionMachine id).state db = submission.state := by
  simp [submissionMachine, hFind]

theorem executionTransitions_insert {fromState toState : ExecutionState} (requestID : Bytes32)
    (reason : String) :
    db.executionTransitions.insert? ⟨requestID, id, fromState, toState, reason⟩ = none ↔
      (fromState, toState) ∈ (submissionMachine id).audit db := by
  rw [Table.insert?_eq_none]
  simp only [submissionMachine, List.mem_map, List.mem_filter, decide_eq_true_eq, Prod.mk.injEq]
  constructor
  · rintro ⟨row, hMem, hID, hFrom, hTo⟩
    exact ⟨row, ⟨hMem, hID⟩, hFrom, hTo⟩
  · rintro ⟨row, ⟨hMem, hID⟩, hFrom, hTo⟩
    exact ⟨row, hMem, hID, hFrom, hTo⟩

theorem ExecutionState.not_legal_self (state : ExecutionState) : state.legal state = false := by
  cases state <;> rfl

theorem submissionMachine_lawful (id : Bytes32) : (submissionMachine id).Lawful where
  stay {db label} _ hLegal hTarget := by
    have hSame : label.1 = (submissionMachine id).state db := hTarget
    have hLegal' : ((submissionMachine id).state db).legal label.1 := hLegal.1
    rw [hSame, ExecutionState.not_legal_self] at hLegal'
    cases hLegal'
  move {db label} hReady hLegal _ hFresh := by
    obtain ⟨submission, hFind⟩ := Option.isSome_iff_exists.mp hReady
    rw [submissionMachine_state hFind] at hLegal hFresh ⊢
    have hStep : submissionTransition id submission.state label.1 label.2 db = _ :=
      submissionTransition_apply hFind hLegal.1 hLegal.2
    cases hInsert : db.executionTransitions.insert?
        ⟨submission.requestID, id, submission.state, label.1, label.2⟩ with
    | none => exact absurd ((executionTransitions_insert _ label.2).mp hInsert) hFresh
    | some executionTransitions =>
        rw [hInsert] at hStep
        have hMoved : (db.moveSubmission id label.1 label.2 executionTransitions).submissions.find? id =
            some (submission.move label.1 label.2) := by
          simp only [WorkDB.moveSubmission]
          rw [Table.find?_modify, if_pos rfl, hFind]
          rfl
        refine ⟨_, congrArg (Except.map Prod.snd) hStep, by simp [submissionMachine, hMoved], ?_, ?_⟩
        · rw [submissionMachine_state hMoved]
          rfl
        · have hRows := (Table.insert?_eq_some.mp hInsert).2
          simp [submissionMachine, WorkDB.moveSubmission, hRows]
  refuse {db label} hReady hLegal _ hTaken := by
    obtain ⟨submission, hFind⟩ := Option.isSome_iff_exists.mp hReady
    rw [submissionMachine_state hFind] at hLegal hTaken ⊢
    have hInsert : db.executionTransitions.insert?
        ⟨submission.requestID, id, submission.state, label.1, label.2⟩ = none :=
      (executionTransitions_insert _ label.2).mpr hTaken
    have hStep : submissionTransition id submission.state label.1 label.2 db = _ :=
      submissionTransition_apply hFind hLegal.1 hLegal.2
    rw [hInsert] at hStep
    exact ⟨_, congrArg (Except.map Prod.snd) hStep⟩

/-! ## Walks -/

/-- A walk from the present state is performed in full: every step succeeds, the record ends in the
last state, and every change of state has its row in the audit. -/
def Performs {S : Type} [DecidableEq S] (machine : Machine WorkDB WorkError (S × String) S)
    (db : WorkDB) (walk : List (S × String)) : Prop :=
  ∃ final, machine.walk (machine.state db) walk db = .ok final ∧
    machine.state final = machine.last (machine.state db) walk ∧
    machine.audit final = machine.audit db ++ changes machine.target (machine.state db) walk

/-- A walk repeats no change of state, neither one of its own nor one that is in the audit. -/
def NoRepeatedChange {S : Type} [DecidableEq S] (machine : Machine WorkDB WorkError (S × String) S)
    (db : WorkDB) (walk : List (S × String)) : Prop :=
  (changes machine.target (machine.state db) walk).Nodup ∧
    ∀ change ∈ changes machine.target (machine.state db) walk, change ∉ machine.audit db

/-- For stored requests and submissions, a legal walk is performed in full if and only if it repeats
no change of state. -/
theorem performs_iff_noRepeatedChange (db : WorkDB) (id : Bytes32) :
    (∀ walk, (requestMachine id).ready db →
      (requestMachine id).LegalWalk ((requestMachine id).state db) walk →
        (Performs (requestMachine id) db walk ↔ NoRepeatedChange (requestMachine id) db walk)) ∧
    (∀ walk, (submissionMachine id).ready db →
      (submissionMachine id).LegalWalk ((submissionMachine id).state db) walk →
        (Performs (submissionMachine id) db walk ↔
          NoRepeatedChange (submissionMachine id) db walk)) :=
  ⟨fun _ hReady hLegal => (requestMachine_lawful id).walk_iff hReady hLegal,
    fun _ hReady hLegal => (submissionMachine_lawful id).walk_iff hReady hLegal⟩

namespace Toy

/-- A planned request and a prepared submission of it, both with identifier 1. -/
def workDB : WorkDB :=
  { WorkDB.empty with
    store := { DB.empty with
      requests := ⟨[⟨⟨1, 1, 10, 7, 0, 2, 3, 1003⟩, .planned, "", 1⟩], by decide⟩ }
    submissions := ⟨[⟨1, 1, 0, 2, .direct, 3, none, 1, 10, 8, 0, 4, [1], 5, 1, 0, 1, .prepared, ""⟩],
      by decide⟩ }

/-- A stale plan is replaced by a path once, and by the direct verification once. -/
def requestWalk : List (RequestState × String) :=
  [(.retryable, "stale"), (.replanned, ""), (.proofReady, ""), (.retryable, "stale"),
    (.directFallback, "no_path")]

end Toy

theorem performs_toy :
    Performs (requestMachine 1) Toy.workDB Toy.requestWalk ∧
      Performs (submissionMachine 1) Toy.workDB [(.submitted, ""), (.confirmed, "")] := by
  obtain ⟨hRequest, hSubmission⟩ := performs_iff_noRepeatedChange Toy.workDB 1
  refine ⟨(hRequest _ rfl ?_).mpr ?_, (hSubmission _ rfl ?_).mpr ?_⟩
  · exact ⟨.inr rfl, .inr rfl, .inr rfl, .inr rfl, .inr rfl, trivial⟩
  · unfold NoRepeatedChange
    decide
  · exact ⟨⟨rfl, by decide⟩, ⟨rfl, by decide⟩, trivial⟩
  · unfold NoRepeatedChange
    decide

/-- The second time a plan is replaced by the direct verification, the database refuses the row of
the audit. -/
theorem second_fallback_refused :
    (requestMachine 1).LegalWalk .planned
        (Toy.requestWalk ++ [(.retryable, "stale"), (.directFallback, "no_path")]) ∧
      (requestMachine 1).walk .planned
        (Toy.requestWalk ++ [(.retryable, "stale"), (.directFallback, "no_path")]) Toy.workDB =
          .error (.store .constraint) :=
  ⟨⟨.inr rfl, .inr rfl, .inr rfl, .inr rfl, .inr rfl, .inr rfl, .inr rfl, trivial⟩, rfl⟩

end TrustMap.Mapnode.Store
