import TrustMap.Mapnode.Replay.TracePreparation
import TrustMap.Mapnode.Replay.Verify

/-!
The run of one setting: `recoverReplayCoordinator` reads the tables that earlier runs left, and
the loop of `RunReplayWithProgress` processes and commits the remaining events. A run that stops
between two commits is continued by the next one as if it had not stopped.
-/

namespace TrustMap.Mapnode.Replay

open Checks

/-- The errors of a run. -/
inductive RunError
  | replay (cause : ReplayError)
  | verify (cause : VerifyError)
  | commit (cause : CommitError)
  | inconsistent
  | exceedsIdentity
  | exceedsTrace
  | eventConflict

/-- What `RunReplayWithProgress` has for a setting: a prepared trace, whose events are a slice of
fewer than 2 ^ 63 elements, and a new coordinator. -/
structure ReplayJob (lower : Lowercase) where
  std : TraceLibrary
  options : TraceOptions
  file : TraceFile
  trace : TraceOutput
  prepared : prepareTrace std lower options file = .ok trace
  short : trace.events.length < 2 ^ 63
  setting : Setting
  recordEvery : UInt64
  profile : CostProfile
  policy : CheckpointPolicy
  coordinator : ReplayCoordinator
  created : ReplayCoordinator.new lower setting trace.initHeights.rows profile policy =
    .ok coordinator

/-- The run identity, as far as the repository reads it. -/
def ReplayJob.run {lower : Lowercase} (job : ReplayJob lower) : ReplayRun :=
  ⟨job.setting, UInt64.ofNat job.trace.events.length, job.recordEvery⟩

/-- The variables of a run between two events. -/
structure RunState where
  coordinator : ReplayCoordinator
  next : UInt64
  trustMapRows : UInt64

/-- The variables after one more decision. -/
def RunState.advance (state : RunState) (decision : ReplayDecision)
    (coordinator : ReplayCoordinator) :
    RunState :=
  ⟨coordinator, state.next + 1,
    if decision.takesPath then state.trustMapRows + 1 else state.trustMapRows⟩

/-! ## Recovery -/

/-- A row of `ForEachCompleted`, read back and checked. -/
def readCompleted (codec : ReplayCodec) (expectedSequence : UInt64) (row : JoinedRow) :
    Except RunError Commit := do
  let event ← (decoded codec.event row.event.eventJSON).mapError .verify
  let decision ← (decoded codec.decision row.decision.decisionJSON).mapError .verify
  let snapshot ← row.snapshot.mapM fun row =>
    (decoded codec.snapshot row.snapshotJSON).mapError .verify
  require (event.sequence = expectedSequence ∧ decision.sequence = expectedSequence ∧
    event.id = decision.eventID) .inconsistent
  return ⟨event, decision, snapshot⟩

/-- The comparison of a committed event with the trace. -/
def inspect (events : List ReplayEvent) (item : Commit) : Except RunError Unit :=
  match events[item.event.sequence.toNat]? with
  | none => .error .exceedsTrace
  | some event => require (item.event = event) .eventConflict

section Run

variable {lower : Lowercase} (codec : ReplayCodec) (job : ReplayJob lower)

/-- A row of `ForEachCompleted` with the visitor of `recoverReplayCoordinator`. The expected
sequence is the number of the rows before. -/
def restoreRow (state : RunState) (row : JoinedRow) : Except RunError RunState := do
  let item ← readCompleted codec state.next row
  require (state.next < job.run.preparedRows) .exceedsIdentity
  inspect job.trace.events item
  let coordinator ← (state.coordinator.restore lower item.event item.decision).mapError .replay
  return state.advance item.decision coordinator

/-- `recoverReplayCoordinator`. -/
def recoverReplayCoordinator (db : ReplayDB) : Except RunError RunState := do
  (verifyPersistedDerivedState lower codec job.run db).mapError .verify
  (joinedRows db).foldlM (restoreRow codec job) ⟨job.coordinator, 0, 0⟩

/-! ## The loop -/

/-- The commit of a decision, with a snapshot if the record interval asks for one. -/
def RunState.commit (run : ReplayRun) (state : RunState) (event : ReplayEvent)
    (decision : ReplayDecision) : Commit where
  event := event
  decision := decision
  snapshot := if expectsSnapshot run state.next then
    some ⟨state.next, event.sourceTime, decision.graphNodes, decision.graphEdges,
      decision.crossEdgesAdded⟩ else none

/-- A turn of the loop of `RunReplayWithProgress`. -/
def replayEvent (db : ReplayDB) (state : RunState) (event : ReplayEvent) :
    Except RunError (ReplayDB × RunState) := do
  let (decision, coordinator) ← (state.coordinator.process lower event).mapError .replay
  let db ← (commitEvent lower codec job.run db (state.commit job.run event decision)).mapError
    .commit
  return (db, state.advance decision coordinator)

/-- The loop over the given events. An error keeps what was committed before it. -/
def replayEvents : List ReplayEvent → ReplayDB → RunState → ReplayDB × Except RunError RunState
  | [], db, state => (db, .ok state)
  | event :: events, db, state =>
      match replayEvent codec job db state event with
      | .error cause => (db, .error cause)
      | .ok (db, state) => replayEvents events db state

/-- The run of a setting on the tables of earlier runs. -/
def replaySetting (db : ReplayDB) : ReplayDB × Except RunError RunState :=
  match recoverReplayCoordinator codec job db with
  | .error cause => (db, .error cause)
  | .ok state => replayEvents codec job (job.trace.events.drop state.next.toNat) db state

/-- The tables that a run leaves if it is stopped after a number of turns. -/
def stoppedAfter (db : ReplayDB) (turns : ℕ) : ReplayDB :=
  match recoverReplayCoordinator codec job db with
  | .error _ => db
  | .ok state =>
      (replayEvents codec job ((job.trace.events.drop state.next.toNat).take turns) db state).1

end Run

/-! ## What a run has reached -/

/-- A commit that the run makes if it gets there: the decision of the coordinator for an event of
the trace after those before it, and a snapshot that fits them. -/
def ReplayJob.Makes {lower : Lowercase} (job : ReplayJob lower) (commit : Commit) : Prop :=
  ∃ before after decisions c c', job.trace.events = before ++ commit.event :: after ∧
    job.coordinator.processAll lower before = .ok (decisions, c) ∧
    c.process lower commit.event = .ok (commit.decision, c') ∧
    ∀ snapshot ∈ commit.snapshot, SnapshotFits commit.event commit.decision snapshot

/-- The documents of the run are read back as they were written. -/
def ReplayCodec.Lossless {lower : Lowercase} (codec : ReplayCodec) (job : ReplayJob lower) : Prop :=
  ∀ commit, job.Makes commit → commit.RoundTrips codec

section Lemmas

variable {lower : Lowercase} {codec : ReplayCodec} {job : ReplayJob lower} {db db' : ReplayDB}
  {state state' : RunState} {commit : Commit} {commits : List Commit} {event : ReplayEvent}

/-- A run without error has made the commits: those of one coordinator for the first events. Its
state can be recovered from their rows. -/
structure Reached (codec : ReplayCodec) (job : ReplayJob lower) (commits : List Commit)
    (db : ReplayDB)
    (state : RunState) : Prop where
  holds : Holds lower codec job.run commits db
  written : ∀ commit ∈ commits, commit.RoundTrips codec ∧ commit.FollowsInterval job.run
  next : state.next.toNat = commits.length
  events : commits.map (·.event) = job.trace.events.take commits.length
  decided : job.coordinator.processAll lower (commits.map (·.event)) =
    .ok (commits.map (·.decision), state.coordinator)
  restored : (commits.map (Commit.joinedRow lower codec)).foldlM (restoreRow codec job)
    ⟨job.coordinator, 0, 0⟩ = .ok state

theorem sequence_eq (hEvent : job.trace.events[state.next.toNat]? = some event) :
    event.sequence = state.next ∧ event.sequence < job.run.preparedRows := by
  obtain ⟨hLess, -⟩ := List.getElem?_eq_some_iff.mp hEvent
  have hShort := job.short
  obtain ⟨-, -, -, scan, -, hTrace⟩ := prepareTrace_eq_ok.mp job.prepared
  have hNumber : event.sequence = state.next := by
    rw [hTrace, List.getElem?_mapIdx] at hEvent
    obtain ⟨kept, -, rfl⟩ := Option.map_eq_some_iff.mp hEvent
    exact UInt64.ofNat_toNat
  refine ⟨hNumber, ?_⟩
  rw [hNumber, ReplayJob.run, UInt64.lt_iff_toNat_lt, UInt64.toNat_ofNat']
  omega

theorem readCompleted_joinedRow (hWritable : commit.Writable codec job.run)
    (hRound : commit.RoundTrips codec) :
    readCompleted codec commit.event.sequence (commit.joinedRow lower codec) = .ok commit := by
  have hSnapshot : ((commit.joinedRow lower codec).snapshot.mapM fun row =>
      (decoded codec.snapshot row.snapshotJSON).mapError RunError.verify) =
        .ok commit.snapshot := by
    rw [Commit.joinedRow, Commit.snapshotRow]
    cases hSome : commit.snapshot with
    | none => rfl
    | some snapshot =>
        have hRead := (hRound.snapshot snapshot hSome).decoded_getD
          (hWritable.snapshot snapshot hSome).2
        simp only [Option.map_some, Option.mapM_some, hRead, mapError_ok]
        rfl
  rw [readCompleted, Commit.joinedRow, Commit.eventRow, Commit.decisionRow,
    hRound.event.decoded_getD hWritable.event, mapError_ok, ok_bind,
    hRound.decision.decoded_getD hWritable.decision, mapError_ok, ok_bind]
  refine bind_eq_ok.mpr ⟨_, hSnapshot, check_bind_eq_ok.mpr ⟨require_eq_ok.mpr ?_, rfl⟩⟩
  exact ⟨rfl, hWritable.sequence, hWritable.eventID.symm⟩

/-- A turn adds a commit, which is restored after the others. -/
theorem Reached.turn (h : Reached codec job commits db state) (hCodec : codec.Lossless job)
    (hEvent : job.trace.events[state.next.toNat]? = some event)
    (hTurn : replayEvent codec job db state event = .ok (db', state')) :
    ∃ commit, Reached codec job (commits ++ [commit]) db' state' ∧
      state'.next.toNat = state.next.toNat + 1 := by
  obtain ⟨⟨decision, coordinator⟩, hProcess, hTurn⟩ := bind_eq_ok.mp hTurn
  obtain ⟨next, hCommit, hTurn⟩ := bind_eq_ok.mp hTurn
  rw [mapError_eq_ok] at hProcess hCommit
  cases pure_eq_ok.mp hTurn
  obtain ⟨hSequence, hBefore⟩ := sequence_eq hEvent
  have hNext : (state.next + 1).toNat = state.next.toNat + 1 := by
    have := h.holds.length_le
    rw [UInt64.toNat_add, UInt64.toNat_one, h.next, Nat.mod_eq_of_lt (by omega)]
  have hRound : (state.commit job.run event decision).RoundTrips codec := by
    refine hCodec _ ⟨commits.map (·.event), job.trace.events.drop (state.next.toNat + 1), _, _, _,
      ?_, h.decided, hProcess, fun snapshot hSnapshot => ?_⟩
    · obtain ⟨hLess, rfl⟩ := List.getElem?_eq_some_iff.mp hEvent
      rw [h.events, ← h.next]
      simp [RunState.commit]
    · simp only [RunState.commit, Option.mem_def] at hSnapshot
      split at hSnapshot
      · cases hSnapshot
        exact ⟨hSequence.symm, rfl, rfl, rfl, rfl⟩
      · cases hSnapshot
  have hInterval : (state.commit job.run event decision).FollowsInterval job.run := by
    simp only [Commit.FollowsInterval, RunState.commit, hSequence]
    split <;> simp_all
  rcases h.holds.commitEvent_cases hCommit with ⟨old, hOld, -⟩ | ⟨-, hHolds⟩
  · rw [RunState.commit, hSequence, h.next, List.getElem?_eq_none le_rfl] at hOld
    cases hOld
  refine ⟨_, ⟨hHolds, ?_, ?_, ?_, ?_, ?_⟩, hNext⟩
  · exact List.forall_mem_append.mpr ⟨h.written, List.forall_mem_singleton.mpr ⟨hRound, hInterval⟩⟩
  · rw [List.length_append, List.length_singleton, ← h.next]
    exact hNext
  · rw [List.map_append, h.events, List.length_append, List.length_singleton, List.take_add_one,
      ← h.next, hEvent]
    rfl
  · rw [List.map_append, List.map_append]
    exact ReplayCoordinator.processAll_append.mpr ⟨_, _, [decision], h.decided,
      ReplayCoordinator.processAll_cons.mpr ⟨_, _, [], hProcess, rfl, rfl⟩, rfl⟩
  · have hRead := @readCompleted_joinedRow lower _ _ _ (hHolds.writable _ (by simp)) hRound
    have hInspect : inspect job.trace.events (state.commit job.run event decision) = .ok () := by
      rw [inspect, RunState.commit, hSequence, hEvent]
      exact require_eq_ok.mpr rfl
    have hRestore := ReplayCoordinator.restore_of_process
      ((ReplayCoordinator.new_invariant job.created).processAll h.decided) hProcess
    rw [List.map_append, List.foldlM_append]
    refine bind_eq_ok.mpr ⟨state, h.restored, bind_eq_ok.mpr ⟨_, ?_, rfl⟩⟩
    rw [restoreRow, ← hSequence]
    refine bind_eq_ok.mpr ⟨_, hRead, ?_⟩
    rw [check_bind_eq_ok, check_bind_eq_ok, require_eq_ok, RunState.commit, hRestore]
    exact ⟨hBefore, hInspect, rfl⟩

/-- Recovery gives the state in which the run was stopped. -/
theorem Reached.recover (h : Reached codec job commits db state) :
    recoverReplayCoordinator codec job db = .ok state := by
  rw [recoverReplayCoordinator, check_bind_eq_ok, h.holds.joinedRows_eq, h.holds.verify_ok
    (fun commit hMem => (h.written commit hMem).1) fun commit hMem => (h.written commit hMem).2]
  exact ⟨rfl, h.restored⟩

/-- After some turns the run has reached tables on which the next run has the outcome of this. -/
theorem Reached.stoppedAfter (hCodec : codec.Lossless job) (turns : ℕ)
    (h : Reached codec job commits db state) :
    ∃ commits' state', Reached codec job commits' (stoppedAfter codec job db turns) state' ∧
      replaySetting codec job (stoppedAfter codec job db turns) = replaySetting codec job db := by
  simp only [Replay.stoppedAfter, h.recover]
  induction turns generalizing commits db state with
  | zero => exact ⟨commits, state, h, rfl⟩
  | succ turns ih =>
      cases hRest : job.trace.events.drop state.next.toNat with
      | nil => exact ⟨commits, state, h, rfl⟩
      | cons event rest =>
          have hEvent : job.trace.events[state.next.toNat]? = some event := by
            rw [← List.head?_drop, hRest, List.head?_cons]
          rw [List.take_succ_cons, replayEvents]
          cases hTurn : replayEvent codec job db state event with
          | error cause => exact ⟨commits, state, h, rfl⟩
          | ok next =>
              obtain ⟨commit, hReached, hNext⟩ := h.turn hCodec hEvent hTurn
              have hTail : job.trace.events.drop next.2.next.toNat = rest := by
                rw [hNext, ← List.drop_drop, hRest, List.drop_one, List.tail_cons]
              have hSame : replaySetting codec job next.1 = replaySetting codec job db := by
                simp only [replaySetting, hReached.recover, h.recover, hRest, hTail, replayEvents,
                  hTurn]
              obtain ⟨commits', state', hLater, hOutcome⟩ := ih hReached
              rw [hTail] at hLater hOutcome
              exact ⟨commits', state', hLater, hOutcome.trans hSame⟩

/-- The same after several runs that were stopped. -/
theorem stops_reached (hCodec : codec.Lossless job) (stops : List ℕ) :
    ∃ commits state, Reached codec job commits (stops.foldl (stoppedAfter codec job) .fresh) state ∧
      replaySetting codec job (stops.foldl (stoppedAfter codec job) .fresh) =
        replaySetting codec job .fresh := by
  induction stops using List.reverseRecOn with
  | nil => exact ⟨[], ⟨job.coordinator, 0, 0⟩, ⟨fresh_holds, by simp, rfl, rfl, rfl, rfl⟩, rfl⟩
  | append_singleton stops turns ih =>
      obtain ⟨commits, state, h, hSame⟩ := ih
      rw [List.foldl_append]
      obtain ⟨commits', state', hNext, hOutcome⟩ := h.stoppedAfter hCodec turns
      exact ⟨commits', state', hNext, hOutcome.trans hSame⟩

end Lemmas

namespace ResumeToy

/-- Two rows in the order of their keys. -/
def file : TraceFile := { TraceToy.file with records := TraceToy.file.records.reverse }

/-- The accepted rows of the file. -/
def events : List ReplayEvent := acceptedEvents TraceToy.std .plain TraceToy.options file

theorem keptEvents_eq : keptEvents TraceToy.std .plain TraceToy.options file = events := by
  rw [keptEvents, keepEvents_eq, TraceToy.options, if_pos rfl, sortEvents]
  exact List.mergeSort_of_pairwise (by decide +kernel)

/-- The trace of the file. -/
def trace : TraceOutput where
  digest := file.digest
  sourceRows := 2
  droppedRows := 0
  chains := ((initHeightsOf events).rows.map (·.1)).mergeSort
  initHeights := initHeightsOf events
  events := events.mapIdx (finishEvent TraceToy.std file.digest (initHeightsOf events))

theorem prepared : prepareTrace TraceToy.std .plain TraceToy.options file = .ok trace := by
  obtain ⟨_, hOther⟩ := TraceToy.prepared
  obtain ⟨hColumns, hPolicy, -⟩ := prepareTrace_eq_ok.mp hOther
  obtain ⟨scan, hScan⟩ := exists_ok_of_isOk (x := (file.records.zipIdx 1).foldlM
    (scanRow TraceToy.std .plain file.header TraceToy.options) ⟨0, 0, []⟩) (by decide +kernel)
  have hRows : ((file.records.zipIdx 1).foldlM (scanRow TraceToy.std .plain
      file.header TraceToy.options) ⟨0, 0, []⟩).toOption.map
        (fun scan => (scan.sourceRows, scan.droppedRows)) = some (2, 0) := by
    decide +kernel
  rw [hScan] at hRows
  obtain ⟨hSource, hDropped⟩ := Prod.mk.inj (Option.some.inj hRows)
  refine prepareTrace_eq_ok.mpr ⟨hColumns, hPolicy, ?_, scan, hScan, ?_⟩
  · rw [keptEvents_eq]
    decide +kernel
  · rw [keptEvents_eq, hSource, hDropped]
    rfl

/-- A run over the trace with a snapshot for each event. -/
def job : ReplayJob .plain where
  std := TraceToy.std
  options := TraceToy.options
  file := file
  trace := trace
  prepared := prepared
  short := by decide +kernel
  setting := .b3
  recordEvery := 1
  profile := ⟨"toy", 10, 1, 2⟩
  policy := ⟨.empty⟩
  coordinator := ⟨.b3, ⟨"toy", 10, 1, 2⟩, ⟨.empty⟩, ⟨⟨"toy", 10, 1, 2⟩, fun _ => .leaf, .empty,
    fun _ => none, [], 0, 0⟩, .new .plain trace.initHeights.rows⟩
  created := rfl

/-- The decisions of the run. -/
def decisions : List ReplayDecision :=
  ((job.coordinator.processAll .plain trace.events).toOption.map (·.1)).getD []

/-- The documents of the run are written as their positions. -/
def codec : ReplayCodec where
  event := CommitToy.listed trace.events
  decision := CommitToy.listed decisions
  path := CommitToy.listed (decisions.map (·.path))
  snapshot := CommitToy.listed (decisions.map fun decision =>
    ⟨decision.sequence, 5, decision.graphNodes, decision.graphEdges, decision.crossEdgesAdded⟩)
  hexDigest _ := "digest"

theorem listed_roundTrips {α : Type} [DecidableEq α] {values : List α}
    (hShort : values.length ≤ 256) (value : α) : (CommitToy.listed values).RoundTrips value := by
  intro document hDocument
  obtain ⟨i, hi, rfl⟩ := Option.map_eq_some_iff.mp hDocument
  obtain ⟨hLess, hGet, -⟩ := List.idxOf?_eq_some_iff.mp hi
  refine ⟨?_, List.cons_ne_nil _ _⟩
  show values[(UInt8.ofNat i).toNat]? = some value
  rw [UInt8.toNat_ofNat', Nat.mod_eq_of_lt (by omega), List.getElem?_eq_getElem hLess, hGet]

theorem codec_lossless : codec.Lossless job := fun _ _ =>
  ⟨listed_roundTrips (by decide +kernel) _, listed_roundTrips (by decide +kernel) _,
    fun _ _ => listed_roundTrips (by decide +kernel) _⟩

end ResumeToy

/-- However often a run is stopped between two events and started again, the tables hold the
decisions of one coordinator for the first events of the trace, each event once; and the next run
ends with the tables and the result, an error included, of a run that was never stopped. -/
theorem interrupted_run_resumes {lower : Lowercase} (codec : ReplayCodec) (job : ReplayJob lower)
    (hCodec : codec.Lossless job) (stops : List ℕ) :
    (∃ commits c, Holds lower codec job.run commits (stops.foldl (stoppedAfter codec job) .fresh) ∧
      commits.map (·.event) <+: job.trace.events ∧
      job.coordinator.processAll lower (commits.map (·.event)) =
        .ok (commits.map (·.decision), c)) ∧
    replaySetting codec job (stops.foldl (stoppedAfter codec job) .fresh) =
      replaySetting codec job .fresh := by
  obtain ⟨commits, state, h, hSame⟩ := stops_reached hCodec stops
  exact ⟨⟨commits, state.coordinator, h.holds, h.events ▸ List.take_prefix _ _, h.decided⟩, hSame⟩

/-- The first run is stopped after one event; the next one commits the other and ends. -/
theorem interrupted_run_resumes_toy :
    (stoppedAfter ResumeToy.codec ResumeToy.job .fresh 1).completed = 1 ∧
      (replaySetting ResumeToy.codec ResumeToy.job .fresh).1.completed = 2 ∧
      (replaySetting ResumeToy.codec ResumeToy.job .fresh).2.isOk ∧
      replaySetting ResumeToy.codec ResumeToy.job
          (stoppedAfter ResumeToy.codec ResumeToy.job .fresh 1) =
        replaySetting ResumeToy.codec ResumeToy.job .fresh := by
  refine ⟨by decide +kernel, by decide +kernel, by decide +kernel, ?_⟩
  exact (interrupted_run_resumes _ _ ResumeToy.codec_lossless [1]).2

end TrustMap.Mapnode.Replay
