import TrustMap.Mapnode.Replay.Repository

/-!
`verifyPersistedDerivedState`: the rows of the tables are joined by sequence and compared with what
the event and decision documents say.
-/

namespace TrustMap.Mapnode.Replay

open Checks

/-! ## The query -/

/-- A row of the join. -/
structure JoinedRow where
  event : EventRow
  decision : DecisionRow
  path : Option PathRow
  crossEdge : Option CrossEdgeRow
  snapshot : Option SnapshotRow

/-- The events with their decisions, in the order of the sequences, and what there is for them in
the other tables. -/
def joinedRows (db : ReplayDB) : List JoinedRow :=
  (db.events.rows.insertionSort fun row other => row.sequence ≤ other.sequence).filterMap fun row =>
    (db.decisions.find? row.sequence).map fun decision =>
      ⟨row, decision, db.paths.find? row.sequence, db.crossEdges.find? row.sequence,
        db.snapshots.find? row.sequence⟩

/-! ## The checks -/

/-- The errors of `verifyPersistedDerivedState`. -/
inductive VerifyError
  | scan
  | decode
  | inconsistent
  | scalars
  | digest
  | crossEdge
  | path
  | snapshot
  | progress
  | count
  | baseline
  deriving DecidableEq

/-- A column read into a word. -/
def scanWord (column : ℤ) : Except VerifyError UInt64 :=
  if 0 ≤ column then .ok (UInt64.ofNat column.toNat) else .error .scan

/-- `uint64(column)`, for a column that was read as a signed number. -/
def wrapWord (column : ℤ) : UInt64 := UInt64.ofNat (column % 2 ^ 64).toNat

/-- A document read back. -/
def decoded {α : Type} (codec : Codec α) (document : List UInt8) : Except VerifyError α :=
  match codec.decode document with
  | some value => .ok value
  | none => .error .decode

/-- The map of the baselines. -/
abbrev ExpectedBaselines := Table (fun entry : (String × String) × UInt64 => entry.1)

/-- The variables of the loop. -/
structure VerifyState where
  completed : UInt64
  expected : ExpectedBaselines
  paths : ℕ
  snapshots : ℕ

/-- The cross edge of an event. -/
def CrossEdgeFits (lower : Lowercase) (sequence : UInt64) (event : ReplayEvent)
    (row : CrossEdgeRow) : Prop :=
  wrapWord row.sequence = sequence ∧
    row.fromChain = canonicalChain lower event.destination.chain ∧
    wrapWord row.fromHeight = event.destination.originalHeight ∧
    row.toChain = canonicalChain lower event.source.chain ∧
    wrapWord row.toHeight = event.source.originalHeight

instance (lower : Lowercase) (sequence : UInt64) (event : ReplayEvent) (row : CrossEdgeRow) :
    Decidable (CrossEdgeFits lower sequence event row) := by
  unfold CrossEdgeFits
  infer_instance

/-- The check of the path of a row. -/
def checkPath (codec : ReplayCodec) (decision : ReplayDecision) (path : Option PathRow) :
    Except VerifyError Unit :=
  if decision.takesPath then
    match codec.path.encode decision.path with
    | none => .error .path
    | some document => require (path.map (·.pathJSON) = some document) .path
  else require (path = none) .path

/-- A snapshot is recorded for this sequence. -/
def expectsSnapshot (run : ReplayRun) (sequence : UInt64) : Bool :=
  run.setting.usesTrustMap && 0 < run.recordEvery && sequence % run.recordEvery = 0

/-- The check of the snapshot of a row. -/
def checkSnapshot (codec : ReplayCodec) (event : ReplayEvent) (decision : ReplayDecision) :
    Option SnapshotRow → Except VerifyError Unit
  | none => .ok ()
  | some row => do
      let snapshot ← decoded codec.snapshot row.snapshotJSON
      require (SnapshotFits event decision snapshot) .snapshot

/-- The checks of a row of the join. -/
def checkRow (lower : Lowercase) (codec : ReplayCodec) (run : ReplayRun) (completed : UInt64)
    (row : JoinedRow) : Except VerifyError (ReplayEvent × ReplayDecision) := do
  let sequence ← scanWord row.event.sequence
  let directCost ← scanWord row.decision.directCost
  let chosenCost ← scanWord row.decision.chosenCost
  let event ← decoded codec.event row.event.eventJSON
  let decision ← decoded codec.decision row.decision.decisionJSON
  require (sequence = completed ∧ event.sequence = sequence ∧ decision.sequence = sequence ∧
    event.id = decision.eventID) .inconsistent
  require (directCost = decision.directCost ∧ chosenCost = decision.chosenCost ∧
    row.decision.decision = decision.decision.text) .scalars
  require (row.decision.integrityDigest =
    codec.integrityDigest row.event.eventJSON row.decision.decisionJSON) .digest
  require (∃ edge ∈ row.crossEdge, CrossEdgeFits lower sequence event edge) .crossEdge
  checkPath codec decision row.path
  require (expectsSnapshot run sequence = row.snapshot.isSome) .snapshot
  checkSnapshot codec event decision row.snapshot
  return (event, decision)

/-- A turn of the loop. -/
def verifyRow (lower : Lowercase) (codec : ReplayCodec) (run : ReplayRun) (state : VerifyState)
    (row : JoinedRow) : Except VerifyError VerifyState := do
  let (event, decision) ← checkRow lower codec run state.completed row
  return {
    completed := state.completed + 1
    expected := state.expected.upsert (baselineKey lower event.destination.chain event.source.chain,
      decision.baselineAfter)
    paths := if decision.takesPath then state.paths + 1 else state.paths
    snapshots := if row.snapshot.isSome then state.snapshots + 1 else state.snapshots }

/-- The loop over the baselines. -/
def verifyBaselines (expected : ExpectedBaselines) : List BaselineRow → Except VerifyError Unit
  | [] => .ok ()
  | row :: rows => do
      let height ← scanWord row.height
      require ((expected.find? row.key).map (·.2) = some height) .baseline
      verifyBaselines expected rows

/-- `verifyPersistedDerivedState`. -/
def verifyPersistedDerivedState (lower : Lowercase) (codec : ReplayCodec) (run : ReplayRun)
    (db : ReplayDB) : Except VerifyError Unit := do
  let progress ← scanWord db.completed
  let state ← (joinedRows db).foldlM (verifyRow lower codec run) ⟨0, .empty, 0, 0⟩
  require (progress = state.completed ∧ (0 < state.completed →
    (db.last.map wrapWord).getD 0 = state.completed - 1)) .progress
  require (db.crossEdges.rows.length = state.completed.toNat) .count
  require (db.paths.rows.length = state.paths) .count
  require (db.snapshots.rows.length = state.snapshots) .count
  verifyBaselines state.expected db.baselines.rows
  require (db.baselines.rows.length = state.expected.rows.length) .baseline

/-! ## Committed rows pass the checks -/

section Lemmas

variable {lower : Lowercase} {codec : ReplayCodec} {run : ReplayRun} {db : ReplayDB}
  {commit other : Commit} {commits : List Commit}

/-- The documents of a call are read back as they were written. -/
structure Commit.RoundTrips (codec : ReplayCodec) (commit : Commit) : Prop where
  event : codec.event.RoundTrips commit.event
  decision : codec.decision.RoundTrips commit.decision
  snapshot : ∀ snapshot ∈ commit.snapshot, codec.snapshot.RoundTrips snapshot

/-- The call has a snapshot exactly if the record interval asks for one. -/
def Commit.FollowsInterval (run : ReplayRun) (commit : Commit) : Prop :=
  expectsSnapshot run commit.event.sequence = commit.snapshot.isSome

/-- The row of the join for a commit. -/
def Commit.joinedRow (lower : Lowercase) (codec : ReplayCodec) (commit : Commit) : JoinedRow :=
  ⟨commit.eventRow codec, commit.decisionRow codec, commit.pathRow codec,
    some (commit.crossEdgeRow lower), commit.snapshotRow codec⟩

/-- The variables of the loop after the rows of the commits. -/
def verified (lower : Lowercase) (codec : ReplayCodec) (commits : List Commit) : VerifyState where
  completed := UInt64.ofNat commits.length
  expected := commits.foldl (fun (table : ExpectedBaselines) commit => table.upsert
    (baselineKey lower commit.event.destination.chain commit.event.source.chain,
      commit.decision.baselineAfter)) .empty
  paths := (commits.filterMap (Commit.pathRow codec)).length
  snapshots := (commits.filterMap (Commit.snapshotRow codec)).length

theorem scanWord_toNat (word : UInt64) : scanWord word.toNat = .ok word := by
  rw [scanWord, if_pos (Int.natCast_nonneg _), Int.toNat_natCast, UInt64.ofNat_toNat]

theorem wrapWord_natCast {n : ℕ} (hSmall : n < 2 ^ 64) : wrapWord n = UInt64.ofNat n := by
  rw [wrapWord, Int.emod_eq_of_lt (Int.natCast_nonneg _) (by exact_mod_cast hSmall),
    Int.toNat_natCast]

theorem wrapWord_toNat (word : UInt64) : wrapWord word.toNat = word := by
  rw [wrapWord_natCast word.toNat_lt, UInt64.ofNat_toNat]

theorem decoded_eq_ok {α : Type} {codec : Codec α} {document : List UInt8} {value : α} :
    decoded codec document = .ok value ↔ codec.decode document = some value := by
  unfold decoded
  cases codec.decode document with
  | none => simp
  | some found => simp

/-- A written value is read back from its document. -/
theorem Codec.RoundTrips.decoded_getD {α : Type} {codec : Codec α} {value : α}
    (h : codec.RoundTrips value) (hEncode : ∃ document, codec.encode value = some document) :
    decoded codec ((codec.encode value).getD []) = .ok value := by
  obtain ⟨document, hDocument⟩ := hEncode
  rw [hDocument, decoded_eq_ok]
  exact (h document hDocument).1

/-- Values with the same document are the same. -/
theorem Codec.RoundTrips.eq_of_encode_eq {α : Type} {codec : Codec α} {value other : α}
    (h : codec.RoundTrips value) (hOther : codec.RoundTrips other)
    (hEncode : ∃ document, codec.encode other = some document)
    (hSame : codec.encode value = codec.encode other) : value = other := by
  obtain ⟨document, hDocument⟩ := hEncode
  have hRead := (h document (hSame.trans hDocument)).1
  rw [(hOther document hDocument).1] at hRead
  exact (Option.some.inj hRead).symm

/-- The document of a snapshot is not empty. -/
theorem Commit.RoundTrips.snapshotDocument_ne_nil (h : commit.RoundTrips codec)
    {snapshot : ReplaySnapshot} (hSnapshot : commit.snapshot = some snapshot)
    (hEncode : ∃ document, codec.snapshot.encode snapshot = some document) :
    commit.snapshotDocument codec ≠ [] := by
  obtain ⟨document, hDocument⟩ := hEncode
  rw [Commit.snapshotDocument, hSnapshot, Option.map_some, Option.getD_some, hDocument]
  exact (h.snapshot snapshot hSnapshot document hDocument).2

/-- Calls with the same documents are the same. -/
theorem SameDocuments.eq (h : SameDocuments codec commit other) (hCommit : commit.RoundTrips codec)
    (hOther : other.RoundTrips codec) (hWritable : other.Writable codec run)
    (hEncode : ∀ snapshot ∈ commit.snapshot, ∃ document, codec.snapshot.encode snapshot =
      some document) :
    commit = other := by
  obtain ⟨hEvent, hDecision, hSnapshot⟩ := h
  have hSameEvent := hCommit.event.eq_of_encode_eq hOther.event hWritable.event hEvent
  have hSameDecision := hCommit.decision.eq_of_encode_eq hOther.decision hWritable.decision
    hDecision
  have hSameSnapshot : commit.snapshot = other.snapshot := by
    cases hLeft : commit.snapshot with
    | none =>
        cases hRight : other.snapshot with
        | none => rfl
        | some snapshot =>
            refine (hOther.snapshotDocument_ne_nil hRight
              (hWritable.snapshot snapshot hRight).2 ?_).elim
            rw [← hSnapshot, Commit.snapshotDocument, hLeft]
            rfl
    | some snapshot =>
        have hFirst := hEncode snapshot hLeft
        cases hRight : other.snapshot with
        | none =>
            refine (hCommit.snapshotDocument_ne_nil hLeft hFirst ?_).elim
            rw [hSnapshot, Commit.snapshotDocument, hRight]
            rfl
        | some found =>
            have hSecond := (hWritable.snapshot found hRight).2
            refine congrArg some ((hCommit.snapshot snapshot hLeft).eq_of_encode_eq
              (hOther.snapshot found hRight) hSecond ?_)
            obtain ⟨left, hLeftDocument⟩ := hFirst
            obtain ⟨right, hRightDocument⟩ := hSecond
            simp only [Commit.snapshotDocument, hLeft, hRight, Option.map_some, Option.getD_some,
              hLeftDocument, hRightDocument] at hSnapshot
            rw [hLeftDocument, hRightDocument, hSnapshot]
  cases commit
  cases other
  simp only at hSameEvent hSameDecision hSameSnapshot
  rw [hSameEvent, hSameDecision, hSameSnapshot]

theorem Holds.find?_crossEdge (h : Holds lower codec run commits db) {i : ℕ}
    (hCommit : commits[i]? = some commit) :
    db.crossEdges.find? (i : ℤ) = some (commit.crossEdgeRow lower) := by
  have hRows : db.crossEdges.rows = commits.filterMap fun commit =>
      some (commit.crossEdgeRow lower) := by
    rw [h.crossEdges, List.filterMap_eq_map']
  refine h.find?_some hRows (fun commit row hRow => ?_) hCommit
  obtain rfl := Option.some.inj hRow
  rfl

/-- The join has one row for each commit, in their order. -/
theorem Holds.joinedRows_eq (h : Holds lower codec run commits db) :
    joinedRows db = commits.map (Commit.joinedRow lower codec) := by
  have hSorted : (commits.map (Commit.eventRow codec)).Pairwise
      fun row other => row.sequence ≤ other.sequence := by
    rw [List.pairwise_map, List.pairwise_iff_getElem]
    intro i j hi hj hLess
    have hFirst := h.sequence i _ (List.getElem?_eq_getElem hi)
    have hSecond := h.sequence j _ (List.getElem?_eq_getElem hj)
    simp only [Commit.eventRow]
    omega
  rw [joinedRows, h.events, hSorted.insertionSort_eq, List.filterMap_map, ← List.filterMap_eq_map']
  refine List.filterMap_congr fun commit hMem => ?_
  obtain ⟨i, hi⟩ := List.getElem?_of_mem hMem
  have hIndex : (commit.eventRow codec).sequence = (i : ℤ) :=
    congrArg Nat.cast (h.sequence i commit hi)
  simp only [Function.comp_apply]
  rw [hIndex, h.find?_decision, hi, h.find?_path hi, h.find?_crossEdge hi, h.find?_snapshot hi]
  rfl

theorem checkPath_pathRow (hWritable : commit.Writable codec run) :
    checkPath codec commit.decision (commit.pathRow codec) = .ok () := by
  unfold checkPath Commit.pathRow
  split
  · rename_i hTakes
    obtain ⟨document, hDocument⟩ := hWritable.path hTakes
    simp only [hDocument]
    exact require_eq_ok.mpr rfl
  · exact require_eq_ok.mpr rfl

theorem checkSnapshot_snapshotRow (hWritable : commit.Writable codec run)
    (hRound : commit.RoundTrips codec) :
    checkSnapshot codec commit.event commit.decision (commit.snapshotRow codec) = .ok () := by
  unfold Commit.snapshotRow
  cases hSnapshot : commit.snapshot with
  | none => rfl
  | some snapshot =>
      obtain ⟨hFits, hEncode⟩ := hWritable.snapshot snapshot hSnapshot
      refine bind_eq_ok.mpr ⟨snapshot, (hRound.snapshot snapshot hSnapshot).decoded_getD hEncode,
        ?_⟩
      exact require_eq_ok.mpr hFits

/-- The row of a commit passes the checks. -/
theorem checkRow_joinedRow (hWritable : commit.Writable codec run)
    (hRound : commit.RoundTrips codec)
    (hInterval : commit.FollowsInterval run) :
    checkRow lower codec run commit.event.sequence (commit.joinedRow lower codec) =
      .ok (commit.event, commit.decision) := by
  unfold checkRow
  refine bind_eq_ok.mpr ⟨_, scanWord_toNat _, ?_⟩
  refine bind_eq_ok.mpr ⟨_, scanWord_toNat _, ?_⟩
  refine bind_eq_ok.mpr ⟨_, scanWord_toNat _, ?_⟩
  refine bind_eq_ok.mpr ⟨_, hRound.event.decoded_getD hWritable.event, ?_⟩
  refine bind_eq_ok.mpr ⟨_, hRound.decision.decoded_getD hWritable.decision, ?_⟩
  refine check_bind_eq_ok.mpr ⟨require_eq_ok.mpr
    ⟨rfl, rfl, hWritable.sequence, hWritable.eventID.symm⟩, ?_⟩
  refine check_bind_eq_ok.mpr ⟨require_eq_ok.mpr ⟨rfl, rfl, rfl⟩, ?_⟩
  refine check_bind_eq_ok.mpr ⟨require_eq_ok.mpr rfl, ?_⟩
  refine check_bind_eq_ok.mpr ⟨require_eq_ok.mpr ⟨commit.crossEdgeRow lower, rfl, ?_⟩, ?_⟩
  · exact ⟨wrapWord_toNat _, rfl, wrapWord_toNat _, rfl, wrapWord_toNat _⟩
  refine check_bind_eq_ok.mpr ⟨checkPath_pathRow hWritable, ?_⟩
  refine check_bind_eq_ok.mpr ⟨require_eq_ok.mpr ?_, ?_⟩
  · rw [hInterval, Commit.joinedRow, Commit.snapshotRow, Option.isSome_map]
  exact check_bind_eq_ok.mpr ⟨checkSnapshot_snapshotRow hWritable hRound, rfl⟩

theorem verified_append (commits : List Commit) (commit : Commit) :
    verified lower codec (commits ++ [commit]) = {
      completed := (verified lower codec commits).completed + 1
      expected := (verified lower codec commits).expected.upsert
        (baselineKey lower commit.event.destination.chain commit.event.source.chain,
          commit.decision.baselineAfter)
      paths := if commit.decision.takesPath then (verified lower codec commits).paths + 1
        else (verified lower codec commits).paths
      snapshots := if (commit.snapshotRow codec).isSome then
          (verified lower codec commits).snapshots + 1
        else (verified lower codec commits).snapshots } := by
  have hPaths : ((commits ++ [commit]).filterMap (Commit.pathRow codec)).length =
      if commit.decision.takesPath then (commits.filterMap (Commit.pathRow codec)).length + 1
        else (commits.filterMap (Commit.pathRow codec)).length := by
    rw [List.filterMap_append, List.length_append]
    cases hTakes : commit.decision.takesPath <;> simp [Commit.pathRow, hTakes]
  have hSnapshots : ((commits ++ [commit]).filterMap (Commit.snapshotRow codec)).length =
      if (commit.snapshotRow codec).isSome then
        (commits.filterMap (Commit.snapshotRow codec)).length + 1
        else (commits.filterMap (Commit.snapshotRow codec)).length := by
    rw [List.filterMap_append, List.length_append, List.filterMap_cons]
    cases commit.snapshotRow codec <;> simp
  have hCompleted : UInt64.ofNat (commits ++ [commit]).length =
      UInt64.ofNat commits.length + 1 := by
    rw [List.length_append, List.length_singleton, UInt64.ofNat_add]
    rfl
  simp only [verified, hPaths, hSnapshots, hCompleted, List.foldl_append, List.foldl_cons,
    List.foldl_nil]

/-- A turn of the loop at the row of the next commit. -/
theorem verifyRow_joinedRow (hSequence : commit.event.sequence = UInt64.ofNat commits.length)
    (hWritable : commit.Writable codec run) (hRound : commit.RoundTrips codec)
    (hInterval : commit.FollowsInterval run) :
    verifyRow lower codec run (verified lower codec commits) (commit.joinedRow lower codec) =
      .ok (verified lower codec (commits ++ [commit])) := by
  have hCompleted : (verified lower codec commits).completed = commit.event.sequence :=
    hSequence.symm
  rw [verified_append, verifyRow, hCompleted, checkRow_joinedRow hWritable hRound hInterval]
  rfl

/-- The loop over the rows of the commits. -/
theorem Holds.foldlM_verifyRow (h : Holds lower codec run commits db)
    (hRound : ∀ commit ∈ commits, commit.RoundTrips codec)
    (hInterval : ∀ commit ∈ commits, commit.FollowsInterval run) {done : List Commit}
    (hDone : done <+: commits) :
    (done.map (Commit.joinedRow lower codec)).foldlM (verifyRow lower codec run) ⟨0, .empty, 0, 0⟩ =
      .ok (verified lower codec done) := by
  -- The rows are taken in their order, so the induction adds a commit at the end.
  induction done using List.reverseRecOn with
  | nil => rfl
  | append_singleton done commit ih =>
      have hMem : commit ∈ commits := hDone.subset (by simp)
      have hPosition : commits[done.length]? = some commit := by
        obtain ⟨rest, rfl⟩ := hDone
        simp
      have hSequence : commit.event.sequence = UInt64.ofNat done.length := by
        rw [← h.sequence _ commit hPosition, UInt64.ofNat_toNat]
      rw [List.map_append, List.map_singleton, List.foldlM_append,
        ih ((List.prefix_append done [commit]).trans hDone), ok_bind, List.foldlM_cons,
        verifyRow_joinedRow hSequence (h.writable commit hMem) (hRound commit hMem)
          (hInterval commit hMem)]
      rfl

theorem verifyBaselines_eq_ok {expected : ExpectedBaselines} {rows : List BaselineRow} :
    verifyBaselines expected rows = .ok () ↔ ∀ row ∈ rows, ∃ height,
      scanWord row.height = .ok height ∧ (expected.find? row.key).map (·.2) = some height := by
  induction rows with
  | nil => simp [verifyBaselines]
  | cons row rows ih =>
      rw [verifyBaselines, bind_eq_ok]
      simp only [check_bind_eq_ok, require_eq_ok, ih, List.forall_mem_cons]
      constructor
      · rintro ⟨height, hScan, hHeight, hRest⟩
        exact ⟨⟨height, hScan, hHeight⟩, hRest⟩
      · rintro ⟨⟨height, hScan, hHeight⟩, hRest⟩
        exact ⟨height, hScan, hHeight, hRest⟩

/-- The row of an entry of the map. -/
def baselineRowOf (entry : (String × String) × UInt64) : BaselineRow :=
  ⟨entry.1.1, entry.1.2, entry.2.toNat⟩

theorem baselineRowOf_key (entry : (String × String) × UInt64) :
    (baselineRowOf entry).key = entry.1 := rfl

section Accepted

variable (h : Holds lower codec run commits db)

include h

/-- The table of the baselines and the map of the loop have the same entries. -/
theorem Holds.baselines_eq :
    db.baselines.rows = (verified lower codec commits).expected.rows.map baselineRowOf := by
  rw [h.baselines]
  clear h
  induction commits using List.reverseRecOn with
  | nil => rfl
  | append_singleton commits commit ih =>
      rw [verified_append, List.foldl_append, List.foldl_cons, List.foldl_nil]
      exact Table.rows_upsert_map baselineRowOf_key ih
        (baselineKey lower commit.event.destination.chain
        commit.event.source.chain, commit.decision.baselineAfter)

theorem Holds.verifyBaselines_ok :
    verifyBaselines (verified lower codec commits).expected db.baselines.rows = .ok () := by
  rw [verifyBaselines_eq_ok, h.baselines_eq]
  intro row hMem
  obtain ⟨entry, hEntry, rfl⟩ := List.mem_map.mp hMem
  refine ⟨entry.2, scanWord_toNat _, ?_⟩
  rw [baselineRowOf_key, Table.find?_key hEntry, Option.map_some]

/-- The progress of the commits. -/
theorem Holds.progress_ok :
    scanWord db.completed = .ok (UInt64.ofNat commits.length) ∧
      (0 < UInt64.ofNat commits.length →
        (db.last.map wrapWord).getD 0 = UInt64.ofNat commits.length - 1) := by
  have hLength := h.length_le
  refine ⟨by rw [h.completed, scanWord, if_pos (Int.natCast_nonneg _), Int.toNat_natCast], ?_⟩
  intro hPositive
  rw [h.last]
  cases hLast : commits.length with
  | zero => simp [hLast] at hPositive
  | succ n =>
      have hNonempty : commits ≠ [] := by
        rintro rfl
        cases hLast
      have hCast : ((n + 1 : ℕ) : ℤ) - 1 = (n : ℤ) := by omega
      rw [if_neg hNonempty, Option.map_some, Option.getD_some, hCast, wrapWord_natCast (by omega),
        UInt64.ofNat_add]
      exact (UInt64.add_sub_cancel _ _).symm

/-- Committed rows are accepted. -/
theorem Holds.verify_ok (hRound : ∀ commit ∈ commits, commit.RoundTrips codec)
    (hInterval : ∀ commit ∈ commits, commit.FollowsInterval run) :
    verifyPersistedDerivedState lower codec run db = .ok () := by
  obtain ⟨hScan, hLast⟩ := h.progress_ok
  have hLength : commits.length = (UInt64.ofNat commits.length).toNat := by
    have := h.length_le
    rw [UInt64.toNat_ofNat', Nat.mod_eq_of_lt (by omega)]
  unfold verifyPersistedDerivedState
  refine bind_eq_ok.mpr ⟨_, hScan, ?_⟩
  rw [h.joinedRows_eq]
  refine bind_eq_ok.mpr ⟨_, h.foldlM_verifyRow hRound hInterval List.prefix_rfl, ?_⟩
  refine check_bind_eq_ok.mpr ⟨require_eq_ok.mpr ⟨rfl, hLast⟩, ?_⟩
  refine check_bind_eq_ok.mpr ⟨require_eq_ok.mpr ?_, ?_⟩
  · rw [h.crossEdges, List.length_map]
    exact hLength
  refine check_bind_eq_ok.mpr ⟨require_eq_ok.mpr (congrArg List.length h.paths), ?_⟩
  refine check_bind_eq_ok.mpr ⟨require_eq_ok.mpr (congrArg List.length h.snapshots), ?_⟩
  refine check_bind_eq_ok.mpr ⟨h.verifyBaselines_ok, require_eq_ok.mpr ?_⟩
  rw [h.baselines_eq, List.length_map]

end Accepted

/-! ## Runs of calls -/

/-- The tables after calls on a new file. -/
def committed (lower : Lowercase) (codec : ReplayCodec) (run : ReplayRun) (calls : List Commit) :
    ReplayDB :=
  calls.foldl (afterCommit lower codec run) .fresh

theorem afterCommit_of_error {error : CommitError}
    (h : commitEvent lower codec run db commit = .error error) :
    afterCommit lower codec run db commit = db := by
  rw [afterCommit, h]
  rfl

theorem afterCommit_of_ok {next : ReplayDB} (h : commitEvent lower codec run db commit = .ok next) :
    afterCommit lower codec run db commit = next := by
  rw [afterCommit, h]
  rfl

/-- A call that succeeds repeats a committed triple, or it writes the rows of the next one. -/
theorem Holds.commitEvent_ok (h : Holds lower codec run commits db)
    (hRounds : ∀ commit ∈ commits, commit.RoundTrips codec) (hRound : commit.RoundTrips codec)
    {next : ReplayDB} (hCommit : commitEvent lower codec run db commit = .ok next) :
    (commit ∈ commits ∧ next = db) ∨
      (commit.event.sequence.toNat = commits.length ∧
        Holds lower codec run (commits ++ [commit]) next) := by
  rcases h.commitEvent_cases hCommit with ⟨old, hOld, hSame, hNext⟩ | hNext
  · have hMem := List.mem_of_getElem? hOld
    obtain ⟨_, _, _, _, _, _, hSnapshot, _, _⟩ := commitEvent_eq_ok.mp hCommit
    have hEncode := (encodeSnapshot_eq_ok.mp hSnapshot).1
    have hEq := hSame.eq hRound (hRounds old hMem) (h.writable old hMem)
      fun snapshot hFound => (hEncode snapshot hFound).2
    exact .inl ⟨hEq ▸ hMem, hNext⟩
  · exact .inr hNext

/-- One of the calls was made with this triple and has succeeded. -/
def Succeeded (lower : Lowercase) (codec : ReplayCodec) (run : ReplayRun) (calls : List Commit)
    (commit : Commit) : Prop :=
  ∃ before after next, calls = before ++ commit :: after ∧
    commitEvent lower codec run (committed lower codec run before) commit = .ok next

theorem Succeeded.mem {calls : List Commit} (h : Succeeded lower codec run calls commit) :
    commit ∈ calls := by
  obtain ⟨before, after, -, rfl, -⟩ := h
  simp

theorem succeeded_snoc {calls : List Commit} {last : Commit} :
    Succeeded lower codec run (calls ++ [last]) commit ↔
      Succeeded lower codec run calls commit ∨ (commit = last ∧
        ∃ next, commitEvent lower codec run (committed lower codec run calls) last = .ok next) := by
  constructor
  · rintro ⟨before, after, next, hCalls, hNext⟩
    cases after using List.reverseRecOn with
    | nil =>
        obtain ⟨rfl, hLast⟩ := List.append_inj' hCalls rfl
        obtain rfl := (List.singleton_inj.mp hLast).symm
        exact .inr ⟨rfl, next, hNext⟩
    | append_singleton after _ =>
        rw [← List.cons_append, ← List.append_assoc] at hCalls
        exact .inl ⟨before, after, next, (List.append_inj' hCalls rfl).1, hNext⟩
  · rintro (⟨before, after, next, rfl, hNext⟩ | ⟨rfl, next, hNext⟩)
    · exact ⟨before, after ++ [last], next, by simp, hNext⟩
    · exact ⟨calls, [], next, rfl, hNext⟩

/-- After any calls the tables hold the rows of those that succeeded. -/
theorem committed_holds {calls : List Commit} (hRound : ∀ commit ∈ calls, commit.RoundTrips codec) :
    ∃ commits : List Commit,
      (∀ commit, commit ∈ commits ↔ Succeeded lower codec run calls commit) ∧
      Holds lower codec run commits (committed lower codec run calls) := by
  induction calls using List.reverseRecOn with
  | nil =>
      refine ⟨[], fun commit => ⟨nofun, fun h => ?_⟩, fresh_holds⟩
      cases h.mem
  | append_singleton calls last ih =>
      obtain ⟨hRounds, hLast⟩ := List.forall_mem_append.mp hRound
      obtain ⟨commits, hCommits, hHolds⟩ := ih hRounds
      have hStep : committed lower codec run (calls ++ [last]) =
          afterCommit lower codec run (committed lower codec run calls) last := by
        rw [committed, List.foldl_append]
        rfl
      simp only [hStep, succeeded_snoc, ← hCommits]
      cases hCommit : commitEvent lower codec run (committed lower codec run calls) last with
      | error error =>
          rw [afterCommit_of_error hCommit]
          exact ⟨commits, by simp, hHolds⟩
      | ok next =>
          rw [afterCommit_of_ok hCommit]
          rcases hHolds.commitEvent_ok (fun commit hMem =>
            hRounds commit ((hCommits commit).mp hMem).mem)
            (hLast last List.mem_cons_self) hCommit with ⟨hMem, rfl⟩ | ⟨-, hNext⟩
          · refine ⟨commits, fun commit => ⟨.inl, ?_⟩, hHolds⟩
            rintro (hOld | ⟨rfl, -⟩)
            · exact hOld
            · exact hMem
          · exact ⟨commits ++ [last], by simp, hNext⟩

/-- A committed triple can be committed again. -/
theorem Holds.commitEvent_again (h : Holds lower codec run commits db) (hMem : commit ∈ commits) :
    commitEvent lower codec run db commit = .ok db := by
  obtain ⟨i, hi⟩ := List.getElem?_of_mem hMem
  have hIndex := h.sequence i commit hi
  have hWritable := h.writable commit hMem
  obtain ⟨eventJSON, hEvent⟩ := hWritable.event
  obtain ⟨decisionJSON, hDecision⟩ := hWritable.decision
  refine commitEvent_eq_ok.mpr ⟨eventJSON, decisionJSON, _,
    ⟨hWritable.id, hWritable.eventID, hWritable.sequence, hWritable.setting⟩, hEvent, hDecision,
    encodeSnapshot_eq_ok.mpr ⟨hWritable.snapshot, rfl⟩, hWritable.bounded _ (by simp), .inl ?_⟩
  rw [hIndex, h.find?_event, h.find?_decision, h.find?_snapshot hi, hi]
  refine ⟨_, _, rfl, rfl, ⟨?_, ?_, ?_⟩, rfl⟩
  · rw [Commit.eventRow, hEvent]
    rfl
  · rw [Commit.decisionRow, hDecision]
    rfl
  · rw [Commit.snapshotRow, Option.map_map]
    rfl

/-- Other content at a committed sequence, and a call after a gap, fail. -/
theorem Holds.commitEvent_conflict (h : Holds lower codec run commits db)
    (hRounds : ∀ commit ∈ commits, commit.RoundTrips codec) (hRound : commit.RoundTrips codec)
    (hNew : commit ∉ commits) (hNext : commit.event.sequence.toNat ≠ commits.length) :
    ∃ error, commitEvent lower codec run db commit = .error error := by
  cases hCommit : commitEvent lower codec run db commit with
  | error error => exact ⟨error, rfl⟩
  | ok next =>
      rcases h.commitEvent_ok hRounds hRound hCommit with ⟨hMem, -⟩ | ⟨hLength, -⟩
      · exact (hNew hMem).elim
      · exact (hNext hLength).elim

end Lemmas

instance {α : Type} [DecidableEq α] (codec : Codec α) (value : α) :
    Decidable (codec.RoundTrips value) :=
  inferInstanceAs (Decidable (∀ document ∈ codec.encode value,
    codec.decode document = some value ∧ document ≠ []))

instance (codec : ReplayCodec) (commit : Commit) : Decidable (commit.RoundTrips codec) :=
  decidable_of_iff (codec.event.RoundTrips commit.event ∧
    codec.decision.RoundTrips commit.decision ∧
    ∀ snapshot ∈ commit.snapshot, codec.snapshot.RoundTrips snapshot)
    ⟨fun h => ⟨h.1, h.2.1, h.2.2⟩, fun h => ⟨h.event, h.decision, h.snapshot⟩⟩

instance (run : ReplayRun) (commit : Commit) : Decidable (commit.FollowsInterval run) :=
  inferInstanceAs (Decidable (_ = _))

namespace CommitToy

/-- The values of a list, each written as its position. -/
def listed {α : Type} [DecidableEq α] (values : List α) : Codec α where
  encode value := (values.idxOf? value).map fun i => [UInt8.ofNat i]
  decode
    | [byte] => values[byte.toNat]?
    | _ => none

/-- The event of a sequence, from chain b to chain a. -/
def event (id : String) (sequence height : UInt64) : ReplayEvent :=
  ⟨id, sequence, sequence, ⟨"b", height, 0⟩, ⟨"a", 1, 0⟩, 0, [], 1, 0⟩

/-- A decision of the given kind. -/
def decision (id : String) (sequence height : UInt64) (kind : ReplayDecisionKind) :
    ReplayDecision :=
  ⟨id, sequence, .b2, kind, true, 0, height, 1, 1, false, 0, 0, false, 5, false, 0, 0, 5,
    ⟨0, [], []⟩,
    2, 1, 1⟩

/-- The first commit, with a snapshot. -/
def first : Commit := ⟨event "e0" 0 7, decision "e0" 0 7 .direct, some ⟨0, 0, 2, 1, 1⟩⟩

/-- The second commit, which takes a path. -/
def second : Commit := ⟨event "e1" 1 9, decision "e1" 1 9 .trustMap, none⟩

/-- Another event for the first sequence. -/
def conflicting : Commit := ⟨event "e2" 0 8, decision "e2" 0 8 .direct, some ⟨0, 0, 2, 1, 1⟩⟩

/-- The calls: one after a gap, the first commit twice, a conflict, and the second commit. -/
def calls : List Commit := [second, first, first, conflicting, second]

/-- The codec of the calls. -/
def codec : ReplayCodec where
  event := listed (calls.map (·.event))
  decision := listed (calls.map (·.decision))
  path := listed (calls.map (·.decision.path))
  snapshot := listed (calls.filterMap (·.snapshot))
  hexDigest _ := "digest"

/-- A run with a snapshot for every second event. -/
def run : ReplayRun := ⟨.b2, 2, 2⟩

end CommitToy

/-- After any calls the tables hold exactly the rows of the triples whose calls succeeded, numbered
0, …, n - 1 where n is the progress. A committed triple can be repeated without effect; any other
call that is not the next one fails and changes nothing. If the snapshots follow the record
interval, the tables are accepted. -/
theorem commitEvent_exactly_once (lower : Lowercase) (codec : ReplayCodec) (run : ReplayRun)
    (calls : List Commit) (hRound : ∀ commit ∈ calls, commit.RoundTrips codec) :
    ∃ commits : List Commit,
      (∀ commit, commit ∈ commits ↔ Succeeded lower codec run calls commit) ∧
      Holds lower codec run commits (committed lower codec run calls) ∧
      (∀ commit ∈ commits, commitEvent lower codec run (committed lower codec run calls) commit =
        .ok (committed lower codec run calls)) ∧
      (∀ commit : Commit, commit.RoundTrips codec → commit ∉ commits →
        commit.event.sequence.toNat ≠ commits.length →
        (∃ error, commitEvent lower codec run (committed lower codec run calls) commit =
          .error error) ∧
          committed lower codec run (calls ++ [commit]) = committed lower codec run calls) ∧
      ((∀ commit ∈ calls, commit.FollowsInterval run) →
        verifyPersistedDerivedState lower codec run (committed lower codec run calls) =
          .ok ()) := by
  obtain ⟨commits, hCommits, hHolds⟩ := @committed_holds lower codec run calls hRound
  have hCalls : ∀ commit ∈ commits, commit ∈ calls := fun commit hMem =>
    ((hCommits commit).mp hMem).mem
  have hRounds : ∀ commit ∈ commits, commit.RoundTrips codec := fun commit hMem =>
    hRound commit (hCalls commit hMem)
  refine ⟨commits, hCommits, hHolds, fun commit hMem => hHolds.commitEvent_again hMem, ?_, ?_⟩
  · intro commit hCommit hNew hNext
    obtain ⟨error, hError⟩ := hHolds.commitEvent_conflict hRounds hCommit hNew hNext
    refine ⟨⟨error, hError⟩, ?_⟩
    rw [committed, List.foldl_append]
    exact afterCommit_of_error hError
  · intro hInterval
    exact hHolds.verify_ok hRounds fun commit hMem => hInterval commit (hCalls commit hMem)

/-- The call after a gap, the repetition and the conflict leave two commits. -/
theorem commitEvent_exactly_once_toy :
    (∃ commits : List Commit, commits.length = 2 ∧
      (∀ commit, commit ∈ commits ↔
        Succeeded .plain CommitToy.codec CommitToy.run CommitToy.calls commit) ∧
      Holds .plain CommitToy.codec CommitToy.run commits
        (committed .plain CommitToy.codec CommitToy.run CommitToy.calls)) ∧
      verifyPersistedDerivedState .plain CommitToy.codec CommitToy.run
        (committed .plain CommitToy.codec CommitToy.run CommitToy.calls) = .ok () := by
  obtain ⟨commits, hCommits, hHolds, -, -, hVerify⟩ :=
    commitEvent_exactly_once .plain CommitToy.codec CommitToy.run CommitToy.calls
      (by decide +kernel)
  have hCompleted : (committed .plain CommitToy.codec CommitToy.run CommitToy.calls).completed =
      2 := by
    decide +kernel
  rw [hHolds.completed] at hCompleted
  exact ⟨⟨commits, by exact_mod_cast hCompleted, hCommits, hHolds⟩, hVerify (by decide +kernel)⟩

end TrustMap.Mapnode.Replay
