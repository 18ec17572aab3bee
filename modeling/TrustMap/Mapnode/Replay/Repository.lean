import TrustMap.Mapnode.Replay.RunIdentity

/-!
`ReplayRepository`: the tables of a run and `CommitEvent`, which writes all rows of an event in one
transaction. JSON documents are written and read by a codec. Numbers of 64 bits are bound as signed
integers, so the driver rejects those from 2 ^ 63 on.
-/

namespace TrustMap.Mapnode.Replay

open Checks

/-! ## Documents -/

/-- `json.Marshal` and `json.Unmarshal` for one type; both can fail. -/
structure Codec (α : Type) where
  encode : α → Option (List UInt8)
  decode : List UInt8 → Option α

/-- A value that is read back as it was written, from a document that is not empty. -/
def Codec.RoundTrips {α : Type} (codec : Codec α) (value : α) : Prop :=
  ∀ document, codec.encode value = some document → codec.decode document = some value ∧
    document ≠ []

/-- `ReplaySnapshot`. -/
structure ReplaySnapshot where
  sequence : UInt64
  time : ℤ
  graphNodes : UInt64
  graphEdges : UInt64
  crossEdgesAdded : UInt64
  deriving DecidableEq

/-- The documents of a repository, and the hash of its digests as hexadecimal text. -/
structure ReplayCodec where
  event : Codec ReplayEvent
  decision : Codec ReplayDecision
  path : Codec ReplayPath
  snapshot : Codec ReplaySnapshot
  hexDigest : List UInt8 → String

/-- `replayDecisionIntegrityDigest`. -/
def ReplayCodec.integrityDigest (codec : ReplayCodec) (eventJSON decisionJSON : List UInt8) :
    String :=
  codec.hexDigest (utf8 "trustmap/replay-committed-decision/v1\n" ++ eventJSON ++ 0 :: decisionJSON)

/-- The text of a kind. -/
def ReplayDecisionKind.text : ReplayDecisionKind → String
  | direct => "direct"
  | trustMap => "trustmap"
  | other text _ => text

/-- `decision.Decision == ReplayDecisionTrustMap`. -/
def ReplayDecision.takesPath (decision : ReplayDecision) : Bool :=
  decision.decision.text = "trustmap"

/-! ## Tables -/

/-- A row of `replay_events`. -/
structure EventRow where
  sequence : ℤ
  eventID : String
  eventJSON : List UInt8
  deriving DecidableEq

/-- A row of `replay_decisions`. -/
structure DecisionRow where
  sequence : ℤ
  decisionJSON : List UInt8
  directCost : ℤ
  chosenCost : ℤ
  decision : String
  integrityDigest : String
  deriving DecidableEq

/-- A row of `replay_paths`. -/
structure PathRow where
  sequence : ℤ
  pathJSON : List UInt8
  deriving DecidableEq

/-- A row of `replay_cross_edges`. -/
structure CrossEdgeRow where
  sequence : ℤ
  fromChain : String
  fromHeight : ℤ
  toChain : String
  toHeight : ℤ
  deriving DecidableEq

/-- A row of `replay_snapshots`. -/
structure SnapshotRow where
  sequence : ℤ
  snapshotJSON : List UInt8
  deriving DecidableEq

/-- A row of `replay_baselines`. -/
structure BaselineRow where
  verifierChain : String
  targetChain : String
  height : ℤ
  deriving DecidableEq

/-- The primary key of `replay_baselines`. -/
def BaselineRow.key (row : BaselineRow) : String × String := (row.verifierChain, row.targetChain)

/-- The tables of a run; `completed` and `last` are the row of `replay_progress`. -/
structure ReplayDB where
  events : Table EventRow.sequence
  decisions : Table DecisionRow.sequence
  paths : Table PathRow.sequence
  crossEdges : Table CrossEdgeRow.sequence
  snapshots : Table SnapshotRow.sequence
  baselines : Table BaselineRow.key
  completed : ℤ
  last : Option ℤ

/-- The tables after `initialize` on a new file. -/
def ReplayDB.fresh : ReplayDB where
  events := .empty
  decisions := .empty
  paths := .empty
  crossEdges := .empty
  snapshots := .empty
  baselines := .empty
  completed := 0
  last := none

/-- The fields of the run identity that the repository reads. -/
structure ReplayRun where
  setting : Setting
  preparedRows : UInt64
  recordEvery : UInt64

/-! ## Commit -/

/-- The errors of `CommitEvent`. -/
inductive CommitError
  | identityMismatch
  | encode
  | snapshotConflict
  | driver
  | eventConflict
  | sequenceConflict
  | constraint
  deriving DecidableEq

/-- A word as an argument of a statement. -/
def bindUint64 (value : UInt64) : Except CommitError ℤ :=
  if value.toNat < 2 ^ 63 then .ok value.toNat else .error .driver

/-- A column read into a word. -/
def scanUint64 (column : ℤ) : Except CommitError UInt64 :=
  if 0 ≤ column then .ok (UInt64.ofNat column.toNat) else .error .driver

/-- A document, or the error of its encoding. -/
def encoded {α : Type} (codec : Codec α) (value : α) : Except CommitError (List UInt8) :=
  match codec.encode value with
  | some document => .ok document
  | none => .error .encode

/-- An insertion, or the error of a violated key. -/
def inserted {ρ κ : Type} {key : ρ → κ} (table : Option (Table key)) :
    Except CommitError (Table key) :=
  match table with
  | some table => .ok table
  | none => .error .constraint

/-- A snapshot fits the event and the decision. -/
def SnapshotFits (event : ReplayEvent) (decision : ReplayDecision) (snapshot : ReplaySnapshot) :
    Prop :=
  snapshot.sequence = event.sequence ∧ snapshot.time = event.sourceTime ∧
    snapshot.graphNodes = decision.graphNodes ∧ snapshot.graphEdges = decision.graphEdges ∧
    snapshot.crossEdgesAdded = decision.crossEdgesAdded

instance (event : ReplayEvent) (decision : ReplayDecision) (snapshot : ReplaySnapshot) :
    Decidable (SnapshotFits event decision snapshot) := by
  unfold SnapshotFits
  infer_instance

/-- The arguments of a call. -/
structure Commit where
  event : ReplayEvent
  decision : ReplayDecision
  snapshot : Option ReplaySnapshot
  deriving DecidableEq

/-- The insertion of the path, if the decision takes one. -/
def insertPath (codec : ReplayCodec) (db : ReplayDB) (sequence : ℤ) (decision : ReplayDecision) :
    Except CommitError (Table PathRow.sequence) :=
  if decision.takesPath then do
    let pathJSON ← encoded codec.path decision.path
    inserted (db.paths.insert? ⟨sequence, pathJSON⟩)
  else pure db.paths

/-- The insertion of the snapshot, if there is one. -/
def insertSnapshot (db : ReplayDB) (sequence : ℤ) :
    Option (List UInt8) → Except CommitError (Table SnapshotRow.sequence)
  | none => pure db.snapshots
  | some document => inserted (db.snapshots.insert? ⟨sequence, document⟩)

/-- The insertions of `CommitEvent`. -/
def insertCommit (lower : Lowercase) (codec : ReplayCodec) (db : ReplayDB) (sequence : ℤ)
    (commit : Commit) (eventJSON decisionJSON : List UInt8) (snapshotJSON : Option (List UInt8)) :
    Except CommitError ReplayDB := do
  require (∀ row ∈ db.events.rows, row.eventID ≠ commit.event.id) .constraint
  let events ← inserted (db.events.insert? ⟨sequence, commit.event.id, eventJSON⟩)
  let directCost ← bindUint64 commit.decision.directCost
  let chosenCost ← bindUint64 commit.decision.chosenCost
  let decisions ← inserted (db.decisions.insert? ⟨sequence, decisionJSON, directCost, chosenCost,
    commit.decision.decision.text, codec.integrityDigest eventJSON decisionJSON⟩)
  let paths ← insertPath codec db sequence commit.decision
  let verifier := canonicalChain lower commit.event.destination.chain
  let target := canonicalChain lower commit.event.source.chain
  let height ← bindUint64 commit.decision.baselineAfter
  let fromHeight ← bindUint64 commit.event.destination.originalHeight
  let toHeight ← bindUint64 commit.event.source.originalHeight
  let crossEdges ← inserted (db.crossEdges.insert?
    ⟨sequence, verifier, fromHeight, target, toHeight⟩)
  let snapshots ← insertSnapshot db sequence snapshotJSON
  let completed ← bindUint64 (commit.event.sequence + 1)
  return {
    events := events
    decisions := decisions
    paths := paths
    crossEdges := crossEdges
    snapshots := snapshots
    baselines := db.baselines.upsert ⟨verifier, target, height⟩
    completed := completed
    last := some sequence }

/-- The snapshot document of a call. -/
def encodeSnapshot (codec : ReplayCodec) (commit : Commit) :
    Except CommitError (Option (List UInt8)) :=
  match commit.snapshot with
  | none => .ok none
  | some snapshot => do
      require (SnapshotFits commit.event commit.decision snapshot) .snapshotConflict
      let document ← encoded codec.snapshot snapshot
      return some document

/-- `CommitEvent`; a call that fails leaves the tables as they were. -/
def commitEvent (lower : Lowercase) (codec : ReplayCodec) (run : ReplayRun) (db : ReplayDB)
    (commit : Commit) : Except CommitError ReplayDB := do
  require (commit.event.id ≠ "" ∧ commit.decision.eventID = commit.event.id ∧
    commit.decision.sequence = commit.event.sequence ∧ commit.decision.setting = run.setting)
    .identityMismatch
  let eventJSON ← encoded codec.event commit.event
  let decisionJSON ← encoded codec.decision commit.decision
  let snapshotJSON ← encodeSnapshot codec commit
  let sequence ← bindUint64 commit.event.sequence
  match db.events.find? sequence, db.decisions.find? sequence with
  | some existing, some decided =>
      require (existing.eventJSON = eventJSON ∧ decided.decisionJSON = decisionJSON ∧
        ((db.snapshots.find? sequence).map (·.snapshotJSON)).getD [] = snapshotJSON.getD [])
        .eventConflict
      return db
  | _, _ => do
      let completed ← scanUint64 db.completed
      require (commit.event.sequence = completed) .sequenceConflict
      insertCommit lower codec db sequence commit eventJSON decisionJSON snapshotJSON

/-- The tables after a call, whether it fails or not. -/
def afterCommit (lower : Lowercase) (codec : ReplayCodec) (run : ReplayRun) (db : ReplayDB)
    (commit : Commit) : ReplayDB :=
  ((commitEvent lower codec run db commit).toOption).getD db

/-! ## The rows of a commit -/

/-- The row of `replay_events`. -/
def Commit.eventRow (codec : ReplayCodec) (commit : Commit) : EventRow :=
  ⟨commit.event.sequence.toNat, commit.event.id, (codec.event.encode commit.event).getD []⟩

/-- The row of `replay_decisions`. -/
def Commit.decisionRow (codec : ReplayCodec) (commit : Commit) : DecisionRow :=
  ⟨commit.event.sequence.toNat, (codec.decision.encode commit.decision).getD [],
    commit.decision.directCost.toNat, commit.decision.chosenCost.toNat,
    commit.decision.decision.text,
    codec.integrityDigest ((codec.event.encode commit.event).getD [])
      ((codec.decision.encode commit.decision).getD [])⟩

/-- The row of `replay_paths`, for a decision that takes a path. -/
def Commit.pathRow (codec : ReplayCodec) (commit : Commit) : Option PathRow :=
  if commit.decision.takesPath then
    some ⟨commit.event.sequence.toNat, (codec.path.encode commit.decision.path).getD []⟩
  else none

/-- The row of `replay_cross_edges`. -/
def Commit.crossEdgeRow (lower : Lowercase) (commit : Commit) : CrossEdgeRow :=
  ⟨commit.event.sequence.toNat, canonicalChain lower commit.event.destination.chain,
    commit.event.destination.originalHeight.toNat, canonicalChain lower commit.event.source.chain,
    commit.event.source.originalHeight.toNat⟩

/-- The row of `replay_snapshots`, for a commit with a snapshot. -/
def Commit.snapshotRow (codec : ReplayCodec) (commit : Commit) : Option SnapshotRow :=
  commit.snapshot.map fun snapshot =>
    ⟨commit.event.sequence.toNat, (codec.snapshot.encode snapshot).getD []⟩

/-- The row of `replay_baselines`. -/
def Commit.baselineRow (lower : Lowercase) (commit : Commit) : BaselineRow :=
  ⟨canonicalChain lower commit.event.destination.chain,
    canonicalChain lower commit.event.source.chain,
    commit.decision.baselineAfter.toNat⟩

/-- What `CommitEvent` has checked of a commit that it wrote. -/
structure Commit.Writable (codec : ReplayCodec) (run : ReplayRun) (commit : Commit) : Prop where
  id : commit.event.id ≠ ""
  eventID : commit.decision.eventID = commit.event.id
  sequence : commit.decision.sequence = commit.event.sequence
  setting : commit.decision.setting = run.setting
  event : ∃ document, codec.event.encode commit.event = some document
  decision : ∃ document, codec.decision.encode commit.decision = some document
  path : commit.decision.takesPath = true →
    ∃ document, codec.path.encode commit.decision.path = some document
  snapshot : ∀ snapshot ∈ commit.snapshot, SnapshotFits commit.event commit.decision snapshot ∧
    ∃ document, codec.snapshot.encode snapshot = some document
  bounded : ∀ value ∈ [commit.decision.directCost, commit.decision.chosenCost,
    commit.decision.baselineAfter, commit.event.destination.originalHeight,
    commit.event.source.originalHeight, commit.event.sequence, commit.event.sequence + 1],
    value.toNat < 2 ^ 63

/-- The tables hold exactly the rows of the commits, in their order. -/
structure Holds (lower : Lowercase) (codec : ReplayCodec) (run : ReplayRun) (commits : List Commit)
    (db : ReplayDB) : Prop where
  events : db.events.rows = commits.map (Commit.eventRow codec)
  decisions : db.decisions.rows = commits.map (Commit.decisionRow codec)
  paths : db.paths.rows = commits.filterMap (Commit.pathRow codec)
  crossEdges : db.crossEdges.rows = commits.map (Commit.crossEdgeRow lower)
  snapshots : db.snapshots.rows = commits.filterMap (Commit.snapshotRow codec)
  baselines : db.baselines = commits.foldl
    (fun (table : Table BaselineRow.key) commit => table.upsert (Commit.baselineRow lower commit))
      .empty
  completed : db.completed = commits.length
  last : db.last = if commits = [] then none else some ((commits.length : ℤ) - 1)
  writable : ∀ commit ∈ commits, commit.Writable codec run
  sequence : ∀ (i : ℕ) (commit : Commit), commits[i]? = some commit →
    commit.event.sequence.toNat = i
  distinct : (commits.map fun commit => commit.event.id).Nodup

/-! ## What a commit does -/

section Lemmas

variable {lower : Lowercase} {codec : ReplayCodec} {run : ReplayRun} {db db' : ReplayDB}
  {commit : Commit} {commits : List Commit}

theorem bindUint64_eq_ok {value : UInt64} {column : ℤ} :
    bindUint64 value = .ok column ↔ value.toNat < 2 ^ 63 ∧ column = value.toNat := by
  unfold bindUint64
  split
  · rename_i hSmall
    rw [Except.ok.injEq, and_iff_right hSmall, eq_comm]
  · rename_i hBig
    simp only [reduceCtorEq, false_iff, not_and]
    exact fun hSmall => (hBig hSmall).elim

theorem encoded_eq_ok {α : Type} {codec : Codec α} {value : α} {document : List UInt8} :
    encoded codec value = .ok document ↔ codec.encode value = some document := by
  unfold encoded
  cases codec.encode value with
  | none => simp
  | some found => simp

theorem inserted_eq_ok {ρ κ : Type} {key : ρ → κ} {table : Option (Table key)}
    {result : Table key} :
    inserted table = .ok result ↔ table = some result := by
  unfold inserted
  cases table with
  | none => simp
  | some found => simp

theorem encodeSnapshot_eq_ok {document : Option (List UInt8)} :
    encodeSnapshot codec commit = .ok document ↔
      (∀ snapshot ∈ commit.snapshot, SnapshotFits commit.event commit.decision snapshot ∧
        ∃ text, codec.snapshot.encode snapshot = some text) ∧
      document = commit.snapshot.map fun snapshot => (codec.snapshot.encode snapshot).getD [] := by
  unfold encodeSnapshot
  cases commit.snapshot with
  | none => simp [eq_comm]
  | some snapshot =>
      simp only [require_eq_ok, bind_eq_ok, encoded_eq_ok, pure_eq_ok,
        Option.mem_def, Option.some.injEq, Option.map_some]
      constructor
      · rintro ⟨_, hFits, text, hText, rfl⟩
        refine ⟨fun other hOther => ?_, by rw [hText]; rfl⟩
        subst hOther
        exact ⟨hFits, text, hText⟩
      · rintro ⟨hAll, rfl⟩
        obtain ⟨hFits, text, hText⟩ := hAll snapshot rfl
        exact ⟨(), hFits, text, hText, by rw [hText]; rfl⟩

/-- What the insertions write. -/
theorem insertCommit_eq_ok {sequence : ℤ} {eventJSON decisionJSON : List UInt8}
    {snapshotJSON : Option (List UInt8)}
    (h : insertCommit lower codec db sequence commit eventJSON decisionJSON snapshotJSON =
      .ok db') :
    (∀ row ∈ db.events.rows, row.eventID ≠ commit.event.id) ∧
      db'.events.rows = db.events.rows ++ [⟨sequence, commit.event.id, eventJSON⟩] ∧
      db'.decisions.rows = db.decisions.rows ++ [⟨sequence, decisionJSON,
        commit.decision.directCost.toNat, commit.decision.chosenCost.toNat,
        commit.decision.decision.text, codec.integrityDigest eventJSON decisionJSON⟩] ∧
      (commit.decision.takesPath = true →
        ∃ document, codec.path.encode commit.decision.path = some document) ∧
      db'.paths.rows = db.paths.rows ++ (if commit.decision.takesPath then
        [⟨sequence, (codec.path.encode commit.decision.path).getD []⟩] else []) ∧
      db'.crossEdges.rows = db.crossEdges.rows ++ [⟨sequence,
        canonicalChain lower commit.event.destination.chain,
        commit.event.destination.originalHeight.toNat,
        canonicalChain lower commit.event.source.chain, commit.event.source.originalHeight.toNat⟩] ∧
      db'.snapshots.rows = db.snapshots.rows ++
        (snapshotJSON.map fun document => (⟨sequence, document⟩ : SnapshotRow)).toList ∧
      db'.baselines = db.baselines.upsert (commit.baselineRow lower) ∧
      db'.completed = (commit.event.sequence + 1).toNat ∧ db'.last = some sequence ∧
      ∀ value ∈ [commit.decision.directCost, commit.decision.chosenCost,
        commit.decision.baselineAfter, commit.event.destination.originalHeight,
        commit.event.source.originalHeight, commit.event.sequence + 1], value.toNat < 2 ^ 63 := by
  rw [insertCommit, check_bind_eq_ok, require_eq_ok] at h
  obtain ⟨hUnique, h⟩ := h
  obtain ⟨events, hEvents, h⟩ := bind_eq_ok.mp h
  obtain ⟨directCost, hDirect, h⟩ := bind_eq_ok.mp h
  obtain ⟨chosenCost, hChosen, h⟩ := bind_eq_ok.mp h
  obtain ⟨decisions, hDecisions, h⟩ := bind_eq_ok.mp h
  obtain ⟨paths, hPaths, h⟩ := bind_eq_ok.mp h
  obtain ⟨height, hHeight, h⟩ := bind_eq_ok.mp h
  obtain ⟨fromHeight, hFrom, h⟩ := bind_eq_ok.mp h
  obtain ⟨toHeight, hTo, h⟩ := bind_eq_ok.mp h
  obtain ⟨crossEdges, hCross, h⟩ := bind_eq_ok.mp h
  obtain ⟨snapshots, hSnapshots, h⟩ := bind_eq_ok.mp h
  obtain ⟨completed, hCompleted, h⟩ := bind_eq_ok.mp h
  obtain rfl := pure_eq_ok.mp h
  rw [inserted_eq_ok, Table.insert?_eq_some] at hEvents hDecisions hCross
  rw [bindUint64_eq_ok] at hDirect hChosen hHeight hFrom hTo hCompleted
  obtain ⟨hDirectSmall, rfl⟩ := hDirect
  obtain ⟨hChosenSmall, rfl⟩ := hChosen
  obtain ⟨hHeightSmall, rfl⟩ := hHeight
  obtain ⟨hFromSmall, rfl⟩ := hFrom
  obtain ⟨hToSmall, rfl⟩ := hTo
  obtain ⟨hCompletedSmall, rfl⟩ := hCompleted
  have hPathRows : (commit.decision.takesPath = true →
      ∃ document, codec.path.encode commit.decision.path = some document) ∧
      paths.rows = db.paths.rows ++ (if commit.decision.takesPath then
        [⟨sequence, (codec.path.encode commit.decision.path).getD []⟩] else []) := by
    unfold insertPath at hPaths
    split at hPaths
    · rename_i hTakes
      obtain ⟨document, hDocument, hPaths⟩ := bind_eq_ok.mp hPaths
      rw [encoded_eq_ok] at hDocument
      rw [inserted_eq_ok, Table.insert?_eq_some] at hPaths
      exact ⟨fun _ => ⟨document, hDocument⟩, by rw [hPaths.2, if_pos hTakes, hDocument]; rfl⟩
    · rename_i hTakes
      obtain rfl := pure_eq_ok.mp hPaths
      exact ⟨fun hTrue => (hTakes hTrue).elim, by rw [if_neg hTakes, List.append_nil]⟩
  have hSnapshotRows : snapshots.rows = db.snapshots.rows ++
      (snapshotJSON.map fun document => (⟨sequence, document⟩ : SnapshotRow)).toList := by
    cases snapshotJSON with
    | none =>
        obtain rfl := pure_eq_ok.mp hSnapshots
        simp
    | some document =>
        rw [insertSnapshot, inserted_eq_ok, Table.insert?_eq_some] at hSnapshots
        simpa using hSnapshots.2
  refine ⟨hUnique, hEvents.2, hDecisions.2, hPathRows.1, hPathRows.2, hCross.2, hSnapshotRows, rfl,
    rfl, rfl, ?_⟩
  intro value hMem
  simp only [List.mem_cons, List.not_mem_nil, or_false] at hMem
  obtain rfl | rfl | rfl | rfl | rfl | rfl := hMem
  all_goals assumption

/-! ## Sequences of commits -/

/-- A table whose rows are numbered is read by position. -/
theorem find?_indexed {ρ : Type} {key : ρ → ℤ} {table : Table key}
    (hKey : ∀ (i : ℕ) row, table.rows[i]? = some row → key row = i) (i : ℕ) :
    table.find? (i : ℤ) = table.rows[i]? := by
  cases hRow : table.rows[i]? with
  | some row => exact Table.find?_eq_some.mpr ⟨List.mem_of_getElem? hRow, hKey i row hRow⟩
  | none =>
      rw [Table.find?_eq_none]
      intro row hMem hSame
      obtain ⟨j, hj⟩ := List.getElem?_of_mem hMem
      have hIndex : (j : ℤ) = i := (hKey j row hj).symm.trans hSame
      rw [Int.natCast_inj.mp hIndex, hRow] at hj
      cases hj

section Find

variable (h : Holds lower codec run commits db)

include h

theorem Holds.find?_event (i : ℕ) :
    db.events.find? (i : ℤ) = (commits[i]?).map (Commit.eventRow codec) := by
  rw [find?_indexed, h.events, List.getElem?_map]
  intro i row hRow
  rw [h.events, List.getElem?_map, Option.map_eq_some_iff] at hRow
  obtain ⟨commit, hCommit, rfl⟩ := hRow
  exact congrArg Nat.cast (h.sequence i commit hCommit)

theorem Holds.find?_decision (i : ℕ) :
    db.decisions.find? (i : ℤ) = (commits[i]?).map (Commit.decisionRow codec) := by
  rw [find?_indexed, h.decisions, List.getElem?_map]
  intro i row hRow
  rw [h.decisions, List.getElem?_map, Option.map_eq_some_iff] at hRow
  obtain ⟨commit, hCommit, rfl⟩ := hRow
  exact congrArg Nat.cast (h.sequence i commit hCommit)

/-- A table that some of the commits have a row in is read by their position. -/
theorem Holds.find?_some {ρ : Type} {key : ρ → ℤ} {table : Table key}
    {f : Commit → Option ρ}
    (hRows : table.rows = commits.filterMap f)
    (hKey : ∀ commit row, f commit = some row → key row = commit.event.sequence.toNat) {i : ℕ}
    {commit : Commit} (hCommit : commits[i]? = some commit) :
    table.find? (i : ℤ) = f commit := by
  have hIndex := h.sequence i commit hCommit
  cases hRow : f commit with
  | some row =>
      rw [Table.find?_eq_some, hRows, List.mem_filterMap]
      exact ⟨⟨commit, List.mem_of_getElem? hCommit, hRow⟩, by rw [hKey commit row hRow, hIndex]⟩
  | none =>
      rw [Table.find?_eq_none, hRows]
      intro row hMem hSame
      obtain ⟨other, hOther, hRow'⟩ := List.mem_filterMap.mp hMem
      obtain ⟨j, hj⟩ := List.getElem?_of_mem hOther
      have hPosition : (j : ℤ) = i := by
        rw [← hSame, hKey other row hRow', h.sequence j other hj]
      rw [Int.natCast_inj.mp hPosition, hCommit] at hj
      obtain rfl := Option.some.inj hj
      rw [hRow] at hRow'
      cases hRow'

theorem Holds.find?_snapshot {i : ℕ}
    (hCommit : commits[i]? = some commit) :
    db.snapshots.find? (i : ℤ) = commit.snapshotRow codec := by
  refine h.find?_some h.snapshots (fun commit row hRow => ?_) hCommit
  obtain ⟨snapshot, -, rfl⟩ := Option.map_eq_some_iff.mp hRow
  rfl

theorem Holds.find?_path {i : ℕ}
    (hCommit : commits[i]? = some commit) : db.paths.find? (i : ℤ) = commit.pathRow codec := by
  refine h.find?_some h.paths (fun commit row hRow => ?_) hCommit
  unfold Commit.pathRow at hRow
  split at hRow
  · obtain rfl := Option.some.inj hRow
    rfl
  · cases hRow

end Find

theorem fresh_holds : Holds lower codec run [] .fresh where
  events := rfl
  decisions := rfl
  paths := rfl
  crossEdges := rfl
  snapshots := rfl
  baselines := rfl
  completed := rfl
  last := rfl
  writable := by simp
  sequence := by simp
  distinct := by simp

/-- What the checks before the transaction say. -/
theorem commitEvent_eq_ok :
    commitEvent lower codec run db commit = .ok db' ↔
      ∃ eventJSON decisionJSON snapshotJSON,
        (commit.event.id ≠ "" ∧ commit.decision.eventID = commit.event.id ∧
          commit.decision.sequence = commit.event.sequence ∧
          commit.decision.setting = run.setting) ∧
        codec.event.encode commit.event = some eventJSON ∧
        codec.decision.encode commit.decision = some decisionJSON ∧
        encodeSnapshot codec commit = .ok snapshotJSON ∧ commit.event.sequence.toNat < 2 ^ 63 ∧
        ((∃ existing decided, db.events.find? commit.event.sequence.toNat = some existing ∧
            db.decisions.find? commit.event.sequence.toNat = some decided ∧
            (existing.eventJSON = eventJSON ∧ decided.decisionJSON = decisionJSON ∧
              ((db.snapshots.find? commit.event.sequence.toNat).map (·.snapshotJSON)).getD [] =
                snapshotJSON.getD []) ∧ db = db') ∨
          (¬ (∃ existing decided, db.events.find? commit.event.sequence.toNat = some existing ∧
              db.decisions.find? commit.event.sequence.toNat = some decided) ∧
            scanUint64 db.completed = .ok commit.event.sequence ∧
            insertCommit lower codec db commit.event.sequence.toNat commit eventJSON decisionJSON
              snapshotJSON = .ok db')) := by
  rw [commitEvent, check_bind_eq_ok, require_eq_ok]
  simp only [bind_eq_ok, encoded_eq_ok, bindUint64_eq_ok]
  constructor
  · rintro ⟨hIdentity, eventJSON, hEvent, decisionJSON, hDecision, snapshotJSON, hSnapshot,
      sequence, ⟨hSmall, rfl⟩, h⟩
    refine ⟨eventJSON, decisionJSON, snapshotJSON, hIdentity, hEvent, hDecision, hSnapshot, hSmall,
      ?_⟩
    split at h
    · rename_i existing decided hExisting hDecided
      obtain ⟨_, hSame, h⟩ := bind_eq_ok.mp h
      exact .inl ⟨existing, decided, hExisting, hDecided, require_eq_ok.mp hSame, pure_eq_ok.mp h⟩
    · rename_i hNone
      obtain ⟨completed, hCompleted, h⟩ := bind_eq_ok.mp h
      rw [check_bind_eq_ok, require_eq_ok] at h
      refine .inr ⟨?_, h.1 ▸ hCompleted, h.2⟩
      rintro ⟨existing, decided, hExisting, hDecided⟩
      exact hNone existing decided hExisting hDecided
  · rintro ⟨eventJSON, decisionJSON, snapshotJSON, hIdentity, hEvent, hDecision, hSnapshot, hSmall,
      h⟩
    refine ⟨hIdentity, eventJSON, hEvent, decisionJSON, hDecision, snapshotJSON, hSnapshot, _,
      ⟨hSmall, rfl⟩, ?_⟩
    rcases h with ⟨existing, decided, hExisting, hDecided, hSame, rfl⟩ | ⟨hNone, hCompleted, h⟩
    · rw [hExisting, hDecided]
      exact bind_eq_ok.mpr ⟨(), require_eq_ok.mpr hSame, rfl⟩
    · split
      · rename_i existing decided hExisting hDecided
        exact (hNone ⟨existing, decided, hExisting, hDecided⟩).elim
      · exact bind_eq_ok.mpr ⟨_, hCompleted, by
          rw [check_bind_eq_ok, require_eq_ok]
          exact ⟨rfl, h⟩⟩

/-- The document of a snapshot, or no bytes. -/
def Commit.snapshotDocument (codec : ReplayCodec) (commit : Commit) : List UInt8 :=
  (commit.snapshot.map fun snapshot => (codec.snapshot.encode snapshot).getD []).getD []

/-- Two commits have the same documents. -/
def SameDocuments (codec : ReplayCodec) (commit other : Commit) : Prop :=
  codec.event.encode commit.event = codec.event.encode other.event ∧
    codec.decision.encode commit.decision = codec.decision.encode other.decision ∧
    commit.snapshotDocument codec = other.snapshotDocument codec

theorem Holds.length_le (h : Holds lower codec run commits db) : commits.length ≤ 2 ^ 63 := by
  rcases Nat.eq_zero_or_pos commits.length with hZero | hPos
  · rw [hZero]
    exact Nat.zero_le _
  · obtain ⟨last, hLast⟩ : ∃ last, commits[commits.length - 1]? = some last :=
      ⟨_, List.getElem?_eq_getElem (by omega)⟩
    have hSmall := (h.writable last (List.mem_of_getElem? hLast)).bounded last.event.sequence
      (by simp)
    rw [h.sequence _ last hLast] at hSmall
    omega

/-- The rows that are written for the next commit. -/
theorem Holds.insertCommit (h : Holds lower codec run commits db)
    {eventJSON decisionJSON : List UInt8}
    (hIdentity : commit.event.id ≠ "" ∧ commit.decision.eventID = commit.event.id ∧
      commit.decision.sequence = commit.event.sequence ∧ commit.decision.setting = run.setting)
    (hEvent : codec.event.encode commit.event = some eventJSON)
    (hDecision : codec.decision.encode commit.decision = some decisionJSON)
    (hFits : ∀ snapshot ∈ commit.snapshot, SnapshotFits commit.event commit.decision snapshot ∧
      ∃ text, codec.snapshot.encode snapshot = some text)
    (hSmall : commit.event.sequence.toNat < 2 ^ 63)
    (hLength : commit.event.sequence.toNat = commits.length)
    (hInsert : insertCommit lower codec db commit.event.sequence.toNat commit eventJSON decisionJSON
      (commit.snapshot.map fun snapshot => (codec.snapshot.encode snapshot).getD []) = .ok db') :
    Holds lower codec run (commits ++ [commit]) db' := by
  obtain ⟨hUnique, hEvents, hDecisions, hPath, hPaths, hCross, hSnapshots, hBaselines, hCompleted,
    hLast, hBounded⟩ := insertCommit_eq_ok hInsert
  have hNext : (commit.event.sequence + 1).toNat = commits.length + 1 := by
    rw [UInt64.toNat_add, UInt64.toNat_one, Nat.mod_eq_of_lt (by omega), hLength]
  constructor
  case events =>
    rw [hEvents, h.events, List.map_append, List.map_singleton, Commit.eventRow, hEvent]
    rfl
  case decisions =>
    rw [hDecisions, h.decisions, List.map_append, List.map_singleton, Commit.decisionRow, hEvent,
      hDecision]
    rfl
  case paths =>
    rw [hPaths, h.paths, List.filterMap_append]
    congr 1
    simp only [List.filterMap_cons, List.filterMap_nil, Commit.pathRow]
    split <;> rfl
  case crossEdges =>
    rw [hCross, h.crossEdges, List.map_append, List.map_singleton]
    rfl
  case snapshots =>
    rw [hSnapshots, h.snapshots, List.filterMap_append]
    congr 1
    cases hSnapshot : commit.snapshot <;> simp [Commit.snapshotRow, hSnapshot]
  case baselines => rw [hBaselines, h.baselines, List.foldl_append, List.foldl_cons, List.foldl_nil]
  case completed => rw [hCompleted, hNext, List.length_append, List.length_singleton]
  case last =>
    rw [hLast, if_neg (by simp), hLength, List.length_append, List.length_singleton]
    simp
  case writable =>
    intro other hMem
    rcases List.mem_append.mp hMem with hMem | hMem
    · exact h.writable other hMem
    · obtain rfl := List.mem_singleton.mp hMem
      refine ⟨hIdentity.1, hIdentity.2.1, hIdentity.2.2.1, hIdentity.2.2.2, ⟨_, hEvent⟩,
        ⟨_, hDecision⟩,
        hPath, hFits, fun value hValue => ?_⟩
      simp only [List.mem_cons, List.not_mem_nil, or_false] at hValue hBounded
      obtain rfl | rfl | rfl | rfl | rfl | rfl | rfl := hValue
      · exact hBounded _ (by simp)
      · exact hBounded _ (by simp)
      · exact hBounded _ (by simp)
      · exact hBounded _ (by simp)
      · exact hBounded _ (by simp)
      · exact hSmall
      · exact hBounded _ (by simp)
  case sequence =>
    intro i other hOther
    rcases Nat.lt_or_ge i commits.length with hBefore | hAfter
    · rw [List.getElem?_append_left hBefore] at hOther
      exact h.sequence i other hOther
    · rw [List.getElem?_append_right hAfter, List.getElem?_singleton] at hOther
      split at hOther
      · obtain rfl := Option.some.inj hOther
        omega
      · cases hOther
  case distinct =>
    rw [List.map_append, List.map_singleton, List.nodup_append]
    refine ⟨h.distinct, by simp, ?_⟩
    intro id hID other hOther hSame
    obtain rfl := List.mem_singleton.mp hOther
    obtain ⟨old, hOld, rfl⟩ := List.mem_map.mp hID
    exact hUnique (old.eventRow codec) (by rw [h.events]; exact List.mem_map.mpr ⟨old, hOld, rfl⟩)
      hSame

/-- What a successful call does: it repeats a committed triple, or it writes the next one. -/
theorem Holds.commitEvent_cases (h : Holds lower codec run commits db)
    (hCommit : commitEvent lower codec run db commit = .ok db') :
    (∃ old, commits[commit.event.sequence.toNat]? = some old ∧ SameDocuments codec commit old ∧
        db' = db) ∨
      (commit.event.sequence.toNat = commits.length ∧
        Holds lower codec run (commits ++ [commit]) db') := by
  obtain ⟨eventJSON, decisionJSON, snapshotJSON, hIdentity, hEvent, hDecision, hSnapshot, hSmall,
    hCases⟩ :=
    commitEvent_eq_ok.mp hCommit
  obtain ⟨hFits, rfl⟩ := encodeSnapshot_eq_ok.mp hSnapshot
  rcases hCases with ⟨existing, decided, hExisting, hDecided, hSame, rfl⟩ | ⟨hNone, hCompleted,
    hInsert⟩
  · left
    rw [h.find?_event, Option.map_eq_some_iff] at hExisting
    obtain ⟨old, hOld, rfl⟩ := hExisting
    rw [h.find?_decision, hOld, Option.map_some, Option.some.injEq] at hDecided
    subst hDecided
    rw [h.find?_snapshot hOld] at hSame
    obtain ⟨hEventJSON, hDecisionJSON, hSnapshotJSON⟩ := hSame
    have hWritable := h.writable old (List.mem_of_getElem? hOld)
    obtain ⟨event, hOldEvent⟩ := hWritable.event
    obtain ⟨decision, hOldDecision⟩ := hWritable.decision
    refine ⟨old, hOld, ⟨?_, ?_, ?_⟩, rfl⟩
    · rw [hEvent, ← hEventJSON, Commit.eventRow, hOldEvent]
      rfl
    · rw [hDecision, ← hDecisionJSON, Commit.decisionRow, hOldDecision]
      rfl
    · rw [Commit.snapshotDocument, ← hSnapshotJSON, Commit.snapshotDocument, Commit.snapshotRow,
        Option.map_map]
      rfl
  · right
    have hLength : commit.event.sequence.toNat = commits.length := by
      rw [scanUint64, h.completed, if_pos (Int.natCast_nonneg _), Except.ok.injEq,
        Int.toNat_natCast] at hCompleted
      rw [← hCompleted, UInt64.toNat_ofNat', Nat.mod_eq_of_lt]
      have := h.length_le
      omega
    exact ⟨hLength, h.insertCommit hIdentity hEvent hDecision hFits hSmall hLength hInsert⟩

end Lemmas

end TrustMap.Mapnode.Replay
