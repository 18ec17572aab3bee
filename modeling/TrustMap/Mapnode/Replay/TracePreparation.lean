import Mathlib.Data.List.Sort
import TrustMap.Mapnode.Replay.LegacyHeight
import TrustMap.Mapnode.Replay.PreparedTrace

/-!
`PrepareTrace`: the rows of a trace become events in a canonical order. The file is given by its
digest and its records; what the standard library makes of times, numbers and texts is a parameter.
-/

namespace TrustMap.Mapnode.Replay

open Checks

/-! ## Rows -/

/-- The text of an `InvalidRowPolicy`: unset, its two values, and the other texts. -/
inductive RowPolicy
  | unset
  | reject
  | drop
  | other (text : String) (unnamed : text ∉ ["", "reject", "drop"])
  deriving DecidableEq

/-- `TraceOptions`. -/
structure TraceOptions where
  invalidRowPolicy : RowPolicy
  chainAllowlist : List String
  maxEvents : UInt64

/-- A file whose rows are all records. -/
structure TraceFile where
  digest : String
  header : List String
  records : List (List String)

/-- What the standard library does: times by layout, finite floating-point numbers by their bits,
rounding to an integer, the text of a time and the hexadecimal hash of a text. -/
structure TraceLibrary where
  parseTime : String → List Char → Option ℤ
  parseFloat : List Char → Option UInt64
  round : UInt64 → ℤ
  formatTime : ℤ → String
  sha256Hex : String → String

/-- The errors of `parseTraceRecord`. -/
inductive RowError
  | chainsRequired
  | sourceHeight (cause : HeightError)
  | destinationHeight (cause : HeightError)
  | sourceTime

/-- The errors of `PrepareTrace` on a file of records. -/
inductive TraceError
  | missingColumn (name : String)
  | unknownPolicy
  | invalidRow (row : UInt64) (cause : RowError)
  | noEvents

/-- `columns`: the last field of the header with a name. -/
def columnOf (header : List String) (name : String) : Option ℕ :=
  header.zipIdx.foldl (fun found field =>
    if trimSpace field.1.toList = name.toList then some field.2 else found) none

/-- `value` of `parseTraceRecord`. -/
def fieldOf (header record : List String) (name : String) : List Char :=
  match columnOf header name with
  | none => []
  | some index => ((record[index]?).map fun field => trimSpace field.toList).getD []

/-- `parseLegacyTime`. -/
def parseLegacyTime (std : TraceLibrary) (value : List Char) : Option ℤ :=
  let text := trimSpace value
  let zone := " UTC".toList
  let trimmed := trimSpace (if zone.isSuffixOf text then text.take (text.length - zone.length) else text)
  ["2006-01-02T15:04:05.999999999Z07:00", "2006-01-02 15:04:05.999999999Z07:00",
    "2006-01-02 15:04:05.999999999"].findSome? fun layout => std.parseTime layout trimmed

/-- `parseLegacyIntDefaultZero`. -/
def parseLegacyIntDefaultZero (std : TraceLibrary) (value : List Char) : ℤ :=
  ((std.parseFloat value).map std.round).getD 0

/-- `parseLegacyFloatDefaultZero`. -/
def parseLegacyFloatDefaultZero (std : TraceLibrary) (value : List Char) : UInt64 :=
  (std.parseFloat value).getD 0

/-- `parseTraceRecord`. -/
def parseTraceRecord (std : TraceLibrary) (lower : Lowercase) (header record : List String)
    (originalRow : UInt64) : Except RowError ReplayEvent := do
  let sourceChain := canonicalChain lower (String.ofList (fieldOf header record "src_chain"))
  let destinationChain := canonicalChain lower (String.ofList (fieldOf header record "dst_chain"))
  require (¬ (sourceChain = "" ∨ destinationChain = "")) .chainsRequired
  let sourceHeight ← (parseLegacyHeight (fieldOf header record "src_block_number")).mapError
    .sourceHeight
  let destinationHeight ← (parseLegacyHeight (fieldOf header record "dst_block_number")).mapError
    .destinationHeight
  match parseLegacyTime std (fieldOf header record "src_block_time") with
  | none => .error .sourceTime
  | some sourceTime => return {
      id := ""
      originalRow
      sequence := 0
      source := ⟨sourceChain, sourceHeight, 0⟩
      destination := ⟨destinationChain, destinationHeight, 0⟩
      sourceTime
      bridgeName := (String.ofList (trimSpace (fieldOf header record "bridge_name"))).toUTF8.data.toList
      txCount := if (columnOf header "tx_count").isSome then
        parseLegacyIntDefaultZero std (fieldOf header record "tx_count") else 1
      volumeUSD := if (columnOf header "volume_usd").isSome then
        parseLegacyFloatDefaultZero std (fieldOf header record "volume_usd") else 0 }

/-- Whether the allowlist has both chains of an event; an empty one has all. -/
def allowedBy (lower : Lowercase) (chainAllowlist : List String) (event : ReplayEvent) : Bool :=
  let allowlist := (chainAllowlist.map (canonicalChain lower)).filter (· ≠ "")
  allowlist.isEmpty || (event.source.chain ∈ allowlist && event.destination.chain ∈ allowlist)

/-- The counters and events of the loop over the rows. -/
structure TraceScan where
  sourceRows : UInt64
  droppedRows : UInt64
  events : List ReplayEvent

/-- The body of the loop over the rows. -/
def scanRow (std : TraceLibrary) (lower : Lowercase) (header : List String) (options : TraceOptions)
    (scan : TraceScan) (row : List String × ℕ) : Except TraceError TraceScan :=
  match parseTraceRecord std lower header row.1 (UInt64.ofNat row.2) with
  | .error cause =>
      if options.invalidRowPolicy = .drop then
        .ok ⟨scan.sourceRows + 1, scan.droppedRows + 1, scan.events⟩
      else .error (.invalidRow (UInt64.ofNat row.2) cause)
  | .ok event =>
      .ok ⟨scan.sourceRows + 1, scan.droppedRows,
        if allowedBy lower options.chainAllowlist event then scan.events ++ [event] else scan.events⟩

/-! ## The order -/

/-- The comparison of `sort.SliceStable`. -/
def eventLess (a b : ReplayEvent) : Bool :=
  if a.sourceTime ≠ b.sourceTime then a.sourceTime < b.sourceTime
  else if a.destination.chain ≠ b.destination.chain then a.destination.chain < b.destination.chain
  else if a.destination.originalHeight.toNat ≠ b.destination.originalHeight.toNat then
    a.destination.originalHeight.toNat < b.destination.originalHeight.toNat
  else if a.source.chain ≠ b.source.chain then a.source.chain < b.source.chain
  else if a.source.originalHeight.toNat ≠ b.source.originalHeight.toNat then
    a.source.originalHeight.toNat < b.source.originalHeight.toNat
  else a.originalRow.toNat < b.originalRow.toNat

/-- `sort.SliceStable` with that comparison. -/
def sortEvents (events : List ReplayEvent) : List ReplayEvent :=
  events.mergeSort fun a b => !eventLess b a

/-- The cut at `MaxEvents`. -/
def keepEvents (maxEvents : UInt64) (events : List ReplayEvent) : List ReplayEvent :=
  if 0 < maxEvents.toNat ∧ maxEvents.toNat < events.length then events.take maxEvents.toNat else events

/-! ## The trace -/

/-- `ComputeEventID`. -/
def computeEventID (std : TraceLibrary) (traceDigest : String) (event : ReplayEvent) : String :=
  std.sha256Hex ("\n".intercalate ["trustmap/replay-event/v1", traceDigest,
    toString event.originalRow, toString event.sequence, event.source.chain,
    toString event.source.originalHeight, event.destination.chain,
    toString event.destination.originalHeight, std.formatTime event.sourceTime])

/-- The height of a chain in a map; a missing chain has height zero. -/
def heightIn (values : HeightMap) (chain : String) : UInt64 :=
  ((values.find? chain).map (·.2)).getD 0

/-- A block with its height above the first one of its chain. -/
def normalizeBlock (values : HeightMap) (block : ReplayBlock) : ReplayBlock :=
  { block with normalizedHeight := block.originalHeight - heightIn values block.chain }

/-- The last loop of `PrepareTrace`. -/
def finishEvent (std : TraceLibrary) (digest : String) (values : HeightMap) (index : ℕ)
    (event : ReplayEvent) : ReplayEvent :=
  let event := { event with
    sequence := UInt64.ofNat index
    source := normalizeBlock values event.source
    destination := normalizeBlock values event.destination }
  { event with id := computeEventID std digest event }

/-- The result of `PrepareTrace`. -/
structure TraceOutput where
  digest : String
  sourceRows : UInt64
  droppedRows : UInt64
  chains : List String
  initHeights : HeightMap
  events : List ReplayEvent

/-- The columns that must be there. -/
def requiredColumns : List String :=
  ["src_chain", "dst_chain", "src_block_number", "dst_block_number", "src_block_time"]

/-- `PrepareTrace`. -/
def prepareTrace (std : TraceLibrary) (lower : Lowercase) (options : TraceOptions) (file : TraceFile) :
    Except TraceError TraceOutput := do
  requiredColumns.forM fun name =>
    require ((columnOf file.header name).isSome = true) (.missingColumn name)
  require (options.invalidRowPolicy = .unset ∨ options.invalidRowPolicy = .reject ∨
    options.invalidRowPolicy = .drop) .unknownPolicy
  let scan ← (file.records.zipIdx 1).foldlM (scanRow std lower file.header options) ⟨0, 0, []⟩
  let kept := keepEvents options.maxEvents (sortEvents scan.events)
  require (kept ≠ []) .noEvents
  let initHeights := initHeightsOf kept
  return {
    digest := file.digest
    sourceRows := scan.sourceRows
    droppedRows := scan.droppedRows
    chains := (initHeights.rows.map (·.1)).mergeSort
    initHeights
    events := kept.mapIdx (finishEvent std file.digest initHeights) }

/-! ## Accepted rows -/

/-- The event of a row, if the row is accepted. -/
def acceptedEvent (std : TraceLibrary) (lower : Lowercase) (header : List String)
    (options : TraceOptions) (row : List String × ℕ) : Option ReplayEvent :=
  (parseTraceRecord std lower header row.1 (UInt64.ofNat row.2)).toOption.filter
    (allowedBy lower options.chainAllowlist)

/-- The events of the accepted rows in the order of the file. -/
def acceptedEvents (std : TraceLibrary) (lower : Lowercase) (options : TraceOptions)
    (file : TraceFile) : List ReplayEvent :=
  (file.records.zipIdx 1).filterMap (acceptedEvent std lower file.header options)

section Scan

variable {std : TraceLibrary} {lower : Lowercase} {header : List String} {options : TraceOptions}
  {rows : List (List String × ℕ)} {scan scan' : TraceScan}

theorem scanRow_events {row : List String × ℕ}
    (h : scanRow std lower header options scan row = .ok scan') :
    scan'.events = scan.events ++ (acceptedEvent std lower header options row).toList := by
  rw [scanRow] at h
  rw [acceptedEvent]
  cases hParse : parseTraceRecord std lower header row.1 (UInt64.ofNat row.2) with
  | error cause =>
      rw [hParse] at h
      dsimp only at h
      split at h
      · cases h
        simp [Except.toOption]
      · cases h
  | ok event =>
      rw [hParse] at h
      cases h
      cases hAllowed : allowedBy lower options.chainAllowlist event <;>
        simp [Except.toOption, Option.filter, hAllowed]

theorem scanRows_events (h : rows.foldlM (scanRow std lower header options) scan = .ok scan') :
    scan'.events = scan.events ++ rows.filterMap (acceptedEvent std lower header options) := by
  induction rows generalizing scan with
  | nil =>
      cases h
      simp
  | cons row rows ih =>
      rw [List.foldlM_cons] at h
      obtain ⟨next, hRow, hRows⟩ := bind_eq_ok.mp h
      rw [ih hRows, scanRow_events hRow, List.append_assoc]
      cases hAccepted : acceptedEvent std lower header options row with
      | none => rw [List.filterMap_cons_none hAccepted]; rfl
      | some event => rw [List.filterMap_cons_some hAccepted]; rfl

theorem scanRow_isOk {row : List String × ℕ} :
    (scanRow std lower header options scan row).isOk = true ↔ options.invalidRowPolicy = .drop ∨
      (parseTraceRecord std lower header row.1 (UInt64.ofNat row.2)).isOk = true := by
  rw [scanRow]
  cases parseTraceRecord std lower header row.1 (UInt64.ofNat row.2) with
  | error cause =>
      dsimp only
      split
      next hDrop => exact iff_of_true rfl (Or.inl hDrop)
      next hDrop => simp [Except.isOk, Except.toBool, hDrop]
  | ok event => exact iff_of_true rfl (Or.inr rfl)

theorem scanRows_isOk :
    (rows.foldlM (scanRow std lower header options) scan).isOk = true ↔ ∀ row ∈ rows,
      options.invalidRowPolicy = .drop ∨
        (parseTraceRecord std lower header row.1 (UInt64.ofNat row.2)).isOk = true := by
  induction rows generalizing scan with
  | nil => simp [pure, Except.pure, Except.isOk, Except.toBool]
  | cons row rows ih =>
      rw [List.foldlM_cons, List.forall_mem_cons, ← @scanRow_isOk std lower header options scan row]
      cases scanRow std lower header options scan row with
      | error cause => simp [bind, Except.bind, Except.isOk, Except.toBool]
      | ok next =>
          rw [ok_bind, ih]
          simp [Except.isOk, Except.toBool]

end Scan

/-! ## Rows in another order -/

/-- An event without its identifier and its row. -/
def ReplayEvent.anonymous (event : ReplayEvent) : ReplayEvent :=
  { event with id := "", originalRow := 0 }

section Rows

variable {std : TraceLibrary} {lower : Lowercase} {header : List String} {options : TraceOptions}

/-- The row number only goes into its own field. -/
theorem parseTraceRecord_row (record : List String) (row : UInt64) :
    parseTraceRecord std lower header record row =
      (parseTraceRecord std lower header record 0).map fun event =>
        { event with originalRow := row } := by
  rw [parseTraceRecord, parseTraceRecord, map_bind]
  refine bind_congr fun _ => ?_
  rw [map_bind]
  refine bind_congr fun sourceHeight => ?_
  rw [map_bind]
  refine bind_congr fun destinationHeight => ?_
  cases parseLegacyTime std (fieldOf header record "src_block_time") with
  | none => rfl
  | some sourceTime => rfl

theorem parseTraceRecord_isOk (record : List String) (row : UInt64) :
    (parseTraceRecord std lower header record row).isOk =
      (parseTraceRecord std lower header record 0).isOk := by
  rw [parseTraceRecord_row]
  cases parseTraceRecord std lower header record 0 with
  | error cause => rfl
  | ok event => rfl

theorem parseTraceRecord_id {record : List String} {row : UInt64} {event : ReplayEvent}
    (h : parseTraceRecord std lower header record row = .ok event) :
    event.id = "" ∧ event.originalRow = row := by
  simp only [parseTraceRecord, bind_eq_ok] at h
  obtain ⟨_, -, sourceHeight, -, destinationHeight, -, h⟩ := h
  split at h
  · cases h
  · cases h
    exact ⟨rfl, rfl⟩

theorem acceptedEvent_anonymous (row : List String × ℕ) :
    (acceptedEvent std lower header options row).map ReplayEvent.anonymous =
      acceptedEvent std lower header options (row.1, 0) := by
  rw [acceptedEvent, acceptedEvent, parseTraceRecord_row row.1 (UInt64.ofNat row.2)]
  cases hParse : parseTraceRecord std lower header row.1 (UInt64.ofNat 0) with
  | error cause => simp [Except.map, Except.toOption]
  | ok event =>
      obtain ⟨hID, hRow⟩ := parseTraceRecord_id hParse
      have hSame : ReplayEvent.anonymous { event with originalRow := UInt64.ofNat row.2 } = event := by
        cases event
        cases hID
        cases hRow
        rfl
      have hAllowed : allowedBy lower options.chainAllowlist
          { event with originalRow := UInt64.ofNat row.2 } =
          allowedBy lower options.chainAllowlist event := rfl
      simp only [Except.map, Except.toOption, Option.filter, hAllowed]
      split
      · rw [Option.map_some, hSame]
      · rfl

/-- Up to identifiers and rows, the accepted events of a file are those of its records. -/
theorem acceptedEvents_anonymous (file : TraceFile) :
    (acceptedEvents std lower options file).map ReplayEvent.anonymous =
      file.records.filterMap fun record => acceptedEvent std lower file.header options (record, 0) := by
  have hRow : (fun row => (acceptedEvent std lower file.header options row).map
      ReplayEvent.anonymous) = (fun record => acceptedEvent std lower file.header options (record, 0)) ∘
        Prod.fst := by
    funext row
    rw [Function.comp_apply, acceptedEvent_anonymous]
  rw [acceptedEvents, List.map_filterMap, hRow, ← List.filterMap_map, List.zipIdx_map_fst]

end Rows

/-! ## Sorted events -/

/-- The first five keys of the order. -/
def eventKey (event : ReplayEvent) : ℤ ×ₗ String ×ₗ ℕ ×ₗ String ×ₗ ℕ :=
  toLex (event.sourceTime, toLex (event.destination.chain,
    toLex (event.destination.originalHeight.toNat, toLex (event.source.chain,
      event.source.originalHeight.toNat))))

/-- The keys of the order: the five keys, then the row. -/
def eventRank (event : ReplayEvent) : (ℤ ×ₗ String ×ₗ ℕ ×ₗ String ×ₗ ℕ) ×ₗ ℕ :=
  toLex (eventKey event, event.originalRow.toNat)

section Order

variable {a b : ReplayEvent}

theorem ite_ne_lt {α : Type} [LinearOrder α] {x y : α} {later : Bool} :
    (if x ≠ y then decide (x < y) else later) = true ↔ x < y ∨ (x = y ∧ later = true) := by
  by_cases h : x = y
  · simp [h]
  · simp [h]

theorem eventLess_iff : eventLess a b = true ↔ eventRank a < eventRank b := by
  simp only [eventLess, ite_ne_lt, eventRank, eventKey, Prod.Lex.toLex_lt_toLex, toLex_inj,
    Prod.mk.injEq, decide_eq_true_eq]
  tauto

theorem sortEvents_perm (events : List ReplayEvent) : (sortEvents events).Perm events :=
  List.mergeSort_perm _ _

theorem sortEvents_sorted (events : List ReplayEvent) :
    (sortEvents events).Pairwise fun a b => eventRank a ≤ eventRank b := by
  have hLe : ∀ a b, (!eventLess b a) = true ↔ eventRank a ≤ eventRank b := by
    intro a b
    rw [Bool.not_eq_true', ← Bool.not_eq_true, eventLess_iff, not_lt]
  have hSorted := @List.pairwise_mergeSort _ (fun a b => !eventLess b a)
    (fun a b c hab hbc => (hLe a c).mpr (((hLe a b).mp hab).trans ((hLe b c).mp hbc)))
    (fun a b => by
      rw [Bool.or_eq_true, hLe, hLe]
      exact le_total _ _) events
  exact hSorted.imp fun h => (hLe _ _).mp h

end Order

/-! ## The prepared trace -/

/-- An event as its row gives it. -/
def ReplayEvent.parsed (event : ReplayEvent) : ReplayEvent :=
  { event with
    id := ""
    sequence := 0
    source := { event.source with normalizedHeight := 0 }
    destination := { event.destination with normalizedHeight := 0 } }

section Preparation

variable {std : TraceLibrary} {lower : Lowercase} {options : TraceOptions} {file file' : TraceFile}
  {trace : TraceOutput} {events events' : List ReplayEvent}

theorem parsed_of_accepted {row : List String × ℕ} {header : List String} {event : ReplayEvent}
    (h : acceptedEvent std lower header options row = some event) : event.parsed = event := by
  obtain ⟨hParse, -⟩ := Option.filter_eq_some_iff.mp h
  cases hRow : parseTraceRecord std lower header row.1 (UInt64.ofNat row.2) with
  | error cause =>
      rw [hRow] at hParse
      cases hParse
  | ok other =>
      rw [hRow] at hParse
      obtain rfl : other = event := Option.some.inj hParse
      simp only [parseTraceRecord, bind_eq_ok] at hRow
      obtain ⟨_, -, sourceHeight, -, destinationHeight, -, hRow⟩ := hRow
      split at hRow
      · cases hRow
      · cases hRow
        rfl

theorem keepEvents_eq (maxEvents : UInt64) (events : List ReplayEvent) :
    keepEvents maxEvents events =
      if maxEvents = 0 then events else events.take maxEvents.toNat := by
  have hZero : maxEvents = 0 ↔ maxEvents.toNat = 0 := by
    rw [← UInt64.toNat_inj]
    rfl
  rw [keepEvents]
  split
  next h => rw [if_neg fun hMax => h.1.ne' (hZero.mp hMax)]
  next h =>
    split
    next => rfl
    next hMax =>
      have hPos := mt hZero.mpr hMax
      rw [List.take_of_length_le (by omega)]

theorem keepEvents_map (maxEvents : UInt64) (f : ReplayEvent → ReplayEvent)
    (events : List ReplayEvent) :
    (keepEvents maxEvents events).map f = keepEvents maxEvents (events.map f) := by
  rw [keepEvents_eq, keepEvents_eq]
  split
  · rfl
  · exact List.map_take

theorem keepEvents_subset (maxEvents : UInt64) (events : List ReplayEvent) :
    keepEvents maxEvents events ⊆ events := by
  rw [keepEvents_eq]
  split
  · exact List.Subset.refl _
  · exact List.take_subset _ _

/-- The events that are kept. -/
def keptEvents (std : TraceLibrary) (lower : Lowercase) (options : TraceOptions) (file : TraceFile) :
    List ReplayEvent :=
  keepEvents options.maxEvents (sortEvents (acceptedEvents std lower options file))

theorem parsed_of_kept {event : ReplayEvent} (h : event ∈ keptEvents std lower options file) :
    event.parsed = event := by
  have hMem := (sortEvents_perm _).subset (keepEvents_subset _ _ h)
  obtain ⟨row, -, hRow⟩ := List.mem_filterMap.mp hMem
  exact parsed_of_accepted hRow

/-- The steps of `PrepareTrace` in the case of success. -/
theorem prepareTrace_eq_ok :
    prepareTrace std lower options file = .ok trace ↔
      (requiredColumns.forM fun name => require ((columnOf file.header name).isSome = true)
        (TraceError.missingColumn name)) = .ok () ∧
      (options.invalidRowPolicy = .unset ∨ options.invalidRowPolicy = .reject ∨
        options.invalidRowPolicy = .drop) ∧
      keptEvents std lower options file ≠ [] ∧
      ∃ scan, (file.records.zipIdx 1).foldlM (scanRow std lower file.header options) ⟨0, 0, []⟩ =
          .ok scan ∧
        trace = ⟨file.digest, scan.sourceRows, scan.droppedRows,
          ((initHeightsOf (keptEvents std lower options file)).rows.map (·.1)).mergeSort,
          initHeightsOf (keptEvents std lower options file),
          (keptEvents std lower options file).mapIdx (finishEvent std file.digest
            (initHeightsOf (keptEvents std lower options file)))⟩ := by
  have hEvents : ∀ scan, (file.records.zipIdx 1).foldlM (scanRow std lower file.header options)
      ⟨0, 0, []⟩ = .ok scan → scan.events = acceptedEvents std lower options file :=
    fun scan hScan => scanRows_events hScan
  simp only [prepareTrace, bind_eq_ok, require_eq_ok, pure, Except.pure, Except.ok.injEq]
  constructor
  · rintro ⟨_, hColumns, _, hPolicy, scan, hScan, _, hKept, rfl⟩
    rw [hEvents scan hScan] at hKept ⊢
    exact ⟨hColumns, hPolicy, hKept, scan, hScan, rfl⟩
  · rintro ⟨hColumns, hPolicy, hKept, scan, hScan, rfl⟩
    refine ⟨(), hColumns, (), hPolicy, scan, hScan, (), ?_, ?_⟩
    · rw [hEvents scan hScan]
      exact hKept
    · rw [hEvents scan hScan]
      rfl

/-! ## Another order of the rows -/

theorem eventKey_lt_of_rank {a b : ReplayEvent} (hRank : eventRank a ≤ eventRank b)
    (hKey : eventKey a ≠ eventKey b) : eventKey a < eventKey b := by
  rcases Prod.Lex.toLex_le_toLex.mp hRank with hLess | ⟨hSame, -⟩
  · exact hLess
  · exact absurd hSame hKey

theorem sortEvents_strict (hKeys : (events.map eventKey).Nodup) :
    ((sortEvents events).map ReplayEvent.anonymous).Pairwise fun a b => eventKey a < eventKey b := by
  have hNodup : ((sortEvents events).map eventKey).Nodup :=
    ((sortEvents_perm events).map eventKey).nodup_iff.mpr hKeys
  have hDistinct : (sortEvents events).Pairwise fun a b => eventKey a ≠ eventKey b :=
    List.pairwise_map.mp hNodup
  refine List.pairwise_map.mpr (((sortEvents_sorted events).and hDistinct).imp ?_)
  intro a b h
  have hLess : eventKey a < eventKey b := eventKey_lt_of_rank h.1 h.2
  exact hLess

theorem map_eventKey_anonymous (events : List ReplayEvent) :
    (events.map ReplayEvent.anonymous).map eventKey = events.map eventKey := by
  rw [List.map_map]
  rfl

/-- Events that differ in identifiers, rows and order only are the same after sorting, but for
identifiers and rows. -/
theorem sortEvents_anonymous
    (hPerm : (events.map ReplayEvent.anonymous).Perm (events'.map ReplayEvent.anonymous))
    (hKeys : (events.map eventKey).Nodup) :
    (sortEvents events).map ReplayEvent.anonymous = (sortEvents events').map ReplayEvent.anonymous := by
  have hKeys' : (events'.map eventKey).Nodup := by
    rw [← map_eventKey_anonymous] at hKeys ⊢
    exact (hPerm.map eventKey).nodup_iff.mp hKeys
  refine List.Perm.eq_of_pairwise (fun a b _ _ hab hba => absurd hba hab.not_gt)
    (sortEvents_strict hKeys) (sortEvents_strict hKeys') ?_
  exact ((sortEvents_perm events).map _).trans (hPerm.trans ((sortEvents_perm events').map _).symm)

theorem acceptedEvents_perm (hHeader : file.header = file'.header)
    (hRecords : file.records.Perm file'.records) :
    ((acceptedEvents std lower options file).map ReplayEvent.anonymous).Perm
      ((acceptedEvents std lower options file').map ReplayEvent.anonymous) := by
  rw [acceptedEvents_anonymous, acceptedEvents_anonymous, hHeader]
  exact hRecords.filterMap _

theorem keptEvents_anonymous (hHeader : file.header = file'.header)
    (hRecords : file.records.Perm file'.records)
    (hKeys : ((acceptedEvents std lower options file).map eventKey).Nodup) :
    (keptEvents std lower options file).map ReplayEvent.anonymous =
      (keptEvents std lower options file').map ReplayEvent.anonymous := by
  rw [keptEvents, keptEvents, keepEvents_map, keepEvents_map,
    sortEvents_anonymous (acceptedEvents_perm hHeader hRecords) hKeys]

theorem initHeightsOf_anonymous (events : List ReplayEvent) :
    initHeightsOf (events.map ReplayEvent.anonymous) = initHeightsOf events := by
  rw [initHeightsOf, List.foldl_map]
  rfl

theorem finishEvents_anonymous (digest : String) (values : HeightMap) (events : List ReplayEvent) :
    (events.mapIdx (finishEvent std digest values)).map ReplayEvent.anonymous =
      (events.map ReplayEvent.anonymous).mapIdx fun index event => { event with
        sequence := UInt64.ofNat index
        source := normalizeBlock values event.source
        destination := normalizeBlock values event.destination } := by
  refine List.ext_getElem? fun i => ?_
  rw [List.getElem?_map, List.getElem?_mapIdx, List.getElem?_mapIdx, List.getElem?_map, Option.map_map,
    Option.map_map]
  rfl

/-- Whether the loop over the rows succeeds does not depend on their order. -/
theorem scanRows_isOk_perm (hHeader : file.header = file'.header)
    (hRecords : file.records.Perm file'.records)
    (h : ((file.records.zipIdx 1).foldlM (scanRow std lower file.header options)
      ⟨0, 0, []⟩).isOk = true) :
    ((file'.records.zipIdx 1).foldlM (scanRow std lower file'.header options)
      ⟨0, 0, []⟩).isOk = true := by
  rw [scanRows_isOk] at h ⊢
  rintro ⟨record, i⟩ hMem
  have hRecord : record ∈ file.records :=
    hRecords.symm.subset (by simpa using List.mem_map_of_mem (f := Prod.fst) hMem)
  rw [← List.zipIdx_map_fst 1 file.records] at hRecord
  obtain ⟨⟨_, j⟩, hRow, rfl⟩ := List.mem_map.mp hRecord
  have hOk := h _ hRow
  rw [parseTraceRecord_isOk, hHeader] at hOk
  rwa [parseTraceRecord_isOk]

/-! ## Heights of the finished events -/

theorem finishEvents_parsed (digest : String) (values : HeightMap)
    (hParsed : ∀ event ∈ events, event.parsed = event) :
    (events.mapIdx (finishEvent std digest values)).map ReplayEvent.parsed = events := by
  refine List.ext_getElem? fun i => ?_
  rw [List.getElem?_map, List.getElem?_mapIdx, Option.map_map]
  cases hEvent : events[i]? with
  | none => rfl
  | some event => exact congrArg some (hParsed event (List.mem_of_getElem? hEvent))

/-- A block of a finished event is a block of an event with its height above the first one. -/
theorem mem_finishEvents {digest : String} {values : HeightMap} {event : ReplayEvent}
    {block : ReplayBlock} (hEvent : event ∈ events.mapIdx (finishEvent std digest values))
    (hBlock : block ∈ event.blocks) :
    ∃ original ∈ events.flatMap ReplayEvent.blocks, block = normalizeBlock values original := by
  obtain ⟨i, hLength, rfl⟩ := List.mem_mapIdx.mp hEvent
  have hBlocks : (finishEvent std digest values i events[i]).blocks =
      events[i].blocks.map (normalizeBlock values) := rfl
  rw [hBlocks] at hBlock
  obtain ⟨original, hOriginal, rfl⟩ := List.mem_map.mp hBlock
  exact ⟨original, List.mem_flatMap.mpr ⟨_, List.getElem_mem hLength, hOriginal⟩, rfl⟩

/-- The subtraction does not wrap. -/
theorem normalizeBlock_exact {blocks : List ReplayBlock} {values : HeightMap}
    (h : Minima blocks values) {original : ReplayBlock} (hMem : original ∈ blocks) :
    ∃ base, lowestIn values original.chain = some base ∧ base ≤ original.originalHeight ∧
      (normalizeBlock values original).normalizedHeight.toNat + base.toNat =
        original.originalHeight.toNat := by
  obtain ⟨base, hBase⟩ := h.exists_lowest hMem
  have hLe := (h.least _ base hBase).2 ⟨original, hMem, rfl, rfl⟩
  have hHeight : heightIn values original.chain = base := congrArg (·.getD 0) hBase
  refine ⟨base, hBase, hLe, ?_⟩
  rw [normalizeBlock, hHeight, UInt64.toNat_sub_of_le _ _ hLe]
  exact Nat.sub_add_cancel (UInt64.le_iff_toNat_le.mp hLe)

theorem mem_blocks_of_parsed {chain : String} {height : UInt64} :
    (∃ block ∈ (events.map ReplayEvent.parsed).flatMap ReplayEvent.blocks,
        block.chain = chain ∧ block.originalHeight = height) ↔
      ∃ event ∈ events, ∃ block ∈ event.blocks,
        block.chain = chain ∧ block.originalHeight = height := by
  constructor
  · rintro ⟨block, hMem, hBlock⟩
    obtain ⟨_, hParsed, hBlocks⟩ := List.mem_flatMap.mp hMem
    obtain ⟨event, hEvent, rfl⟩ := List.mem_map.mp hParsed
    refine ⟨event, hEvent, ?_⟩
    rcases List.mem_pair.mp hBlocks with rfl | rfl
    · exact ⟨event.source, List.mem_cons_self, hBlock⟩
    · exact ⟨event.destination, List.mem_cons_of_mem _ List.mem_cons_self, hBlock⟩
  · rintro ⟨event, hEvent, block, hMem, hBlock⟩
    have hParsed := List.mem_map_of_mem (f := ReplayEvent.parsed) hEvent
    rcases List.mem_pair.mp hMem with rfl | rfl
    · exact ⟨event.parsed.source, List.mem_flatMap.mpr ⟨_, hParsed, List.mem_cons_self⟩, hBlock⟩
    · exact ⟨event.parsed.destination, List.mem_flatMap.mpr ⟨_, hParsed,
        List.mem_cons_of_mem _ List.mem_cons_self⟩, hBlock⟩

theorem keptEvents_ne_nil (hMax : options.maxEvents = 0)
    (hAccepted : acceptedEvents std lower options file ≠ []) :
    keptEvents std lower options file ≠ [] := by
  rw [keptEvents, keepEvents_eq, if_pos hMax]
  intro hNone
  have hPerm := sortEvents_perm (acceptedEvents std lower options file)
  rw [hNone] at hPerm
  exact hAccepted hPerm.nil_eq.symm

end Preparation

namespace TraceToy

/-- A library that knows one time and no numbers. -/
def std : TraceLibrary := ⟨fun _ _ => some 5, fun _ => none, fun _ => 0, fun _ => "", id⟩

def options : TraceOptions := ⟨.unset, [], 0⟩

/-- Two rows at one time. -/
def file : TraceFile where
  digest := "toy"
  header := ["src_chain", "dst_chain", "src_block_number", "dst_block_number", "src_block_time"]
  records := [["a", "b", "7", "9", "t"], ["B ", "a", "1e1", "+8.4", "t"]]

theorem prepared : ∃ trace, prepareTrace std .plain options file = .ok trace := by
  obtain ⟨scan, hScan⟩ := exists_ok_of_isOk (x := (file.records.zipIdx 1).foldlM
    (scanRow std .plain file.header options) ⟨0, 0, []⟩) (by decide +kernel)
  obtain ⟨⟨⟩, hColumns⟩ := exists_ok_of_isOk (x := requiredColumns.forM fun name =>
    require ((columnOf file.header name).isSome = true) (TraceError.missingColumn name))
    (by decide +kernel)
  refine ⟨_, prepareTrace_eq_ok.mpr ⟨hColumns, Or.inl rfl, ?_, scan, hScan, rfl⟩⟩
  exact keptEvents_ne_nil rfl (by decide +kernel)

end TraceToy

/-- The events are the accepted rows in the order of the keys, cut at the maximum and numbered; the
first heights are the least ones, the heights above them do not wrap and keep their differences; and
another order of the rows changes identifiers and rows only, if the keys tell the rows apart. -/
theorem prepareTrace_canonical {std : TraceLibrary} {lower : Lowercase} {options : TraceOptions}
    {file : TraceFile} {trace : TraceOutput}
    (h : prepareTrace std lower options file = .ok trace) :
    (∃ sorted : List ReplayEvent, sorted.Perm (acceptedEvents std lower options file) ∧
        sorted.Pairwise (fun a b => eventRank a ≤ eventRank b) ∧
        trace.events.map ReplayEvent.parsed =
          if options.maxEvents = 0 then sorted else sorted.take options.maxEvents.toNat) ∧
      (∀ i event, trace.events[i]? = some event → event.sequence = UInt64.ofNat i) ∧
      (∀ chain height, (trace.initHeights.find? chain).map (·.2) = some height ↔ IsLeast
        {x | ∃ event ∈ trace.events, ∃ block ∈ event.blocks,
          block.chain = chain ∧ block.originalHeight = x} height) ∧
      (∀ event ∈ trace.events, ∀ block ∈ event.blocks, ∃ base,
        (trace.initHeights.find? block.chain).map (·.2) = some base ∧ base ≤ block.originalHeight ∧
        block.normalizedHeight.toNat + base.toNat = block.originalHeight.toNat) ∧
      (∀ event ∈ trace.events, ∀ event' ∈ trace.events, ∀ block ∈ event.blocks,
        ∀ block' ∈ event'.blocks, block.chain = block'.chain →
          (block.normalizedHeight.toNat : ℤ) - block'.normalizedHeight.toNat =
            block.originalHeight.toNat - block'.originalHeight.toNat) ∧
      ∀ digest records, file.records.Perm records →
        (acceptedEvents std lower options file).Pairwise (fun a b => eventKey a ≠ eventKey b) →
        ∃ trace', prepareTrace std lower options ⟨digest, file.header, records⟩ = .ok trace' ∧
          trace'.events.map ReplayEvent.anonymous = trace.events.map ReplayEvent.anonymous := by
  obtain ⟨hColumns, hPolicy, hNonempty, scan, hScan, rfl⟩ := prepareTrace_eq_ok.mp h
  have hParsed : ((keptEvents std lower options file).mapIdx (finishEvent std file.digest
      (initHeightsOf (keptEvents std lower options file)))).map ReplayEvent.parsed =
      keptEvents std lower options file :=
    finishEvents_parsed _ _ fun event hMem => parsed_of_kept hMem
  have hMinima := initHeightsOf_minima (keptEvents std lower options file)
  have hNormal : ∀ event ∈ (keptEvents std lower options file).mapIdx (finishEvent std file.digest
      (initHeightsOf (keptEvents std lower options file))), ∀ block ∈ event.blocks, ∃ base,
        lowestIn (initHeightsOf (keptEvents std lower options file)) block.chain = some base ∧
        base ≤ block.originalHeight ∧
        block.normalizedHeight.toNat + base.toNat = block.originalHeight.toNat := by
    intro event hEvent block hBlock
    obtain ⟨original, hMem, rfl⟩ := mem_finishEvents hEvent hBlock
    obtain ⟨base, hBase⟩ := normalizeBlock_exact hMinima hMem
    exact ⟨base, hBase⟩
  refine ⟨⟨_, sortEvents_perm _, sortEvents_sorted _, ?_⟩, ?_, ?_, hNormal, ?_, ?_⟩
  · rw [hParsed, keptEvents, keepEvents_eq]
  · intro i event hEvent
    rw [List.getElem?_mapIdx] at hEvent
    obtain ⟨kept, -, rfl⟩ := Option.map_eq_some_iff.mp hEvent
    rfl
  · intro chain height
    have hLeast := @Minima.isLeast_iff _ _ hMinima chain height
    rw [lowestIn] at hLeast
    rw [hLeast]
    conv_lhs => rw [← hParsed]
    simp only [heightsOf, mem_blocks_of_parsed]
  · intro event hEvent event' hEvent' block hBlock block' hBlock' hChain
    obtain ⟨base, hBase, -, hHeight⟩ := hNormal event hEvent block hBlock
    obtain ⟨base', hBase', -, hHeight'⟩ := hNormal event' hEvent' block' hBlock'
    rw [hChain, hBase'] at hBase
    obtain rfl := Option.some.inj hBase
    omega
  · intro digest records hRecords hKeys
    have hSame := @keptEvents_anonymous std lower options file ⟨digest, file.header, records⟩ rfl
      hRecords (List.pairwise_map.mpr hKeys)
    obtain ⟨scan', hScan'⟩ := exists_ok_of_isOk (@scanRows_isOk_perm std lower options file
      ⟨digest, file.header, records⟩ rfl hRecords (by rw [hScan]; rfl))
    refine ⟨_, prepareTrace_eq_ok.mpr ⟨hColumns, hPolicy, ?_, scan', hScan', rfl⟩, ?_⟩
    · intro hNone
      rw [hNone, List.map_nil, List.map_eq_nil_iff] at hSame
      exact hNonempty hSame
    · simp only [finishEvents_anonymous, ← hSame]
      rw [← initHeightsOf_anonymous, ← hSame, initHeightsOf_anonymous]

theorem prepareTrace_canonical_toy :
    ∃ trace trace', prepareTrace TraceToy.std .plain TraceToy.options TraceToy.file = .ok trace ∧
      prepareTrace TraceToy.std .plain TraceToy.options
        ⟨"other", TraceToy.file.header, TraceToy.file.records.reverse⟩ = .ok trace' ∧
      trace'.events.map ReplayEvent.anonymous = trace.events.map ReplayEvent.anonymous := by
  obtain ⟨trace, hTrace⟩ := TraceToy.prepared
  obtain ⟨trace', hTrace', hSame⟩ := (prepareTrace_canonical hTrace).2.2.2.2.2 "other" _
    (List.reverse_perm _).symm (by decide +kernel)
  exact ⟨trace, trace', hTrace, hTrace', hSame⟩

end TrustMap.Mapnode.Replay
