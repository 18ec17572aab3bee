import Mathlib.Data.Countable.Basic
import Mathlib.Data.List.Sort
import Mathlib.Data.List.Lex
import Mathlib.Data.String.Basic
import Mathlib.Logic.Equiv.List
import TrustMap.Mapnode.Replay.Coordinator
import TrustMap.Mapnode.Replay.Document

/-!
The identity of a replay run: digests of the inputs, hashed together. The text of a checkpoint policy
lists the chains with their periods line by line, and a name may contain the separators, so one text
can belong to several policies.
-/

namespace TrustMap.Mapnode.Replay

open Checks

/-! ## Texts -/

section Texts

/-- A text can be taken apart at the last place of a separator. -/
theorem append_sep_inj {sep : Char} {xs ys digits digits' : List Char} (hDigits : sep ∉ digits)
    (hDigits' : sep ∉ digits') (h : xs ++ sep :: digits = ys ++ sep :: digits') :
    xs = ys ∧ digits = digits' := by
  rcases List.append_eq_append_iff.mp h with ⟨between, hYs, hSep⟩ | ⟨between, hXs, hSep⟩
  · cases between with
    | nil => exact ⟨by simp [hYs], (List.cons.inj hSep).2⟩
    | cons c between =>
        refine (hDigits ?_).elim
        rw [(List.cons.inj hSep).2]
        simp
  · cases between with
    | nil => exact ⟨by simp [hXs], (List.cons.inj hSep).2.symm⟩
    | cons c between =>
        refine (hDigits' ?_).elim
        rw [(List.cons.inj hSep).2]
        simp

/-- A text can be taken apart at the first place of a separator. -/
theorem sep_append_inj {sep : Char} {xs ys rest rest' : List Char} (hXs : sep ∉ xs)
    (hYs : sep ∉ ys) (h : xs ++ sep :: rest = ys ++ sep :: rest') : xs = ys ∧ rest = rest' := by
  rcases List.append_eq_append_iff.mp h with ⟨between, rfl, hSep⟩ | ⟨between, rfl, hSep⟩
  · cases between with
    | nil => exact ⟨by simp, (List.cons.inj hSep).2⟩
    | cons c between =>
        obtain ⟨rfl, -⟩ := List.cons.inj hSep
        exact (hYs (by simp)).elim
  · cases between with
    | nil => exact ⟨by simp, (List.cons.inj hSep).2.symm⟩
    | cons c between =>
        obtain ⟨rfl, -⟩ := List.cons.inj hSep
        exact (hXs (by simp)).elim

/-- A text comes before a longer text that starts with it. -/
theorem lt_append_cons (text : List Char) (c : Char) (rest : List Char) : text < text ++ c :: rest := by
  induction text with
  | nil => exact List.Lex.nil
  | cons head text ih => exact List.Lex.cons ih

theorem equals_not_digit : ('=' : Char).isDigit = false := by decide

theorem newline_not_digit : ('\n' : Char).isDigit = false := by decide

theorem uintText_injective {value value' : UInt64} (h : uintText value = uintText value') :
    value = value' := by
  have hNat := congrArg (fun text => Nat.ofDigitChars 10 text 0) h
  simp only [uintText, Nat.ofDigitChars_toDigits (by decide : 1 < 10) (by decide : 10 ≤ 10)] at hNat
  exact UInt64.toNat_inj.mp hNat

end Texts

/-! ## Checkpoint policies -/

/-- The errors of `NewCheckpointPolicy`. -/
inductive PolicyError
  | emptyChain
  | zeroPeriod
  | duplicateChain

/-- A turn of the loop of `NewCheckpointPolicy`. -/
def addEntry (lower : Lowercase) (canonical : Table fun entry : String × UInt64 => entry.1)
    (entry : String × UInt64) :
    Except PolicyError (Table fun entry : String × UInt64 => entry.1) := do
  let name := canonicalChain lower entry.1
  require (name ≠ "") .emptyChain
  require (entry.2 ≠ 0) .zeroPeriod
  match canonical.insert? (name, entry.2) with
  | none => .error .duplicateChain
  | some canonical => .ok canonical

/-- `NewCheckpointPolicy`, for the entries of the map in the order they are visited. -/
def newCheckpointPolicy (lower : Lowercase) (periods : List (String × UInt64)) :
    Except PolicyError CheckpointPolicy := do
  let canonical ← periods.foldlM (addEntry lower) .empty
  return ⟨canonical⟩

/-- The chains of a policy in the order of `sort.Strings`. -/
def CheckpointPolicy.sortedEntries (policy : CheckpointPolicy) : List (String × UInt64) :=
  policy.periods.rows.insertionSort fun entry other => entry.1 ≤ other.1

/-- The line of a chain. -/
def entryText (entry : String × UInt64) : List Char :=
  entry.1.toList ++ '=' :: (uintText entry.2 ++ ['\n'])

/-- The lines of the entries. -/
def entriesText (entries : List (String × UInt64)) : List Char :=
  entries.flatMap entryText

/-- The first line of the text of a policy. -/
def policyHeader : String := "trustmap/replay-checkpoints/v1\n"

/-- The text that `CheckpointPolicy.Fingerprint` hashes. -/
def CheckpointPolicy.material (policy : CheckpointPolicy) : String :=
  policyHeader ++ String.ofList (entriesText policy.sortedEntries)

/-- The text that `CostProfile.Fingerprint` hashes. -/
def CostProfile.material (profile : CostProfile) : String :=
  "trustmap/replay-cost-profile/v1\n" ++ String.ofList (profile.id.toList ++
    '\n' :: (uintText profile.directStepCost ++ '\n' :: (uintText profile.pathStepCost ++
      '\n' :: uintText profile.trustRootUpdateCost)))

/-! ## The identity -/

/-- `InvalidRowPolicy`. -/
inductive InvalidRowPolicy
  | reject
  | drop
  deriving DecidableEq

/-- The selection that `NewReplayRunIdentity` marshals. -/
structure Selection where
  allowlist : List String
  maxEvents : UInt64
  invalidRowPolicy : InvalidRowPolicy
  deriving DecidableEq

/-- `ReplayRunIdentity` before its ID is set. -/
structure ReplayRunIdentity where
  setting : Setting
  traceDigest : String
  preparedRows : UInt64
  implementationVersion : String
  schemaVersion : ℕ
  gitCommit : String
  costProfileFingerprint : String
  checkpointPolicyFingerprint : String
  selectionFingerprint : String
  recordEvery : UInt64
  logEvery : UInt64
  deriving DecidableEq

/-- What the identity is computed with: `sha256.Sum256` as hexadecimal text, and `json.Marshal` of the
two structures. -/
structure IdentityCodec where
  hexDigest : List UInt8 → String
  marshalSelection : Selection → List UInt8
  marshalIdentity : ReplayRunIdentity → List UInt8

/-- The hash has no collisions, and a marshalled value determines the value. -/
structure IdentityCodec.Faithful (codec : IdentityCodec) : Prop where
  hexDigest : Function.Injective codec.hexDigest
  marshalSelection : Function.Injective codec.marshalSelection
  marshalIdentity : Function.Injective codec.marshalIdentity

/-- The constants of a build. -/
structure Build where
  implementationVersion : String
  schemaVersion : ℕ
  gitCommit : String

/-- The inputs of a run. -/
structure RunInputs where
  setting : Setting
  traceBytes : List UInt8
  preparedRows : UInt64
  profile : CostProfile
  policy : CheckpointPolicy
  selection : Selection
  recordEvery : UInt64
  logEvery : UInt64

/-- The bytes of a text. -/
def utf8 (text : String) : List UInt8 := text.toUTF8.data.toList

theorem utf8_injective : Function.Injective utf8 := by
  intro text text' h
  have hBytes : text.toUTF8.data = text'.toUTF8.data := Array.toList_inj.mp h
  exact String.toByteArray_inj.mp (ByteArray.ext hBytes)

/-- `NewReplayRunIdentity` without the ID. -/
def newReplayRunIdentity (codec : IdentityCodec) (build : Build) (inputs : RunInputs) :
    ReplayRunIdentity where
  setting := inputs.setting
  traceDigest := codec.hexDigest inputs.traceBytes
  preparedRows := inputs.preparedRows
  implementationVersion := build.implementationVersion
  schemaVersion := build.schemaVersion
  gitCommit := build.gitCommit
  costProfileFingerprint := codec.hexDigest (utf8 inputs.profile.material)
  checkpointPolicyFingerprint := codec.hexDigest (utf8 inputs.policy.material)
  selectionFingerprint := codec.hexDigest (codec.marshalSelection inputs.selection)
  recordEvery := inputs.recordEvery
  logEvery := inputs.logEvery

/-- The ID of a run. -/
def runID (codec : IdentityCodec) (build : Build) (inputs : RunInputs) : String :=
  codec.hexDigest (utf8 "trustmap/replay-run/v1\n" ++
    codec.marshalIdentity (newReplayRunIdentity codec build inputs))

/-- Two policies have the same chains with the same periods. -/
def CheckpointPolicy.Same (policy policy' : CheckpointPolicy) : Prop :=
  ∀ name, policy.periods.find? name = policy'.periods.find? name

/-- Two runs have the same inputs. -/
structure RunInputs.Same (inputs inputs' : RunInputs) : Prop where
  setting : inputs.setting = inputs'.setting
  traceBytes : inputs.traceBytes = inputs'.traceBytes
  preparedRows : inputs.preparedRows = inputs'.preparedRows
  profile : inputs.profile = inputs'.profile
  policy : inputs.policy.Same inputs'.policy
  selection : inputs.selection = inputs'.selection
  recordEvery : inputs.recordEvery = inputs'.recordEvery
  logEvery : inputs.logEvery = inputs'.logEvery

/-- Texts with the same header are the same behind it. -/
theorem header_append_inj {header : String} {text text' : List Char}
    (h : header ++ String.ofList text = header ++ String.ofList text') : text = text' := by
  rw [← String.toList_inj, String.toList_append, String.toList_append, String.toList_ofList,
    String.toList_ofList] at h
  exact List.append_cancel_left h

/-- The last three lines of a text, which are numbers, can be taken off. -/
theorem lines_inj {id id' : List Char} {direct path update direct' path' update' : UInt64}
    (h : id ++ '\n' :: (uintText direct ++ '\n' :: (uintText path ++ '\n' :: uintText update)) =
      id' ++ '\n' :: (uintText direct' ++ '\n' :: (uintText path' ++ '\n' :: uintText update'))) :
    id = id' ∧ direct = direct' ∧ path = path' ∧ update = update' := by
  have hNot : ∀ value : UInt64, '\n' ∉ uintText value :=
    fun value => not_mem_uintText newline_not_digit
  have hGroup : ∀ id direct path update : List Char,
      id ++ '\n' :: (direct ++ '\n' :: (path ++ '\n' :: update)) =
        ((id ++ '\n' :: direct) ++ '\n' :: path) ++ '\n' :: update := by
    intro id direct path update
    simp only [List.append_assoc, List.cons_append]
  rw [hGroup, hGroup] at h
  obtain ⟨h, hUpdate⟩ := append_sep_inj (hNot _) (hNot _) h
  obtain ⟨h, hPath⟩ := append_sep_inj (hNot _) (hNot _) h
  obtain ⟨hID, hDirect⟩ := append_sep_inj (hNot _) (hNot _) h
  exact ⟨hID, uintText_injective hDirect, uintText_injective hPath, uintText_injective hUpdate⟩

theorem CostProfile.material_injective {profile profile' : CostProfile}
    (h : profile.material = profile'.material) : profile = profile' := by
  obtain ⟨hID, hDirect, hPath, hUpdate⟩ := lines_inj (header_append_inj h)
  cases profile
  cases profile'
  exact CostProfile.mk.injEq .. ▸ ⟨String.toList_inj.mp hID, hDirect, hPath, hUpdate⟩

/-- Two runs with one ID have the same inputs, up to the texts of their policies. -/
theorem runID_eq_iff {codec : IdentityCodec} (hCodec : codec.Faithful) {build : Build}
    {inputs inputs' : RunInputs} :
    runID codec build inputs = runID codec build inputs' ↔
      inputs.setting = inputs'.setting ∧ inputs.traceBytes = inputs'.traceBytes ∧
      inputs.preparedRows = inputs'.preparedRows ∧ inputs.profile = inputs'.profile ∧
      inputs.policy.material = inputs'.policy.material ∧ inputs.selection = inputs'.selection ∧
      inputs.recordEvery = inputs'.recordEvery ∧ inputs.logEvery = inputs'.logEvery := by
  constructor
  · intro h
    have hIdentity := hCodec.marshalIdentity (List.append_cancel_left (hCodec.hexDigest h))
    simp only [newReplayRunIdentity, ReplayRunIdentity.mk.injEq] at hIdentity
    obtain ⟨hSetting, hTrace, hRows, -, -, -, hProfile, hPolicy, hSelection, hRecord, hLog⟩ := hIdentity
    exact ⟨hSetting, hCodec.hexDigest hTrace, hRows,
      CostProfile.material_injective (utf8_injective (hCodec.hexDigest hProfile)),
      utf8_injective (hCodec.hexDigest hPolicy),
      hCodec.marshalSelection (hCodec.hexDigest hSelection), hRecord, hLog⟩
  · rintro ⟨hSetting, hTrace, hRows, hProfile, hPolicy, hSelection, hRecord, hLog⟩
    rw [runID, runID, newReplayRunIdentity, newReplayRunIdentity, hSetting, hTrace, hRows, hProfile,
      hPolicy, hSelection, hRecord, hLog]

/-! ## The policies of one text -/

variable {entries : List (String × UInt64)} {entry : String × UInt64}

section Policies

variable {lower : Lowercase} {policy policy' : CheckpointPolicy}

/-- A name that `NewCheckpointPolicy` can give a chain. -/
structure ChainName (lower : Lowercase) (name : String) : Prop where
  canonical : canonicalChain lower name = name
  nonempty : name ≠ ""

/-- An entry that a policy can have. -/
structure PolicyEntry (lower : Lowercase) (entry : String × UInt64) : Prop where
  name : ChainName lower entry.1
  period : entry.2 ≠ 0

/-- A policy is one that the constructor returns. -/
def CheckpointPolicy.Accepted (lower : Lowercase) (policy : CheckpointPolicy) : Prop :=
  ∃ periods, newCheckpointPolicy lower periods = .ok policy

theorem sortedEntries_perm : policy.sortedEntries.Perm policy.periods.rows :=
  List.perm_insertionSort _ _

/-- The entries are in the strict order of their names. -/
theorem sortedEntries_sorted : policy.sortedEntries.Pairwise fun entry other => entry.1 < other.1 := by
  have hSorted : policy.sortedEntries.Pairwise fun entry other => entry.1 ≤ other.1 :=
    List.pairwise_insertionSort _ _
  have hDistinct : policy.sortedEntries.Pairwise fun entry other => entry.1 ≠ other.1 := by
    have hNodup : (policy.sortedEntries.map fun entry => entry.1).Nodup :=
      (sortedEntries_perm.map _).nodup_iff.mpr policy.periods.nodup
    exact List.pairwise_map.mp hNodup
  exact (hSorted.and hDistinct).imp fun h => lt_of_le_of_ne h.1 h.2

/-- The policy with the given entries. -/
def CheckpointPolicy.ofEntries (entries : List (String × UInt64))
    (hSorted : entries.Pairwise fun entry other => entry.1 < other.1) : CheckpointPolicy where
  periods := {
    rows := entries
    nodup := List.pairwise_map.mpr (hSorted.imp fun h => ne_of_lt h) }

theorem sortedEntries_ofEntries (hSorted : entries.Pairwise fun entry other => entry.1 < other.1) :
    (CheckpointPolicy.ofEntries entries hSorted).sortedEntries = entries := by
  have hPerm := @sortedEntries_perm (CheckpointPolicy.ofEntries entries hSorted)
  refine List.Perm.eq_of_pairwise (fun entry other _ _ hLess hLess' => ?_) sortedEntries_sorted hSorted
    hPerm
  exact (lt_asymm hLess hLess').elim

/-- Policies with the same entries are the same. -/
theorem same_of_sortedEntries (h : policy.sortedEntries = policy'.sortedEntries) :
    policy.Same policy' := by
  have hMem : ∀ entry, entry ∈ policy.periods.rows ↔ entry ∈ policy'.periods.rows := by
    intro entry
    rw [← sortedEntries_perm.mem_iff, h, sortedEntries_perm.mem_iff]
  intro name
  cases hFind : policy'.periods.find? name with
  | none =>
      rw [Table.find?_eq_none] at hFind ⊢
      exact fun entry hEntry => hFind entry ((hMem entry).mp hEntry)
  | some entry =>
      rw [Table.find?_eq_some] at hFind ⊢
      exact ⟨(hMem entry).mpr hFind.1, hFind.2⟩

theorem sortedEntries_of_same (h : policy.Same policy') :
    policy.sortedEntries = policy'.sortedEntries := by
  have hMem : ∀ entry, entry ∈ policy.periods.rows ↔ entry ∈ policy'.periods.rows := by
    intro entry
    have hRow : ∀ policy : CheckpointPolicy, entry ∈ policy.periods.rows ↔
        policy.periods.find? entry.1 = some entry := fun policy =>
      ⟨fun hEntry => Table.find?_key hEntry, fun hFind => (Table.find?_eq_some.mp hFind).1⟩
    rw [hRow, hRow, h]
  have hNodup : ∀ policy : CheckpointPolicy, policy.periods.rows.Nodup := fun policy =>
    List.Nodup.of_map _ policy.periods.nodup
  have hPerm : policy.sortedEntries.Perm policy'.sortedEntries :=
    sortedEntries_perm.trans (((List.perm_ext_iff_of_nodup (hNodup policy) (hNodup policy')).mpr
      hMem).trans sortedEntries_perm.symm)
  refine List.Perm.eq_of_pairwise (fun entry other _ _ hLess hLess' => ?_) sortedEntries_sorted
    sortedEntries_sorted hPerm
  exact (lt_asymm hLess hLess').elim

variable {table : Table fun entry : String × UInt64 => entry.1}

/-- The step of the loop of `NewCheckpointPolicy`. -/
theorem addEntry_eq_ok {table' : Table fun entry : String × UInt64 => entry.1} :
    addEntry lower table entry = .ok table' ↔
      PolicyEntry lower (canonicalChain lower entry.1, entry.2) ∧
        table.insert? (canonicalChain lower entry.1, entry.2) = some table' := by
  simp only [addEntry, check_bind_eq_ok, require_eq_ok]
  cases table.insert? (canonicalChain lower entry.1, entry.2) with
  | none => simp
  | some added =>
      simp only [Except.ok.injEq, Option.some.injEq]
      constructor
      · rintro ⟨hName, hPeriod, rfl⟩
        exact ⟨⟨⟨canonicalChain_canonicalChain lower entry.1, hName⟩, hPeriod⟩, rfl⟩
      · rintro ⟨⟨⟨-, hName⟩, hPeriod⟩, rfl⟩
        exact ⟨hName, hPeriod, rfl⟩

theorem foldlM_addEntry {table' : Table fun entry : String × UInt64 => entry.1}
    (hFold : entries.foldlM (addEntry lower) table = .ok table')
    (hTable : ∀ entry ∈ table.rows, PolicyEntry lower entry) :
    ∀ entry ∈ table'.rows, PolicyEntry lower entry := by
  induction entries generalizing table with
  | nil =>
      obtain rfl := pure_eq_ok.mp hFold
      exact hTable
  | cons head entries ih =>
      rw [List.foldlM_cons] at hFold
      obtain ⟨next, hNext, hFold⟩ := bind_eq_ok.mp hFold
      obtain ⟨hEntry, hInsert⟩ := addEntry_eq_ok.mp hNext
      refine ih hFold fun entry hMem => ?_
      rw [(Table.insert?_eq_some.mp hInsert).2, List.mem_append, List.mem_singleton] at hMem
      rcases hMem with hMem | rfl
      · exact hTable entry hMem
      · exact hEntry

/-- Entries that are canonical already are entered one after the other. -/
theorem foldlM_addEntry_ok (hEntries : ∀ entry ∈ entries, PolicyEntry lower entry)
    (hNodup : ((table.rows ++ entries).map fun entry => entry.1).Nodup) :
    ∃ table', entries.foldlM (addEntry lower) table = .ok table' ∧
      table'.rows = table.rows ++ entries := by
  induction entries generalizing table with
  | nil => exact ⟨table, rfl, by simp⟩
  | cons head entries ih =>
      have hHead := hEntries head List.mem_cons_self
      have hFree : table.find? head.1 = none := by
        rw [Table.find?_eq_none]
        intro entry hMem hName
        rw [List.map_append, List.map_cons, List.nodup_append] at hNodup
        exact hNodup.2.2 _ (List.mem_map.mpr ⟨entry, hMem, rfl⟩) _ List.mem_cons_self hName
      obtain ⟨next, hInsert⟩ : ∃ next, table.insert? head = some next := by
        cases hNone : table.insert? head with
        | none =>
            obtain ⟨entry, hMem, hName⟩ := Table.insert?_eq_none.mp hNone
            exact (Table.find?_eq_none.mp hFree entry hMem hName).elim
        | some next => exact ⟨next, rfl⟩
      have hRows := (Table.insert?_eq_some.mp hInsert).2
      have hName : (canonicalChain lower head.1, head.2) = head := by rw [hHead.name.canonical]
      obtain ⟨table', hFold, hRows'⟩ := @ih next (fun entry hMem =>
        hEntries entry (List.mem_cons_of_mem head hMem)) (by rw [hRows]; simpa using hNodup)
      refine ⟨table', ?_, by rw [hRows', hRows]; simp⟩
      rw [List.foldlM_cons, addEntry_eq_ok.mpr ⟨by rw [hName]; exact hHead, by rw [hName]; exact hInsert⟩]
      exact hFold

/-- What the constructor accepts. -/
theorem accepted_iff :
    policy.Accepted lower ↔ ∀ entry ∈ policy.periods.rows, PolicyEntry lower entry := by
  constructor
  · rintro ⟨periods, hNew⟩
    simp only [newCheckpointPolicy, bind_eq_ok, pure_eq_ok] at hNew
    obtain ⟨table, hTable, rfl⟩ := hNew
    exact foldlM_addEntry hTable (by simp)
  · intro hEntries
    obtain ⟨table, hTable, hRows⟩ := @foldlM_addEntry_ok policy.periods.rows lower .empty hEntries
      (by simpa using policy.periods.nodup)
    have hSame : table = policy.periods := Table.ext (by simpa using hRows)
    refine ⟨policy.periods.rows, ?_⟩
    rw [newCheckpointPolicy, hTable, hSame]
    rfl

/-- The case mapping leaves what stands between the names as it is. -/
structure Lowercase.KeepsSeparators (lower : Lowercase) : Prop where
  equals : lower.toLower '=' = '='
  newline : lower.toLower '\n' = '\n'
  digit : ∀ c : Char, c.isDigit → lower.toLower c = c

theorem trimSpace_eq_self_iff {text : List Char} (hText : text ≠ []) :
    trimSpace text = text ↔ isSpace (text.head hText) = false ∧ isSpace (text.getLast hText) = false := by
  have hPos : 0 < text.length := List.length_pos_iff.mpr hText
  constructor
  · intro h
    have hDrop : text.dropWhile isSpace = text := by
      have hPrefix : trimSpace text <+: text.dropWhile isSpace := List.rdropWhile_prefix ..
      rw [h] at hPrefix
      exact (List.IsSuffix.eq_of_length_le (List.dropWhile_suffix _) hPrefix.length_le)
    rw [trimSpace, hDrop, List.rdropWhile_eq_self_iff] at h
    rw [List.dropWhile_eq_self_iff] at hDrop
    refine ⟨?_, by simpa using h hText⟩
    have hHead := hDrop hPos
    rw [List.head_eq_getElem]
    simpa using hHead
  · rintro ⟨hHead, hLast⟩
    have hDrop : text.dropWhile isSpace = text := by
      rw [List.dropWhile_eq_self_iff]
      intro hLength
      rw [List.head_eq_getElem] at hHead
      simp [hHead]
    rw [trimSpace, hDrop, List.rdropWhile_eq_self_iff]
    intro _
    simp [hLast]

/-- A canonical name has no spaces around it and no upper case in it. -/
theorem chainName_iff {name : String} : ChainName lower name ↔
    ∃ hText : name.toList ≠ [], (isSpace (name.toList.head hText) = false ∧
      isSpace (name.toList.getLast hText) = false) ∧ ∀ c ∈ name.toList, lower.toLower c = c := by
  have hEmpty : name ≠ "" ↔ name.toList ≠ [] := by
    rw [ne_eq, ne_eq, ← String.toList_inj]
    rfl
  constructor
  · rintro ⟨hCanonical, hName⟩
    have hText := hEmpty.mp hName
    have hList := congrArg String.toList hCanonical
    rw [canonicalChain, String.toList_ofList] at hList
    have hTrim : trimSpace name.toList = name.toList := by
      have hLength := congrArg List.length hList
      rw [List.length_map] at hLength
      have hSub : (trimSpace name.toList).Sublist name.toList :=
        (List.rdropWhile_prefix ..).sublist.trans (List.dropWhile_suffix _).sublist
      exact hSub.eq_of_length hLength
    refine ⟨hText, (trimSpace_eq_self_iff hText).mp hTrim, fun c hMem => ?_⟩
    rw [hTrim] at hList
    exact List.map_inj_left.mp (hList.trans (List.map_id _).symm) c hMem
  · rintro ⟨hText, hTrim, hLower⟩
    refine ⟨?_, hEmpty.mpr hText⟩
    have hMap : name.toList.map lower.toLower = name.toList.map id := List.map_inj_left.mpr hLower
    rw [canonicalChain, (trimSpace_eq_self_iff hText).mpr hTrim, hMap, List.map_id,
      String.ofList_toList]

/-- Two names with a period between them. -/
def joinNames (first : String) (period : UInt64) (second : String) : String :=
  String.ofList (first.toList ++ '=' :: (uintText period ++ '\n' :: second.toList))

theorem ChainName.join (hLower : lower.KeepsSeparators) {first second : String}
    (hFirst : ChainName lower first) (hSecond : ChainName lower second) (period : UInt64) :
    ChainName lower (joinNames first period second) := by
  obtain ⟨hText, ⟨hHead, -⟩, hFixed⟩ := chainName_iff.mp hFirst
  obtain ⟨hText', ⟨-, hLast⟩, hFixed'⟩ := chainName_iff.mp hSecond
  rw [chainName_iff, joinNames, String.toList_ofList]
  refine ⟨by simp, ⟨?_, ?_⟩, ?_⟩
  · rw [List.head_append_of_ne_nil hText]
    exact hHead
  · have hEnd : (first.toList ++ '=' :: (uintText period ++ '\n' :: second.toList)).getLast? =
        second.toList.getLast? := by
      simp [List.getLast?_append, List.getLast?_cons, List.getLast?_eq_some_getLast hText']
    have hSame := hEnd
    rw [List.getLast?_eq_some_getLast (by simp), List.getLast?_eq_some_getLast hText',
      Option.some.injEq] at hSame
    rw [hSame]
    exact hLast
  · intro c hMem
    simp only [List.mem_append, List.mem_cons] at hMem
    rcases hMem with hMem | rfl | hMem | rfl | hMem
    · exact hFixed c hMem
    · exact hLower.equals
    · exact hLower.digit c (isDigit_of_mem_uintText hMem)
    · exact hLower.newline
    · exact hFixed' c hMem

theorem lt_joinNames (first : String) (period : UInt64) (second : String) :
    first < joinNames first period second := by
  rw [String.lt_iff_toList_lt, joinNames, String.toList_ofList]
  exact lt_append_cons _ _ _

/-! ## Texts of entries -/

theorem entriesText_append (entries entries' : List (String × UInt64)) :
    entriesText (entries ++ entries') = entriesText entries ++ entriesText entries' :=
  List.flatMap_append

theorem entriesText_cons (entry : String × UInt64) (entries : List (String × UInt64)) :
    entriesText (entry :: entries) = entryText entry ++ entriesText entries :=
  List.flatMap_cons

theorem material_eq_iff :
    policy.material = policy'.material ↔
      entriesText policy.sortedEntries = entriesText policy'.sortedEntries := by
  refine ⟨fun h => header_append_inj h, fun h => ?_⟩
  rw [CheckpointPolicy.material, CheckpointPolicy.material, h]

/-- Two lines are the line of the joined names. -/
theorem entriesText_pair (first second : String) (period period' : UInt64) :
    entriesText [(first, period), (second, period')] =
      entriesText [(joinNames first period second, period')] := by
  simp [entriesText, entryText, joinNames]

/-- The lines up to the last name make up one name. -/
theorem joined_name (hLower : lower.KeepsSeparators) {last : String × UInt64} {before : String}
    (hEntries : ∀ entry ∈ entries ++ [last], PolicyEntry lower entry)
    (hSorted : (entries ++ [last]).Pairwise fun entry other => entry.1 < other.1)
    (hBefore : ∀ entry ∈ entries ++ [last], before < entry.1) :
    ∃ name, name.toList = entriesText entries ++ last.1.toList ∧ ChainName lower name ∧
      before < name := by
  induction entries generalizing before with
  | nil =>
      exact ⟨last.1, by simp [entriesText], (hEntries last (by simp)).name, hBefore last (by simp)⟩
  | cons entry entries ih =>
      rw [List.cons_append, List.pairwise_cons] at hSorted
      obtain ⟨name, hText, hName, -⟩ := ih
        (fun other hMem => hEntries other (List.mem_cons_of_mem entry hMem)) hSorted.2 hSorted.1
      refine ⟨joinNames entry.1 entry.2 name, ?_,
        (hEntries entry (by simp)).name.join hLower hName entry.2,
        (hBefore entry (by simp)).trans (lt_joinNames ..)⟩
      rw [joinNames, String.toList_ofList, hText, entriesText_cons, entryText]
      simp

/-- A name that is made up of two names with a period between them. -/
def Splits (lower : Lowercase) (name : String) : Prop :=
  ∃ first period second, ChainName lower first ∧ ChainName lower second ∧ period ≠ 0 ∧
    first < second ∧ name = joinNames first period second

/-- The entries of a policy with a given last line. -/
theorem entriesText_eq_last {last : String × UInt64}
    (h : entriesText (entries ++ [last]) = entriesText [entry]) :
    entriesText entries ++ last.1.toList = entry.1.toList ∧ last.2 = entry.2 := by
  have hNot : ∀ value : UInt64, '=' ∉ uintText value ++ ['\n'] := by
    intro value hMem
    rcases List.mem_append.mp hMem with hMem | hMem
    · exact not_mem_uintText equals_not_digit hMem
    · exact absurd (List.mem_singleton.mp hMem) (by decide)
  have hText : (entriesText entries ++ last.1.toList) ++ '=' :: (uintText last.2 ++ ['\n']) =
      entry.1.toList ++ '=' :: (uintText entry.2 ++ ['\n']) := by
    simpa [entriesText, entryText] using h
  obtain ⟨hName, hPeriod⟩ := append_sep_inj (hNot _) (hNot _) hText
  exact ⟨hName, uintText_injective (List.append_cancel_right hPeriod)⟩

/-- Names without a line break are read off the text. -/
theorem entriesText_injective {entries' : List (String × UInt64)}
    (hLines : ∀ entry ∈ entries, '\n' ∉ entry.1.toList)
    (hLines' : ∀ entry ∈ entries', '\n' ∉ entry.1.toList)
    (h : entriesText entries = entriesText entries') : entries = entries' := by
  have hNonempty : ∀ (entry : String × UInt64) entries, entriesText (entry :: entries) ≠ [] := by
    intro entry entries
    simp [entriesText, entryText]
  have hLine : ∀ entry : String × UInt64, '\n' ∉ entry.1.toList →
      '\n' ∉ entry.1.toList ++ '=' :: uintText entry.2 := by
    intro entry hName hMem
    simp only [List.mem_append, List.mem_cons] at hMem
    rcases hMem with hMem | hMem | hMem
    · exact hName hMem
    · exact absurd hMem (by decide)
    · exact not_mem_uintText newline_not_digit hMem
  have hSplit : ∀ (entry : String × UInt64) entries, entriesText (entry :: entries) =
      (entry.1.toList ++ '=' :: uintText entry.2) ++ '\n' :: entriesText entries := by
    intro entry entries
    simp [entriesText, entryText]
  induction entries generalizing entries' with
  | nil =>
      cases entries' with
      | nil => rfl
      | cons entry' entries' => exact (hNonempty entry' entries' h.symm).elim
  | cons entry entries ih =>
      cases entries' with
      | nil => exact (hNonempty entry entries h).elim
      | cons entry' entries' =>
          rw [hSplit, hSplit] at h
          obtain ⟨hHead, hTail⟩ := sep_append_inj (hLine entry (hLines entry (by simp)))
            (hLine entry' (hLines' entry' (by simp))) h
          obtain ⟨hName, hPeriod⟩ := append_sep_inj (not_mem_uintText equals_not_digit)
            (not_mem_uintText equals_not_digit) hHead
          rw [ih (fun other hMem => hLines other (List.mem_cons_of_mem entry hMem))
            (fun other hMem => hLines' other (List.mem_cons_of_mem entry' hMem)) hTail,
            Prod.ext (String.toList_inj.mp hName) (uintText_injective hPeriod)]

end Policies

/-! ## Policies that their text determines -/

section Determined

variable {lower : Lowercase} {policy policy' : CheckpointPolicy}

theorem policyEntry_of_mem (h : policy.Accepted lower) (hMem : entry ∈ policy.sortedEntries) :
    PolicyEntry lower entry :=
  accepted_iff.mp h entry (sortedEntries_perm.mem_iff.mp hMem)

theorem accepted_ofEntries (hSorted : entries.Pairwise fun entry other => entry.1 < other.1)
    (hEntries : ∀ entry ∈ entries, PolicyEntry lower entry) :
    (CheckpointPolicy.ofEntries entries hSorted).Accepted lower :=
  accepted_iff.mpr hEntries

/-- At most one chain, whose name is not made up of two. -/
def CheckpointPolicy.Plain (lower : Lowercase) (policy : CheckpointPolicy) : Prop :=
  policy.sortedEntries = [] ∨
    ∃ name period, policy.sortedEntries = [(name, period)] ∧ ¬ Splits lower name

theorem CheckpointPolicy.Plain.same (hLower : lower.KeepsSeparators) (hPlain : policy.Plain lower)
    (h' : policy'.Accepted lower) (hText : policy.material = policy'.material) :
    policy.Same policy' := by
  rw [material_eq_iff] at hText
  refine same_of_sortedEntries ?_
  have hEntries : ∀ entry ∈ policy'.sortedEntries, PolicyEntry lower entry :=
    fun entry hMem => policyEntry_of_mem h' hMem
  have hSorted := @sortedEntries_sorted policy'
  generalize policy'.sortedEntries = entries' at *
  rcases hPlain with hEmpty | ⟨name, period, hOne, hName⟩
  · rw [hEmpty] at hText ⊢
    cases entries' with
    | nil => rfl
    | cons entry entries' => simp [entriesText, entryText] at hText
  · rw [hOne] at hText ⊢
    rcases List.eq_nil_or_concat entries' with rfl | ⟨front, last, rfl⟩
    · simp [entriesText, entryText] at hText
    · rw [List.concat_eq_append] at *
      obtain ⟨hNames, hPeriod⟩ := entriesText_eq_last hText.symm
      cases front with
      | nil =>
          have hSame : last.1 = name := String.toList_inj.mp (by simpa [entriesText] using hNames)
          rw [List.nil_append, show last = (name, period) from Prod.ext hSame hPeriod]
      | cons first rest =>
          rw [List.cons_append, List.pairwise_cons] at hSorted
          obtain ⟨second, hSecond, hChain, hLess⟩ := joined_name hLower
            (fun entry hMem => hEntries entry (List.mem_cons_of_mem first hMem)) hSorted.2 hSorted.1
          have hFirst := hEntries first (by simp)
          refine (hName ⟨first.1, first.2, second, hFirst.name, hChain, hFirst.period, hLess, ?_⟩).elim
          rw [← String.toList_inj, ← hNames, joinNames, String.toList_ofList, hSecond, entriesText_cons,
            entryText]
          simp

/-- Any other policy shares its text with a policy that has other chains. -/
theorem exists_other_policy (hLower : lower.KeepsSeparators) (h : policy.Accepted lower)
    (hPlain : ¬ policy.Plain lower) :
    ∃ policy' : CheckpointPolicy, policy'.Accepted lower ∧ policy.material = policy'.material ∧
      ¬ policy.Same policy' := by
  have hEntries : ∀ entry ∈ policy.sortedEntries, PolicyEntry lower entry :=
    fun entry hMem => policyEntry_of_mem h hMem
  have hSorted := @sortedEntries_sorted policy
  -- Another list of entries with the same text is enough, since sorted lists are read back.
  have hOther : ∀ (entries : List (String × UInt64))
      (hSorted' : entries.Pairwise fun entry other => entry.1 < other.1),
      (∀ entry ∈ entries, PolicyEntry lower entry) → policy.sortedEntries ≠ entries →
      entriesText policy.sortedEntries = entriesText entries →
      ∃ policy' : CheckpointPolicy, policy'.Accepted lower ∧ policy.material = policy'.material ∧
        ¬ policy.Same policy' := by
    intro entries hSorted' hAccepted hNe hText
    refine ⟨.ofEntries entries hSorted', accepted_ofEntries hSorted' hAccepted, ?_, fun hSame => ?_⟩
    · rw [material_eq_iff, sortedEntries_ofEntries, hText]
    · exact hNe ((sortedEntries_of_same hSame).trans (sortedEntries_ofEntries hSorted'))
  rcases List.eq_nil_or_concat policy.sortedEntries with hEmpty | ⟨front, last, hLast⟩
  · exact (hPlain (.inl hEmpty)).elim
  · rw [List.concat_eq_append] at hLast
    rw [hLast] at hEntries hSorted hOther
    rcases List.eq_nil_or_concat front with rfl | ⟨front, previous, rfl⟩
    · -- One chain: its name is taken apart.
      have hSplits : Splits lower last.1 := by
        by_contra hNot
        exact hPlain (.inr ⟨last.1, last.2, by simpa using hLast, hNot⟩)
      obtain ⟨first, period, second, hFirst, hSecond, hPeriod, hLess, hName⟩ := hSplits
      refine hOther [(first, period), (second, last.2)] (by simpa using hLess) ?_ (by simp) ?_
      · intro entry hMem
        simp only [List.mem_cons, List.not_mem_nil, or_false] at hMem
        rcases hMem with rfl | rfl
        · exact ⟨hFirst, hPeriod⟩
        · exact ⟨hSecond, (hEntries last (by simp)).period⟩
      · rw [entriesText_pair, ← hName, List.nil_append]
    · -- The last two chains are joined.
      rw [List.concat_eq_append] at *
      have hPrevious := hEntries previous (by simp)
      have hLastEntry := hEntries last (by simp)
      refine hOther (front ++ [(joinNames previous.1 previous.2 last.1, last.2)]) ?_ ?_ ?_ ?_
      · rw [List.append_assoc, List.pairwise_append] at hSorted
        rw [List.pairwise_append]
        refine ⟨hSorted.1, by simp, fun entry hMem other hOther => ?_⟩
        obtain rfl := List.mem_singleton.mp hOther
        exact (hSorted.2.2 entry hMem previous (by simp)).trans (lt_joinNames ..)
      · intro entry hMem
        rcases List.mem_append.mp hMem with hMem | hMem
        · exact hEntries entry (by simp [hMem])
        · obtain rfl := List.mem_singleton.mp hMem
          exact ⟨hPrevious.name.join hLower hLastEntry.name previous.2, hLastEntry.period⟩
      · intro hSame
        have hLength := congrArg List.length hSame
        simp at hLength
      · rw [List.append_assoc, entriesText_append front, entriesText_append front]
        exact congrArg (entriesText front ++ ·) (entriesText_pair previous.1 last.1 previous.2 last.2)

end Determined

/-! ## Runs -/

/-- Inputs that the constructors accept. -/
structure RunInputs.Accepted (lower : Lowercase) (inputs : RunInputs) : Prop where
  profile : inputs.profile.Valid
  policy : inputs.policy.Accepted lower
  allowlist : ∀ name ∈ inputs.selection.allowlist, ChainName lower name

namespace Toy

/-- The inputs of a run with the given policy. -/
def inputs (policy : CheckpointPolicy) : RunInputs where
  setting := .b3
  traceBytes := [1, 2, 3]
  preparedRows := 2
  profile := ⟨"toy", 10, 1, 2⟩
  policy := policy
  selection := ⟨[], 0, .reject⟩
  recordEvery := 0
  logEvery := 0

/-- Checkpoints for two chains. -/
def twoChains : CheckpointPolicy := ⟨⟨[("a", 1), ("b", 2)], by decide⟩⟩

/-- Checkpoints for one chain. -/
def plainChain : CheckpointPolicy := ⟨⟨[("a", 1)], by decide⟩⟩

/-- Checkpoints for one chain, whose name contains the line of another. -/
def oneChain : CheckpointPolicy := ⟨⟨[("a=1\nb", 2)], by decide⟩⟩

end Toy

/-- There is a faithful way to write the identity, since all values are finite texts and numbers. -/
theorem exists_faithful_codec : ∃ codec : IdentityCodec, codec.Faithful := by
  have : Countable UInt64 := Function.Injective.countable (fun _ _ h => UInt64.toNat_inj.mp h)
  have : Countable UInt8 := Function.Injective.countable (fun _ _ h => UInt8.toNat_inj.mp h)
  have : Countable Char := Function.Injective.countable (fun _ _ h => Char.toNat_inj.mp h)
  have : Countable String :=
    Function.Injective.countable (fun text text' (h : text.toList = text'.toList) =>
      String.toList_inj.mp h)
  have hSetting : Countable Setting := Function.Injective.countable
    (fun (setting setting' : Setting) (h : (setting.usesTrustMap, setting.usesCheckpoint) =
      (setting'.usesTrustMap, setting'.usesCheckpoint)) => by
        cases setting <;> cases setting' <;> first | rfl | cases h)
  have hRows : Countable InvalidRowPolicy := Function.Injective.countable
    (fun (policy policy' : InvalidRowPolicy) (h : decide (policy = .drop) = decide (policy' = .drop)) => by
        cases policy <;> cases policy' <;> first | rfl | cases h)
  have hSelection : Countable Selection := Function.Injective.countable
    (fun (s s' : Selection) (h : (s.allowlist, s.maxEvents, s.invalidRowPolicy) =
      (s'.allowlist, s'.maxEvents, s'.invalidRowPolicy)) => by
        cases s
        cases s'
        simp_all)
  have hIdentity : Countable ReplayRunIdentity := Function.Injective.countable
    (fun (s s' : ReplayRunIdentity)
      (h : ((s.setting, s.traceDigest, s.preparedRows, s.implementationVersion, s.schemaVersion,
          s.gitCommit), s.costProfileFingerprint, s.checkpointPolicyFingerprint,
          s.selectionFingerprint, s.recordEvery, s.logEvery) =
        ((s'.setting, s'.traceDigest, s'.preparedRows, s'.implementationVersion, s'.schemaVersion,
          s'.gitCommit), s'.costProfileFingerprint, s'.checkpointPolicyFingerprint,
          s'.selectionFingerprint, s'.recordEvery, s'.logEvery)) => by
        cases s
        cases s'
        simp_all)
  obtain ⟨digest, hDigest⟩ := exists_injective_nat (List UInt8)
  obtain ⟨selection, hSelection⟩ := exists_injective_nat Selection
  obtain ⟨identity, hIdentity⟩ := exists_injective_nat ReplayRunIdentity
  refine ⟨⟨fun bytes => String.ofList (List.replicate (digest bytes) '0'),
    fun value => List.replicate (selection value) 0,
    fun value => List.replicate (identity value) 0⟩, ?_, ?_, ?_⟩
  · intro bytes bytes' h
    have hLength := congrArg (fun text => text.toList.length) h
    simp only [String.toList_ofList, List.length_replicate] at hLength
    exact hDigest hLength
  · intro value value' h
    exact hSelection (by simpa using congrArg List.length h)
  · intro value value' h
    exact hIdentity (by simpa using congrArg List.length h)

/-- Two runs with different checkpoint policies and the same ID, whatever the hash. -/
theorem runID_shared :
    (newCheckpointPolicy .plain [("a", 1), ("b", 2)]).toOption.map (·.periods.rows) =
        some Toy.twoChains.periods.rows ∧
      (newCheckpointPolicy .plain [("a=1\nb", 2)]).toOption.map (·.periods.rows) =
        some Toy.oneChain.periods.rows ∧
      (∀ codec build, runID codec build (Toy.inputs Toy.twoChains) =
        runID codec build (Toy.inputs Toy.oneChain)) ∧
      Toy.twoChains.periods.find? "a" ≠ Toy.oneChain.periods.find? "a" := by
  have hMaterial : Toy.twoChains.material = Toy.oneChain.material := by decide +kernel
  refine ⟨by decide +kernel, by decide +kernel, fun codec build => ?_, by decide +kernel⟩
  rw [runID, runID, newReplayRunIdentity, newReplayRunIdentity]
  simp only [Toy.inputs, hMaterial]

/-- The ID of a run binds its inputs exactly if its policy has at most one chain and the name of this
chain is not made up of two; and it binds the inputs of all runs whose chains have no line break in
their names. -/
theorem run_identity_binds_iff {lower : Lowercase} (hLower : lower.KeepsSeparators)
    {codec : IdentityCodec} (hCodec : codec.Faithful) (build : Build) :
    (∀ inputs : RunInputs, inputs.Accepted lower →
      ((∀ inputs' : RunInputs, inputs'.Accepted lower →
          runID codec build inputs = runID codec build inputs' → inputs.Same inputs') ↔
        inputs.policy.Plain lower)) ∧
      ∀ inputs inputs' : RunInputs,
        (∀ entry ∈ inputs.policy.periods.rows, '\n' ∉ entry.1.toList) →
        (∀ entry ∈ inputs'.policy.periods.rows, '\n' ∉ entry.1.toList) →
        runID codec build inputs = runID codec build inputs' → inputs.Same inputs' := by
  have hSame : ∀ inputs inputs' : RunInputs,
      (inputs.policy.material = inputs'.policy.material → inputs.policy.Same inputs'.policy) →
      runID codec build inputs = runID codec build inputs' → inputs.Same inputs' := by
    intro inputs inputs' hPolicy hID
    obtain ⟨hSetting, hTrace, hRows, hProfile, hText, hSelection, hRecord, hLog⟩ :=
      (runID_eq_iff hCodec).mp hID
    exact ⟨hSetting, hTrace, hRows, hProfile, hPolicy hText, hSelection, hRecord, hLog⟩
  refine ⟨fun inputs hInputs => ⟨fun hBinds => ?_, fun hPlain inputs' hInputs' => ?_⟩,
    fun inputs inputs' hLines hLines' => ?_⟩
  · by_contra hPlain
    obtain ⟨policy, hPolicy, hText, hDiffers⟩ := exists_other_policy hLower hInputs.policy hPlain
    refine hDiffers (hBinds { inputs with policy := policy }
      ⟨hInputs.profile, hPolicy, hInputs.allowlist⟩ ?_).policy
    exact (runID_eq_iff hCodec).mpr ⟨rfl, rfl, rfl, rfl, hText, rfl, rfl, rfl⟩
  · exact hSame inputs inputs' (hPlain.same hLower hInputs'.policy)
  · refine hSame inputs inputs' fun hText => same_of_sortedEntries ?_
    exact entriesText_injective
      (fun entry hMem => hLines entry (sortedEntries_perm.mem_iff.mp hMem))
      (fun entry hMem => hLines' entry (sortedEntries_perm.mem_iff.mp hMem)) (material_eq_iff.mp hText)

theorem run_identity_binds_iff_toy :
    ∃ codec : IdentityCodec, codec.Faithful ∧
      ∀ build inputs', RunInputs.Accepted .plain inputs' →
        runID codec build (Toy.inputs Toy.plainChain) = runID codec build inputs' →
        (Toy.inputs Toy.plainChain).Same inputs' := by
  obtain ⟨codec, hCodec⟩ := exists_faithful_codec
  have hLower : Lowercase.plain.KeepsSeparators := ⟨rfl, rfl, fun _ _ => rfl⟩
  have hInputs : (Toy.inputs Toy.plainChain).Accepted .plain :=
    ⟨CostProfile.validate_eq_ok.mp (by decide +kernel), ⟨[("a", 1)], rfl⟩, by simp [Toy.inputs]⟩
  have hPlain : ¬ Splits .plain "a" := by
    rintro ⟨first, period, second, -, -, -, -, hName⟩
    have hLine : '\n' ∈ (joinNames first period second).toList := by simp [joinNames]
    rw [← hName] at hLine
    exact absurd hLine (by decide)
  exact ⟨codec, hCodec, fun build =>
    ((run_identity_binds_iff hLower hCodec build).1 _ hInputs).mpr (.inr ⟨"a", 1, rfl, hPlain⟩)⟩

end TrustMap.Mapnode.Replay
