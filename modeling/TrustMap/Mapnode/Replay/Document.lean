import Mathlib.Tactic.IntervalCases
import TrustMap.Mapnode.Replay.Export

/-!
The audit texts of paths with plain chain names as documents of rows. A document is known by its
pieces between quotation marks, and it decodes exactly if the weights in it are numbers.
-/

namespace TrustMap.Mapnode.Replay

open Replacement

/-! ## Digits and names -/

theorem isDigit_of_mem_uintText {value : UInt64} {c : Char} (h : c ∈ uintText value) : c.isDigit :=
  Nat.isDigit_of_mem_toDigits (by decide) (by decide) h

theorem not_mem_uintText {value : UInt64} {c : Char} (h : c.isDigit = false) :
    c ∉ uintText value := by
  intro hMem
  rw [isDigit_of_mem_uintText hMem] at h
  cases h

theorem uintText_ne_nil (value : UInt64) : uintText value ≠ [] :=
  Nat.toDigits_ne_nil

theorem marshalChar_digit {c : Char} (h : c.isDigit) : marshalChar c = [c] := by
  have hNe : ∀ d : Char, d.isDigit = false → c ≠ d := by
    rintro d hd rfl
    rw [hd] at h
    cases h
  have hRange : 48 ≤ c.toNat ∧ c.toNat ≤ 57 := by
    simpa [Char.isDigit, UInt32.le_iff_toNat_le] using h
  unfold marshalChar
  rw [if_neg (by simp [hNe]), if_neg (hNe _ rfl), if_neg (hNe _ rfl), if_neg (hNe _ rfl),
    if_neg (hNe _ rfl), if_neg (hNe _ rfl), if_neg]
  rintro (h | h | h | h | h | h)
  · omega
  · exact hNe _ rfl h
  · exact hNe _ rfl h
  · exact hNe _ rfl h
  · omega
  · omega

/-- The text of a block with a gap after the colon. -/
def label (gap : List Char) (key : ReplayBlockKey) : List Char :=
  key.chain.toList ++ ':' :: (gap ++ uintText key.height)

namespace PlainName

variable {chain : String}

theorem not_mem (h : PlainName chain) {c : Char} (hc : marshalChar c ≠ [c] ∨ c = ':' ∨ c = ',') :
    c ∉ chain.toList := by
  intro hMem
  obtain ⟨hChar, hColon, hComma⟩ := h.2 c hMem
  obtain hc | rfl | rfl := hc
  · exact hc hChar
  · exact hColon rfl
  · exact hComma rfl

theorem toList_ne_nil (h : PlainName chain) : chain.toList ≠ [] := by
  intro hNil
  exact h.1 (String.toList_eq_nil_iff.mp hNil)

end PlainName

/-- A text written as it is, character by character. -/
theorem flatMap_eq_self {f : Char → List Char} {text : List Char} (h : ∀ c ∈ text, f c = [c]) :
    text.flatMap f = text := by
  rw [List.flatMap_congr h]
  exact List.flatMap_singleton' text

theorem marshal_text {key : ReplayBlockKey} (h : PlainName key.chain) :
    key.text.flatMap marshalChar = label [] key := by
  refine flatMap_eq_self fun c hMem => ?_
  obtain hMem | rfl | hMem : c ∈ key.chain.toList ∨ c = ':' ∨ c ∈ uintText key.height := by
    simpa [ReplayBlockKey.text] using hMem
  · exact (h.2 c hMem).1
  · rfl
  · exact marshalChar_digit (isDigit_of_mem_uintText hMem)

/-! ## Rows and their pieces -/

/-- One row of the text. -/
structure Row where
  index : UInt64
  fromKey : ReplayBlockKey
  toKey : ReplayBlockKey
  kind : List Char
  delta : UInt64
  weight : List Char

/-- The row of a segment. -/
def segmentRow (index : ℕ) (edge : ReplayPathSegment) : Row where
  index := UInt64.ofNat index
  fromKey := edge.fromKey
  toKey := edge.toKey
  kind := (segmentItem index edge).kind
  delta := (segmentItem index edge).delta
  weight := uintText edge.weight

/-- The pieces of a row between the quotation marks: `gap` stands after the colons and commas,
`inner` after the colons in the names of blocks, and `close` at the end. -/
def Row.pieces (gap inner close : List Char) (row : Row) : List (List Char) :=
  [['i'], ':' :: (gap ++ uintText row.index ++ ',' :: gap), ['f', 'r', 'o', 'm'], ':' :: gap,
    label inner row.fromKey, ',' :: gap, ['t', 'o'], ':' :: gap, label inner row.toKey, ',' :: gap,
    ['k', 'i', 'n', 'd'], ':' :: gap, row.kind, ',' :: gap, ['d', 'e', 'l', 't', 'a', '_', 'h'],
    ':' :: (gap ++ uintText row.delta ++ ',' :: gap), ['w'], ':' :: (gap ++ row.weight ++ close)]

/-- The pieces of rows. -/
def documentPieces (gap inner : List Char) : List Row → List (List Char)
  | [] => []
  | [row] => row.pieces gap inner ['\x7d', ']']
  | row :: next :: rows =>
      row.pieces gap inner ('\x7d' :: ',' :: (gap ++ ['\x7b'])) ++
        documentPieces gap inner (next :: rows)

/-- The text of rows. -/
def document (gap inner : List Char) : List Row → List Char
  | [] => ['[', ']']
  | row :: rows => ['[', '\x7b'] ++ after '"' (documentPieces gap inner (row :: rows))

/-- What every row of a path with plain names keeps through the replacements. -/
structure Row.Sound (row : Row) : Prop where
  fromPlain : PlainName row.fromKey.chain
  toPlain : PlainName row.toKey.chain
  kind : row.kind = "intra".toList ∨ row.kind = "xchain".toList
  weight : Json.Numeral row.weight

theorem segmentItem_kind (index : ℕ) (edge : ReplayPathSegment) :
    (segmentItem index edge).kind = "intra".toList ∨
      (segmentItem index edge).kind = "xchain".toList := by
  by_cases h : edge.kind = .verifiedDependency <;> simp [segmentItem, h]

theorem segmentItem_eq (index : ℕ) (edge : ReplayPathSegment) :
    segmentItem index edge = {
      index := UInt64.ofNat index
      fromText := edge.fromKey.text
      toText := edge.toKey.text
      kind := (segmentItem index edge).kind
      delta := (segmentItem index edge).delta
      weight := edge.weight } := by
  by_cases h : edge.kind = .verifiedDependency <;> simp [segmentItem, h]

theorem numeral_uintText (value : UInt64) : Json.Numeral (uintText value) where
  digit := by
    obtain ⟨c, rest, hText⟩ := List.exists_cons_of_ne_nil (uintText_ne_nil value)
    have hMem : c ∈ uintText value := by
      rw [hText]
      exact List.mem_cons_self
    exact ⟨c, by rw [hText]; rfl, isDigit_of_mem_uintText hMem⟩
  chars := by
    rw [List.all_eq_true]
    intro c hMem
    simp [Json.isNumberChar, isDigit_of_mem_uintText hMem]

theorem segmentRow_sound {index : ℕ} {edge : ReplayPathSegment}
    (hFrom : PlainName edge.fromKey.chain) (hTo : PlainName edge.toKey.chain) :
    (segmentRow index edge).Sound where
  fromPlain := hFrom
  toPlain := hTo
  kind := segmentItem_kind index edge
  weight := numeral_uintText edge.weight

theorem documentPieces_singleton (gap inner : List Char) (row : Row) :
    documentPieces gap inner [row] = row.pieces gap inner ['\x7d', ']'] := rfl

theorem documentPieces_cons (gap inner : List Char) (row next : Row) (rows : List Row) :
    documentPieces gap inner (row :: next :: rows) =
      row.pieces gap inner ('\x7d' :: ',' :: (gap ++ ['\x7b'])) ++
        documentPieces gap inner (next :: rows) := rfl

/-- What happens to the pieces of each row happens to the pieces of the document. -/
theorem map_documentPieces {f : List Char → List Char} {gap inner gap' inner' : List Char}
    {rows : List Row}
    (hLast : ∀ row ∈ rows, (row.pieces gap inner ['\x7d', ']']).map f =
      row.pieces gap' inner' ['\x7d', ']'])
    (hMore : ∀ row ∈ rows, (row.pieces gap inner ('\x7d' :: ',' :: (gap ++ ['\x7b']))).map f =
      row.pieces gap' inner' ('\x7d' :: ',' :: (gap' ++ ['\x7b']))) :
    (documentPieces gap inner rows).map f = documentPieces gap' inner' rows := by
  induction rows with
  | nil => rfl
  | cons row rows ih =>
      cases rows with
      | nil =>
          rw [documentPieces_singleton, documentPieces_singleton]
          exact hLast row List.mem_cons_self
      | cons next rows =>
          rw [documentPieces_cons, documentPieces_cons, List.map_append,
            hMore row List.mem_cons_self,
            ih (fun other hMem => hLast other (List.mem_cons_of_mem row hMem))
              (fun other hMem => hMore other (List.mem_cons_of_mem row hMem))]

/-! ## Reading the texts back -/

/-- The record of a row. -/
def Row.record (row : Row) : Json.Record :=
  [("i".toList, .number (uintText row.index)), ("from".toList, .string (label [] row.fromKey)),
    ("to".toList, .string (label [] row.toKey)), ("kind".toList, .string row.kind),
    ("delta_h".toList, .number (uintText row.delta)), ("w".toList, .number row.weight)]

/-- The text of a row before its weight. -/
def Row.head (gap : List Char) (row : Row) : List Char :=
  Json.numberField gap "i".toList (uintText row.index) ++
    Json.stringField gap "from".toList (label [] row.fromKey) ++
    Json.stringField gap "to".toList (label [] row.toKey) ++
    Json.stringField gap "kind".toList row.kind ++
    Json.numberField gap "delta_h".toList (uintText row.delta) ++ Json.keyText gap "w".toList

/-- The tokens of a row before its weight. -/
def Row.headTokens (row : Row) : List Json.Token :=
  [.string "i".toList, .colon, .number (uintText row.index), .comma,
    .string "from".toList, .colon, .string (label [] row.fromKey), .comma,
    .string "to".toList, .colon, .string (label [] row.toKey), .comma,
    .string "kind".toList, .colon, .string row.kind, .comma,
    .string "delta_h".toList, .colon, .number (uintText row.delta), .comma,
    .string "w".toList, .colon]

theorem after_pieces (gap close : List Char) (row : Row) :
    after '"' (row.pieces gap [] close) = row.head gap ++ (row.weight ++ close) := by
  unfold Row.head
  simp only [Json.numberField, Json.stringField, Json.keyText, String.reduceToList, Row.pieces,
    after_cons, after_nil, List.append_assoc, List.cons_append, List.nil_append, List.append_nil]

/-- A positive number has no leading zero. -/
theorem head_toDigits_ne_zero {n : ℕ} (h : 0 < n) : (Nat.toDigits 10 n).head? ≠ some '0' := by
  induction n using Nat.strongRecOn with
  | ind n ih =>
      by_cases hSmall : n < 10
      · rw [Nat.toDigits_of_lt_base hSmall]
        interval_cases n <;> decide
      · rw [Nat.toDigits_of_base_le (by decide) (by omega),
          List.head?_append_of_ne_nil _ Nat.toDigits_ne_nil]
        exact ih (n / 10) (by omega) (by omega)

theorem validNumber_uintText_append (value : UInt64) {rest : List Char}
    (hRest : ∀ c ∈ rest.head?, c.isDigit = false) (hFraction : Json.validFraction rest) :
    Json.validNumber (uintText value ++ rest) := by
  have hDigits : ∀ c ∈ uintText value, c.isDigit := fun c hMem => isDigit_of_mem_uintText hMem
  have hTake : (uintText value ++ rest).takeWhile Char.isDigit = uintText value := by
    rw [List.takeWhile_append_of_pos hDigits]
    cases rest with
    | nil => simp
    | cons c rest => simp [hRest c rfl]
  have hDrop : (uintText value ++ rest).dropWhile Char.isDigit = rest := by
    rw [List.dropWhile_append_of_pos hDigits]
    cases rest with
    | nil => rfl
    | cons c rest => simp [hRest c rfl]
  have hZero : uintText value = ['0'] ∨ uintText value ≠ [] ∧ (uintText value).head? ≠ some '0' := by
    by_cases hValue : value.toNat = 0
    · left
      rw [uintText, hValue]
      rfl
    · exact .inr ⟨uintText_ne_nil value, head_toDigits_ne_zero (Nat.pos_of_ne_zero hValue)⟩
  have hUnsigned : Json.validUnsigned (uintText value ++ rest) := by
    rw [Json.validUnsigned, hTake, hDrop]
    simpa [hFraction] using hZero
  obtain ⟨c, digits, hText⟩ := List.exists_cons_of_ne_nil (uintText_ne_nil value)
  have hSign : c ≠ '-' := by
    rintro rfl
    exact not_mem_uintText rfl (hText ▸ List.mem_cons_self)
  rw [hText] at hUnsigned ⊢
  unfold Json.validNumber
  split
  next literal hLiteral => exact absurd (List.cons.inj hLiteral).1 hSign
  next => exact hUnsigned

theorem validNumber_uintText (value : UInt64) : Json.validNumber (uintText value) := by
  have hValid : Json.validNumber (uintText value ++ []) :=
    validNumber_uintText_append value (by simp) rfl
  rwa [List.append_nil] at hValid

theorem validNumber_costText (value : UInt64) : Json.validNumber (costText value) :=
  validNumber_uintText_append value (by simp) (by decide)

theorem isPlain_of_marshalChar {c : Char} (h : marshalChar c = [c]) : Json.isPlain c := by
  have hQuote : c ≠ '"' := by
    rintro rfl
    revert h
    decide
  have hEscape : c ≠ '\\' := by
    rintro rfl
    revert h
    decide
  have hControl : 0x20 ≤ c.toNat := by
    by_contra hLow
    have hShort : c.toNat < 0x20 := Nat.lt_of_not_le hLow
    unfold marshalChar at h
    simp only [hShort, true_or, if_true] at h
    split_ifs at h <;> simp at h
  simp [Json.isPlain, hQuote, hEscape, hControl]

theorem isPlain_label {key : ReplayBlockKey} (h : PlainName key.chain) :
    (label [] key).all Json.isPlain := by
  rw [List.all_eq_true]
  intro c hMem
  obtain hMem | rfl | hMem : c ∈ key.chain.toList ∨ c = ':' ∨ c ∈ uintText key.height := by
    simpa [label] using hMem
  · exact isPlain_of_marshalChar (h.2 c hMem).1
  · rfl
  · exact isPlain_of_marshalChar (marshalChar_digit (isDigit_of_mem_uintText hMem))

theorem reads_head {row : Row} (h : row.Sound) {gap : List Char} (hGap : gap.all Json.isSpace) :
    Json.Reads (row.head gap) row.headTokens := by
  have hKind : row.kind.all Json.isPlain := by
    obtain hKind | hKind := h.kind <;> rw [hKind] <;> rfl
  have hNumber : ∀ {name : List Char} (value : UInt64), name.all Json.isPlain →
      Json.Reads (Json.numberField gap name (uintText value))
        [.string name, .colon, .number (uintText value), .comma] := fun value hName =>
    .numberField hGap hName (numeral_uintText value) (validNumber_uintText value)
  have hString : ∀ {name text : List Char}, name.all Json.isPlain → text.all Json.isPlain →
      Json.Reads (Json.stringField gap name text) [.string name, .colon, .string text, .comma] :=
    Json.Reads.stringField hGap
  exact (((((hNumber row.index rfl).append (hString rfl (isPlain_label h.fromPlain))).append
    (hString rfl (isPlain_label h.toPlain))).append (hString rfl hKind)).append
    (hNumber row.delta rfl)).append (.keyText hGap rfl)

/-- A row is read if and only if its weight is a number. -/
theorem run_row {row : Row} (h : row.Sound) {gap : List Char} (hGap : gap.all Json.isSpace)
    (close text : List Char) :
    Json.run .start ('\x7b' :: (after '"' (row.pieces gap [] ('\x7d' :: close)) ++ text)) =
      if Json.validNumber row.weight then
        Json.prepend (.openBrace :: (Json.fieldTokens row.record ++ [.closeBrace]))
          (Json.run .start (close ++ text))
      else none := by
  have hOpen : Json.Reads ['\x7b'] [.openBrace] := rfl
  have hText : '\x7b' :: (after '"' (row.pieces gap [] ('\x7d' :: close)) ++ text) =
      (['\x7b'] ++ row.head gap) ++ (row.weight ++ '\x7d' :: (close ++ text)) := by
    rw [after_pieces]
    simp
  have hTokens : Json.Token.openBrace :: (Json.fieldTokens row.record ++ [.closeBrace]) =
      ([.openBrace] ++ row.headTokens) ++ [.number row.weight, .closeBrace] := rfl
  rw [hText, (hOpen.append (reads_head h hGap)).run_append, h.weight.run_append rfl rfl]
  split
  · rw [Json.prepend_prepend, hTokens]
  · rfl

theorem run_rows {gap : List Char} (hGap : gap.all Json.isSpace) {rows : List Row}
    (h : ∀ row ∈ rows, row.Sound) (hNonempty : rows ≠ []) :
    Json.run .start ('\x7b' :: after '"' (documentPieces gap [] rows)) =
      if ∀ row ∈ rows, Json.validNumber row.weight then
        some (Json.recordTokens (rows.map Row.record) ++ [.closeBracket], .start)
      else none := by
  induction rows with
  | nil => exact absurd rfl hNonempty
  | cons row rows ih =>
      have hRow := h row List.mem_cons_self
      cases rows with
      | nil =>
          have hLast := run_row hRow hGap [']'] []
          rw [List.append_nil] at hLast
          rw [documentPieces_singleton, hLast]
          simp only [List.mem_singleton, forall_eq]
          split
          · have hClose : Json.run .start [']'] = some ([.closeBracket], .start) := rfl
            rw [List.append_nil, hClose]
            simp [Json.recordTokens]
          · rfl
      | cons next rows =>
          have hRest := ih (fun other hMem => h other (List.mem_cons_of_mem row hMem)) (by simp)
          have hGapComma : Json.Reads ([','] ++ gap) ([.comma] ++ []) :=
            Json.Reads.append rfl (.spaces hGap)
          have hText : ',' :: (gap ++ ['\x7b']) ++ after '"' (documentPieces gap [] (next :: rows)) =
              ([','] ++ gap) ++ '\x7b' :: after '"' (documentPieces gap [] (next :: rows)) := by
            simp
          have hAll : (∀ other ∈ row :: next :: rows, Json.validNumber other.weight) ↔
              Json.validNumber row.weight ∧ ∀ other ∈ next :: rows, Json.validNumber other.weight :=
            List.forall_mem_cons
          rw [documentPieces_cons, after_append, run_row hRow hGap, hText, hGapComma.run_append, hRest]
          by_cases hWeight : Json.validNumber row.weight
          · rw [if_pos hWeight]
            by_cases hOthers : ∀ other ∈ next :: rows, Json.validNumber other.weight
            · rw [if_pos hOthers, if_pos (hAll.mpr ⟨hWeight, hOthers⟩)]
              simp [Json.recordTokens]
            · rw [if_neg hOthers, if_neg fun h => hOthers (hAll.mp h).2]
              rfl
          · rw [if_neg hWeight, if_neg fun h => hWeight (hAll.mp h).1]

/-- A document decodes if and only if its weights are numbers, and then to its rows. -/
theorem decode_document {gap : List Char} (hGap : gap.all Json.isSpace) {rows : List Row}
    (h : ∀ row ∈ rows, row.Sound) :
    Json.decode (document gap [] rows) =
      if ∀ row ∈ rows, Json.validNumber row.weight then some (rows.map Row.record) else none := by
  cases rows with
  | nil => simp [document, show Json.decode ['[', ']'] = some [] from rfl]
  | cons row rows =>
      have hOpen : Json.Reads ['['] [.openBracket] := rfl
      have hRun : Json.run .start (document gap [] (row :: rows)) = _ :=
        hOpen.run_append ('\x7b' :: after '"' (documentPieces gap [] (row :: rows)))
      rw [run_rows hGap h (by simp)] at hRun
      split at hRun
      next hValid =>
        rw [if_pos hValid]
        exact Json.Reads.decode hRun
      next hInvalid =>
        rw [if_neg hInvalid, Json.decode, Json.lex, hRun]
        rfl

end TrustMap.Mapnode.Replay
