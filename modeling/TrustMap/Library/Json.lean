import Mathlib.Data.List.Basic
import Mathlib.Tactic.Common

/-!
JSON texts of flat records: an array of objects whose values are strings and numbers. The lexer is
a transducer that reads one character at a time, so that what it does with a text is composed from
what it does with the parts. A number keeps its literal.
-/

namespace Json

/-- The tokens of a JSON text. -/
inductive Token
  | openBrace
  | closeBrace
  | openBracket
  | closeBracket
  | colon
  | comma
  | string (text : List Char)
  | number (literal : List Char)
  | word (text : List Char)
  deriving DecidableEq, Repr

/-- A part of a string: a character, or a UTF-16 unit written as an escape. -/
inductive Item
  | char (c : Char)
  | unit (value : ℕ)
  deriving DecidableEq, Repr

/-- The character of a single unit; a surrogate is replaced. -/
def unitChar (value : ℕ) : Char :=
  if 0xd800 ≤ value ∧ value < 0xe000 then Char.ofNat 0xfffd else Char.ofNat value

/-- The characters of a string; a high and a low surrogate are one character. -/
def characters : List Item → List Char
  | [] => []
  | .char c :: rest => c :: characters rest
  | [.unit value] => [unitChar value]
  | .unit value :: .char c :: rest => unitChar value :: c :: characters rest
  | .unit high :: .unit low :: rest =>
      if 0xd800 ≤ high ∧ high < 0xdc00 ∧ 0xdc00 ≤ low ∧ low < 0xe000 then
        Char.ofNat (0x10000 + (high - 0xd800) * 0x400 + (low - 0xdc00)) :: characters rest
      else unitChar high :: characters (.unit low :: rest)

/-- What the lexer is in the middle of. -/
inductive State
  | start
  | string (items : List Item)
  | escape (items : List Item)
  | unicode (items : List Item) (digits : List ℕ)
  | number (literal : List Char)
  | word (text : List Char)
  deriving DecidableEq, Repr

/-- White space. -/
def isSpace (c : Char) : Bool :=
  c = ' ' ∨ c = '\t' ∨ c = '\n' ∨ c = '\r'

/-- The characters of number literals. -/
def isNumberChar (c : Char) : Bool :=
  c.isDigit ∨ c = '.' ∨ c = '-' ∨ c = '+' ∨ c = 'e' ∨ c = 'E'

/-- The characters a string may hold as they are. -/
def isPlain (c : Char) : Bool :=
  c ≠ '"' ∧ c ≠ '\\' ∧ 0x20 ≤ c.toNat

/-- The value of a hexadecimal digit. -/
def hexDigit (c : Char) : Option ℕ :=
  if c.isDigit then some (c.toNat - 48)
  else if 'a' ≤ c ∧ c ≤ 'f' then some (c.toNat - 87)
  else if 'A' ≤ c ∧ c ≤ 'F' then some (c.toNat - 55)
  else none

/-- The character of a short escape. -/
def shortEscape : Char → Option Char
  | '"' => some '"'
  | '\\' => some '\\'
  | '/' => some '/'
  | 'b' => some (Char.ofNat 8)
  | 'f' => some (Char.ofNat 12)
  | 'n' => some '\n'
  | 'r' => some '\r'
  | 't' => some '\t'
  | _ => none

/-- The exponent of a number literal, which may be missing. -/
def validExponent : List Char → Bool
  | [] => true
  | c :: rest =>
      let digits := match rest with
        | '+' :: digits => digits
        | '-' :: digits => digits
        | digits => digits
      (c = 'e' ∨ c = 'E') ∧ digits ≠ [] ∧ digits.all Char.isDigit

/-- The fraction and the exponent of a number literal, which may be missing. -/
def validFraction : List Char → Bool
  | '.' :: rest => rest.takeWhile Char.isDigit ≠ [] ∧ validExponent (rest.dropWhile Char.isDigit)
  | rest => validExponent rest

/-- The number literals without their sign: no leading zero, unless it is the only digit. -/
def validUnsigned (literal : List Char) : Bool :=
  let digits := literal.takeWhile Char.isDigit
  (digits = ['0'] ∨ digits ≠ [] ∧ digits.head? ≠ some '0') ∧
    validFraction (literal.dropWhile Char.isDigit)

/-- The number literals. -/
def validNumber : List Char → Bool
  | '-' :: literal => validUnsigned literal
  | literal => validUnsigned literal

/-- The first character of a token, or white space. -/
def begin (c : Char) : Option (List Token × State) :=
  if isSpace c then some ([], .start)
  else if c = '\x7b' then some ([.openBrace], .start)
  else if c = '\x7d' then some ([.closeBrace], .start)
  else if c = '[' then some ([.openBracket], .start)
  else if c = ']' then some ([.closeBracket], .start)
  else if c = ':' then some ([.colon], .start)
  else if c = ',' then some ([.comma], .start)
  else if c = '"' then some ([], .string [])
  else if c.isDigit ∨ c = '-' then some ([], .number [c])
  else if c.isAlpha then some ([], .word [c])
  else none

/-- The literals that are words. -/
def isWord (text : List Char) : Bool :=
  text = "true".toList ∨ text = "false".toList ∨ text = "null".toList

/-- The end of a number or of a word. -/
def finish : State → Option (List Token)
  | .start => some []
  | .number literal => if validNumber literal then some [.number literal] else none
  | .word text => if isWord text then some [.word text] else none
  | _ => none

/-- One character: the tokens it completes and the next state. -/
def step (state : State) (c : Char) : Option (List Token × State) :=
  match state with
  | .start => begin c
  | .string items =>
      if c = '"' then some ([.string (characters items)], .start)
      else if c = '\\' then some ([], .escape items)
      else if isPlain c then some ([], .string (items ++ [.char c]))
      else none
  | .escape items =>
      if c = 'u' then some ([], .unicode items [])
      else (shortEscape c).map fun c => ([], .string (items ++ [.char c]))
  | .unicode items digits =>
      (hexDigit c).map fun digit =>
        match digits ++ [digit] with
        | [a, b, c, d] => ([], .string (items ++ [.unit (((a * 16 + b) * 16 + c) * 16 + d)]))
        | digits => ([], .unicode items digits)
  | .number literal =>
      if isNumberChar c then some ([], .number (literal ++ [c]))
      else do
        let done ← finish (.number literal)
        let (tokens, next) ← begin c
        return (done ++ tokens, next)
  | .word text =>
      if c.isAlpha then some ([], .word (text ++ [c]))
      else do
        let done ← finish (.word text)
        let (tokens, next) ← begin c
        return (done ++ tokens, next)

/-- Tokens before those of a run. -/
def prepend (tokens : List Token) (result : Option (List Token × State)) :
    Option (List Token × State) :=
  result.map fun r => (tokens ++ r.1, r.2)

/-- The tokens of a text and the state after it. -/
def run (state : State) : List Char → Option (List Token × State)
  | [] => some ([], state)
  | c :: rest => (step state c).bind fun r => prepend r.1 (run r.2 rest)

/-- The tokens of a whole text. -/
def lex (text : List Char) : Option (List Token) :=
  (run .start text).bind fun r => (finish r.2).map fun tokens => r.1 ++ tokens

/-- The values of a flat record. -/
inductive Scalar
  | string (text : List Char)
  | number (literal : List Char)
  deriving DecidableEq, Repr

/-- The fields of an object in their order. -/
abbrev Record := List (List Char × Scalar)

/-- The place in an array of flat records. -/
inductive Place
  | start
  | first
  | item
  | openRecord
  | key
  | colon (key : List Char)
  | value (key : List Char)
  | afterValue
  | afterRecord
  | done
  deriving DecidableEq, Repr

/-- Read an array of flat records, with the records and the fields read so far. -/
def parse : Place → List Record → Record → List Token → Option (List Record)
  | .done, records, _, [] => some records
  | .start, records, fields, .openBracket :: rest => parse .first records fields rest
  | .first, records, fields, .closeBracket :: rest => parse .done records fields rest
  | .first, records, _, .openBrace :: rest => parse .openRecord records [] rest
  | .item, records, _, .openBrace :: rest => parse .openRecord records [] rest
  | .openRecord, records, fields, .closeBrace :: rest =>
      parse .afterRecord (records ++ [fields]) [] rest
  | .openRecord, records, fields, .string key :: rest => parse (.colon key) records fields rest
  | .key, records, fields, .string key :: rest => parse (.colon key) records fields rest
  | .colon key, records, fields, .colon :: rest => parse (.value key) records fields rest
  | .value key, records, fields, .string text :: rest =>
      parse .afterValue records (fields ++ [(key, .string text)]) rest
  | .value key, records, fields, .number literal :: rest =>
      parse .afterValue records (fields ++ [(key, .number literal)]) rest
  | .afterValue, records, fields, .comma :: rest => parse .key records fields rest
  | .afterValue, records, fields, .closeBrace :: rest =>
      parse .afterRecord (records ++ [fields]) [] rest
  | .afterRecord, records, fields, .comma :: rest => parse .item records fields rest
  | .afterRecord, records, fields, .closeBracket :: rest => parse .done records fields rest
  | _, _, _, _ => none

/-- The records of a JSON text, if it is an array of flat records. -/
def decode (text : List Char) : Option (List Record) := do
  let tokens ← lex text
  parse .start [] [] tokens

/-! ## Reading a text part by part -/

@[simp] theorem prepend_nil (result : Option (List Token × State)) : prepend [] result = result := by
  cases result <;> rfl

@[simp] theorem prepend_some (tokens tokens' : List Token) (state : State) :
    prepend tokens (some (tokens', state)) = some (tokens ++ tokens', state) := rfl

theorem prepend_prepend (tokens tokens' : List Token) (result : Option (List Token × State)) :
    prepend tokens (prepend tokens' result) = prepend (tokens ++ tokens') result := by
  cases result <;> simp [prepend]

theorem run_cons_of_step {state next : State} {c : Char} {tokens : List Token}
    (h : step state c = some (tokens, next)) (rest : List Char) :
    run state (c :: rest) = prepend tokens (run next rest) := by
  rw [run, h]
  rfl

theorem run_append (state : State) (text text' : List Char) :
    run state (text ++ text') = (run state text).bind fun r => prepend r.1 (run r.2 text') := by
  induction text generalizing state with
  | nil => simp [run]
  | cons c text ih =>
      cases hStep : step state c with
      | none => simp [run, hStep]
      | some result =>
          rw [List.cons_append, run_cons_of_step hStep, run_cons_of_step hStep, ih]
          cases run result.2 text with
          | none => rfl
          | some last => exact prepend_prepend ..

/-- The text is a sequence of whole tokens. -/
def Reads (text : List Char) (tokens : List Token) : Prop :=
  run .start text = some (tokens, .start)

namespace Reads

variable {text text' : List Char} {tokens tokens' : List Token}

theorem nil : Reads [] [] := rfl

theorem run_append (h : Reads text tokens) (text' : List Char) :
    run .start (text ++ text') = prepend tokens (run .start text') := by
  rw [Json.run_append, h]
  rfl

theorem append (h : Reads text tokens) (h' : Reads text' tokens') :
    Reads (text ++ text') (tokens ++ tokens') := by
  rw [Reads, h.run_append, h']
  rfl

theorem lex (h : Reads text tokens) : lex text = some tokens := by
  rw [Json.lex, h]
  simp [finish]

theorem spaces (h : text.all isSpace) : Reads text [] := by
  induction text with
  | nil => rfl
  | cons c text ih =>
      rw [List.all_cons, Bool.and_eq_true] at h
      have hStep : step .start c = some ([], .start) := by simp [step, begin, h.1]
      rw [Reads, run_cons_of_step hStep, ih h.2]
      rfl

end Reads

/-! ### Strings and numbers -/

theorem run_string {items : List Item} {text : List Char} (h : text.all isPlain) :
    run (.string items) text = some ([], .string (items ++ text.map .char)) := by
  induction text generalizing items with
  | nil => simp [run]
  | cons c text ih =>
      rw [List.all_cons, Bool.and_eq_true] at h
      obtain ⟨hQuote, hEscape, -⟩ : c ≠ '"' ∧ c ≠ '\\' ∧ 0x20 ≤ c.toNat := by
        simpa [isPlain] using h.1
      have hStep : step (.string items) c = some ([], .string (items ++ [.char c])) := by
        simp [step, hQuote, hEscape, h.1]
      rw [run_cons_of_step hStep, ih h.2]
      simp

theorem characters_map_char (text : List Char) : characters (text.map .char) = text := by
  induction text with
  | nil => rfl
  | cons c text ih => rw [List.map_cons, characters, ih]

/-- A string without escapes. -/
theorem Reads.string {text : List Char} (h : text.all isPlain) :
    Reads ('"' :: (text ++ ['"'])) [.string text] := by
  have hOpen : step .start '"' = some ([], .string []) := rfl
  have hClose : run (.string (text.map .char)) ['"'] = some ([.string text], .start) := by
    simp [run, step, characters_map_char]
  rw [Reads, run_cons_of_step hOpen, Json.run_append, run_string h]
  simpa using hClose

variable {literal : List Char}

theorem run_number {text : List Char} (h : text.all isNumberChar) :
    run (.number literal) text = some ([], .number (literal ++ text)) := by
  induction text generalizing literal with
  | nil => simp [run]
  | cons c text ih =>
      rw [List.all_cons, Bool.and_eq_true] at h
      have hStep : step (.number literal) c = some ([], .number (literal ++ [c])) := by
        simp [step, h.1]
      rw [run_cons_of_step hStep, ih h.2]
      simp

/-- A digit begins a number. -/
theorem begin_digit {c : Char} (h : c.isDigit) : begin c = some ([], .number [c]) := by
  have hNe : ∀ d : Char, d.isDigit = false → c ≠ d := by
    rintro d hd rfl
    rw [hd] at h
    cases h
  have hSpace : isSpace c = false := by
    simp [isSpace, hNe ' ' rfl, hNe '\t' rfl, hNe '\n' rfl, hNe '\r' rfl]
  simp [begin, hSpace, h, hNe '\x7b' rfl, hNe '\x7d' rfl, hNe '[' rfl, hNe ']' rfl, hNe ':' rfl,
    hNe ',' rfl, hNe '"' rfl]

/-- The texts the lexer takes for number literals that begin with a digit. -/
structure Numeral (literal : List Char) : Prop where
  digit : ∃ c ∈ literal.head?, c.isDigit
  chars : literal.all isNumberChar

theorem Numeral.run (h : Numeral literal) : run .start literal = some ([], .number literal) := by
  obtain ⟨c, hHead, hDigit⟩ := h.digit
  cases literal with
  | nil => simp at hHead
  | cons d literal =>
      obtain rfl : d = c := by simpa using hHead
      have hChars := h.chars
      rw [List.all_cons, Bool.and_eq_true] at hChars
      have hStep : step .start d = some ([], .number [d]) := begin_digit hDigit
      rw [run_cons_of_step hStep, run_number hChars.2]
      rfl

/-- What the lexer makes of a number and the character after it. -/
theorem Numeral.run_append (h : Numeral literal) {c : Char} {tokens : List Token}
    (hChar : isNumberChar c = false) (hBegin : begin c = some (tokens, .start)) (rest : List Char) :
    Json.run .start (literal ++ c :: rest) =
      if validNumber literal then prepend (.number literal :: tokens) (Json.run .start rest)
      else none := by
  rw [Json.run_append, h.run, Option.bind_some, prepend_nil, Json.run, step, if_neg (by simp [hChar]),
    finish]
  split
  · simp [hBegin]
  · rfl

theorem Numeral.reads (h : Numeral literal) {c : Char} {tokens : List Token}
    (hChar : isNumberChar c = false) (hBegin : begin c = some (tokens, .start))
    (hValid : validNumber literal) : Reads (literal ++ [c]) (.number literal :: tokens) := by
  rw [Reads, h.run_append hChar hBegin, if_pos hValid, Json.run, prepend_some, List.append_nil]

/-! ### Fields -/

/-- The name of a field and the colon. -/
def keyText (gap name : List Char) : List Char :=
  '"' :: (name ++ ['"']) ++ [':'] ++ gap

/-- A field with a number and the comma after it. -/
def numberField (gap name literal : List Char) : List Char :=
  keyText gap name ++ (literal ++ [',']) ++ gap

/-- A field with a string and the comma after it. -/
def stringField (gap name text : List Char) : List Char :=
  keyText gap name ++ '"' :: (text ++ ['"']) ++ [','] ++ gap

theorem Reads.keyText {gap name : List Char} (hGap : gap.all isSpace) (hName : name.all isPlain) :
    Reads (keyText gap name) [.string name, .colon] := by
  have hColon : Reads [':'] [.colon] := rfl
  exact ((Reads.string hName).append hColon).append (Reads.spaces hGap)

theorem Reads.numberField {gap name : List Char} (hGap : gap.all isSpace) (hName : name.all isPlain)
    (h : Numeral literal) (hValid : validNumber literal) :
    Reads (numberField gap name literal) [.string name, .colon, .number literal, .comma] := by
  have hLiteral : Reads (literal ++ [',']) [.number literal, .comma] := h.reads rfl rfl hValid
  exact ((Reads.keyText hGap hName).append hLiteral).append (Reads.spaces hGap)

theorem Reads.stringField {gap name text : List Char} (hGap : gap.all isSpace)
    (hName : name.all isPlain) (hText : text.all isPlain) :
    Reads (stringField gap name text) [.string name, .colon, .string text, .comma] := by
  have hComma : Reads [','] [.comma] := rfl
  exact (((Reads.keyText hGap hName).append (Reads.string hText)).append hComma).append
    (Reads.spaces hGap)

/-! ### Records -/

/-- The token of a value. -/
def Scalar.token : Scalar → Token
  | .string text => .string text
  | .number literal => .number literal

/-- The tokens of the fields of an object. -/
def fieldTokens : Record → List Token
  | [] => []
  | [field] => [.string field.1, .colon, field.2.token]
  | field :: next :: fields =>
      .string field.1 :: .colon :: field.2.token :: .comma :: fieldTokens (next :: fields)

/-- The tokens of objects, separated by commas. -/
def recordTokens : List Record → List Token
  | [] => []
  | [record] => .openBrace :: (fieldTokens record ++ [.closeBrace])
  | record :: next :: records =>
      .openBrace :: (fieldTokens record ++ .closeBrace :: .comma :: recordTokens (next :: records))

/-- The tokens of an array of flat records. -/
def tokens (records : List Record) : List Token :=
  .openBracket :: (recordTokens records ++ [.closeBracket])

variable {records : List Record}

theorem parse_fieldTokens {before : Record} {field : List Char × Scalar} {fields : Record}
    {rest : List Token} :
    parse .key records before (fieldTokens (field :: fields) ++ .closeBrace :: rest) =
      parse .afterRecord (records ++ [before ++ field :: fields]) [] rest := by
  induction fields generalizing before field with
  | nil =>
      obtain ⟨key, value⟩ := field
      cases value <;> simp [fieldTokens, parse, Scalar.token]
  | cons next fields ih =>
      obtain ⟨key, value⟩ := field
      cases value <;> simp [fieldTokens, parse, Scalar.token, ih]

theorem parse_record {record : Record} {rest : List Token} :
    parse .openRecord records [] (fieldTokens record ++ .closeBrace :: rest) =
      parse .afterRecord (records ++ [record]) [] rest := by
  cases record with
  | nil => simp [fieldTokens, parse]
  | cons field fields =>
      have hKey : parse .openRecord records [] (fieldTokens (field :: fields) ++ .closeBrace :: rest) =
          parse .key records [] (fieldTokens (field :: fields) ++ .closeBrace :: rest) := by
        cases fields <;> simp [fieldTokens, parse]
      rw [hKey, parse_fieldTokens]
      rfl

theorem parse_recordTokens {before : List Record} {record : Record} :
    parse .item before [] (recordTokens (record :: records) ++ [.closeBracket]) =
      some (before ++ record :: records) := by
  induction records generalizing before record with
  | nil => simp [recordTokens, parse, parse_record]
  | cons next records ih => simp [recordTokens, parse, parse_record, ih]

theorem parse_tokens (records : List Record) : parse .start [] [] (tokens records) = some records := by
  cases records with
  | nil => simp [tokens, recordTokens, parse]
  | cons record records =>
      have hItem : parse .first [] [] (recordTokens (record :: records) ++ [.closeBracket]) =
          parse .item [] [] (recordTokens (record :: records) ++ [.closeBracket]) := by
        cases records <;> simp [recordTokens, parse]
      rw [tokens, parse, hItem, parse_recordTokens]
      rfl

/-- A text that reads as the tokens of records decodes to them. -/
theorem Reads.decode {text : List Char} (h : Reads text (tokens records)) :
    decode text = some records := by
  rw [Json.decode, h.lex, Option.bind_eq_bind, Option.bind_some, parse_tokens]

end Json
