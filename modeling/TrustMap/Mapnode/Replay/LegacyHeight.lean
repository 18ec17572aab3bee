import Mathlib.Data.List.Basic
import Mathlib.Data.Nat.Digits.Defs
import TrustMap.Library.Checks
import TrustMap.Library.HalfEven
import TrustMap.Mapnode.Replay.Block

/-!
`parseLegacyHeight`: heights of a trace are decimal numerals with a point and an exponent, rounded to
the nearest integer. The scanner accepts the numerals of a grammar, and its integer arithmetic rounds
the rational number they denote.
-/

namespace TrustMap.Mapnode.Replay

open Checks

/-- The errors of `parseLegacyHeight`. -/
inductive HeightError
  | invalid
  | exceedsUint64
  deriving DecidableEq

/-- The number of bytes of a text. -/
def byteLength (text : List Char) : ℕ :=
  (text.map Char.utf8Size).sum

/-- The digits of `parseLegacyHeight`. -/
def isDigit (c : Char) : Bool :=
  '0' ≤ c && c ≤ '9'

/-- The value of a digit. -/
def digitValue (c : Char) : ℕ :=
  c.toNat - 48

/-- `SetString` in base ten, on digits. -/
def setString (digits : List Char) : ℕ :=
  digits.foldl (fun value c => 10 * value + digitValue c) 0

/-- A sign before digits, and the rest. -/
def splitSign (text : List Char) : List Char × List Char :=
  if text.head? = some '+' ∨ text.head? = some '-' then (text.take 1, text.drop 1) else ([], text)

/-- `strconv.ParseInt` in base ten for 32 bits. -/
def parseInt32 (text : List Char) : Option ℤ :=
  let (sign, digits) := splitSign text
  if digits = [] ∨ digits.all isDigit = false then none
  else
    let value := setString digits
    if sign = ['-'] then if 2 ^ 31 < value then none else some (-value)
    else if 2 ^ 31 ≤ value then none else some value

/-- The marks of an exponent. -/
def isMark (c : Char) : Bool :=
  c = 'e' || c = 'E'

/-- The part of `parseLegacyHeight` that takes the exponent from the end of the text. -/
def splitExponent (text : List Char) : Except HeightError (List Char × ℤ) :=
  match text.dropWhile (!isMark ·) with
  | [] => .ok (text, 0)
  | _ :: rest => do
      require (rest.any isMark = false) .invalid
      match parseInt32 rest with
      | none => .error .invalid
      | some exponent => do
          require (-1024 ≤ exponent ∧ exponent ≤ 1024) .invalid
          return (text.takeWhile (!isMark ·), exponent)

/-- The part of `parseLegacyHeight` that splits the text at its point. -/
def splitPoint (text : List Char) : Except HeightError (List Char × List Char) :=
  match text.splitOn '.' with
  | [whole] => .ok (whole, [])
  | [whole, fraction] => .ok (whole, fraction)
  | _ => .error .invalid

/-- A coefficient divided by a power of ten and rounded. -/
def scaleHeight (coefficient : ℕ) (scale : ℤ) : ℕ :=
  if scale ≤ 0 then coefficient * 10 ^ (-scale).toNat
  else HalfEven.divide coefficient (10 ^ scale.toNat)

/-- `parseLegacyHeight`. -/
def parseLegacyHeight (value : List Char) : Except HeightError UInt64 := do
  let text := trimSpace value
  require (text ≠ [] ∧ byteLength text ≤ 1024) .invalid
  require (text.head? ≠ some '-') .invalid
  let text := if text.head? = some '+' then text.tail else text
  let (text, exponent) ← splitExponent text
  let (whole, fraction) ← splitPoint text
  require (¬ (whole = [] ∧ fraction = [])) .invalid
  let digits := whole ++ fraction
  require (digits.all isDigit = true) .invalid
  let result := scaleHeight (setString digits) (byteLength fraction - exponent)
  require (result ≤ 2 ^ 64 - 1) .exceedsUint64
  return UInt64.ofNat result

/-! ## Numerals -/

/-- The number a sequence of digits denotes. -/
def decimalValue (digits : List Char) : ℕ :=
  Nat.ofDigits 10 (digits.reverse.map digitValue)

/-- Digits with at most one point, and at least one digit. -/
structure IsMantissa (text whole fraction : List Char) : Prop where
  digits : ∀ c ∈ whole ++ fraction, isDigit c = true
  nonempty : whole ++ fraction ≠ []
  split : (text = whole ∧ fraction = []) ∨ text = whole ++ '.' :: fraction

/-- An optionally signed integer. -/
structure IsInteger (text : List Char) (value : ℤ) : Prop where
  split : ∃ sign digits, text = sign ++ digits ∧ (sign = [] ∨ sign = ['+'] ∨ sign = ['-']) ∧
    digits ≠ [] ∧ (∀ c ∈ digits, isDigit c = true) ∧
    value = if sign = ['-'] then -(decimalValue digits : ℤ) else decimalValue digits

/-- Nothing, or a mark and an integer between -1024 and 1024. -/
def IsExponent (text : List Char) (exponent : ℤ) : Prop :=
  (text = [] ∧ exponent = 0) ∨ ∃ mark rest, text = mark :: rest ∧ (mark = 'e' ∨ mark = 'E') ∧
    IsInteger rest exponent ∧ -1024 ≤ exponent ∧ exponent ≤ 1024

/-- A text is a numeral for a rational number. -/
def Denotes (text : List Char) (q : ℚ) : Prop :=
  ∃ sign mantissa suffix whole fraction exponent, text = sign ++ (mantissa ++ suffix) ∧
    (sign = [] ∨ sign = ['+']) ∧ IsMantissa mantissa whole fraction ∧ IsExponent suffix exponent ∧
    q = decimalValue (whole ++ fraction) * 10 ^ (exponent - fraction.length)

/-! ## Digits -/

section Digits

variable {c : Char} {digits text sign : List Char}

theorem isDigit_iff : isDigit c = true ↔ 48 ≤ c.toNat ∧ c.toNat ≤ 57 := by
  simp only [isDigit, Bool.and_eq_true, decide_eq_true_eq, Char.le_def, UInt32.le_iff_toNat_le]
  rfl

theorem isMark_of_isDigit (h : isDigit c = true) : isMark c = false := by
  rw [isDigit_iff] at h
  by_contra hMark
  have hCases : c = 'e' ∨ c = 'E' := by
    simpa only [isMark, Bool.not_eq_false, Bool.or_eq_true, decide_eq_true_eq] using hMark
  rcases hCases with rfl | rfl
  · exact absurd h (by decide)
  · exact absurd h (by decide)

theorem setString_eq (digits : List Char) : setString digits = decimalValue digits := by
  rw [setString, decimalValue, Nat.ofDigits_eq_foldr, List.foldr_map, List.foldr_reverse]
  congr 1
  funext value c
  simp [add_comm]

theorem byteLength_digits (h : ∀ c ∈ digits, isDigit c = true) : byteLength digits = digits.length := by
  induction digits with
  | nil => rfl
  | cons c digits ih =>
      have hSize : c.utf8Size = 1 := by
        have hDigit := isDigit_iff.mp (h c List.mem_cons_self)
        rw [Char.utf8Size_eq_one_iff, UInt32.le_iff_toNat_le]
        exact hDigit.2.trans (by decide)
      have hRest := ih fun other hMem => h other (List.mem_cons_of_mem c hMem)
      rw [byteLength] at hRest ⊢
      rw [List.map_cons, List.sum_cons, hSize, hRest, List.length_cons, add_comm]

end Digits

/-! ## The parts of a numeral -/

section Parts

variable {text sign digits mantissa whole fraction : List Char} {value exponent : ℤ}

theorem splitSign_spec (h : splitSign text = (sign, digits)) :
    text = sign ++ digits ∧ (sign = [] ∨ sign = ['+'] ∨ sign = ['-']) := by
  rw [splitSign] at h
  cases text with
  | nil =>
      cases h
      exact ⟨rfl, Or.inl rfl⟩
  | cons c rest =>
      split at h
      next hSign =>
        cases h
        refine ⟨rfl, Or.inr ?_⟩
        rcases hSign with hPlus | hMinus
        · exact Or.inl (congrArg (fun c => [c]) (Option.some.inj hPlus))
        · exact Or.inr (congrArg (fun c => [c]) (Option.some.inj hMinus))
      next =>
        cases h
        exact ⟨rfl, Or.inl rfl⟩

theorem splitSign_append (hSign : sign = [] ∨ sign = ['+'] ∨ sign = ['-']) (hNonempty : digits ≠ [])
    (hDigits : ∀ c ∈ digits, isDigit c = true) : splitSign (sign ++ digits) = (sign, digits) := by
  rcases hSign with rfl | rfl | rfl
  · cases digits with
    | nil => exact absurd rfl hNonempty
    | cons c rest =>
        have hDigit := hDigits c List.mem_cons_self
        refine if_neg ?_
        rintro (hPlus | hMinus)
        · rw [Option.some.inj hPlus] at hDigit
          exact absurd hDigit (by decide)
        · rw [Option.some.inj hMinus] at hDigit
          exact absurd hDigit (by decide)
  · exact if_pos (Or.inl rfl)
  · exact if_pos (Or.inr rfl)

theorem all_isDigit : digits.all isDigit = true ↔ ∀ c ∈ digits, isDigit c = true :=
  List.all_eq_true

/-- `ParseInt` reads the integers; the range of 32 bits does not matter here. -/
theorem parseInt32_iff (hRange : -1024 ≤ value ∧ value ≤ 1024) :
    parseInt32 text = some value ↔ IsInteger text value := by
  constructor
  · intro h
    rw [parseInt32] at h
    cases hSplit : splitSign text with
    | mk sign digits =>
        obtain ⟨hText, hSign⟩ := splitSign_spec hSplit
        simp only [hSplit, setString_eq] at h
        split at h
        next => cases h
        next hDigits =>
          obtain ⟨hNonempty, hAll⟩ := not_or.mp hDigits
          refine ⟨sign, digits, hText, hSign, hNonempty, all_isDigit.mp (by simpa using hAll), ?_⟩
          split at h
          next hMinus =>
            rw [if_pos hMinus]
            split at h
            · cases h
            · exact (Option.some.inj h).symm
          next hMinus =>
            rw [if_neg hMinus]
            split at h
            · cases h
            · exact (Option.some.inj h).symm
  · rintro ⟨sign, digits, rfl, hSign, hNonempty, hDigits, hValue⟩
    have hAll : ¬ (digits = [] ∨ digits.all isDigit = false) := by
      rw [all_isDigit.mpr hDigits]
      simpa using hNonempty
    rw [parseInt32, splitSign_append hSign hNonempty hDigits]
    simp only [if_neg hAll, setString_eq]
    split at hValue
    next hMinus => rw [if_pos hMinus, if_neg (by omega), hValue]
    next hMinus => rw [if_neg hMinus, if_neg (by omega), hValue]

theorem IsInteger.not_mark (h : IsInteger text value) : text.any isMark = false := by
  obtain ⟨sign, digits, rfl, hSign, -, hDigits, -⟩ := h
  rw [List.any_append, Bool.or_eq_false_iff]
  constructor
  · rcases hSign with rfl | rfl | rfl
    · rfl
    · rfl
    · rfl
  · rw [List.any_eq_false]
    intro c hMem
    rw [isMark_of_isDigit (hDigits c hMem)]
    exact Bool.false_ne_true

theorem isMark_iff {c : Char} : isMark c = true ↔ c = 'e' ∨ c = 'E' := by
  simp only [isMark, Bool.or_eq_true, decide_eq_true_eq]

theorem splitExponent_iff :
    splitExponent text = .ok (mantissa, exponent) ↔ ∃ suffix, text = mantissa ++ suffix ∧
      (∀ c ∈ mantissa, isMark c = false) ∧ IsExponent suffix exponent := by
  constructor
  · intro h
    have hText := List.takeWhile_append_dropWhile (p := (!isMark ·)) (l := text)
    have hTaken : ∀ c ∈ text.takeWhile (!isMark ·), isMark c = false := by
      intro c hMem
      simpa using List.mem_takeWhile_imp hMem
    rw [splitExponent] at h
    split at h
    next hDrop =>
      cases h
      rw [hDrop, List.append_nil] at hText
      exact ⟨[], (List.append_nil _).symm, hText ▸ hTaken, Or.inl ⟨rfl, rfl⟩⟩
    next mark rest hDrop =>
      obtain ⟨-, -, h⟩ := bind_eq_ok.mp h
      split at h
      next => cases h
      next value hValue =>
        obtain ⟨_, hRange, h⟩ := bind_eq_ok.mp h
        rw [require_eq_ok] at hRange
        cases h
        have hMark : isMark mark = true := by
          have hHead := List.head?_dropWhile_not (!isMark ·) text
          rw [hDrop] at hHead
          simpa using hHead
        refine ⟨mark :: rest, by rw [← hDrop, hText], hTaken, Or.inr ⟨mark, rest, rfl,
          isMark_iff.mp hMark, (parseInt32_iff hRange).mp hValue, hRange⟩⟩
  · rintro ⟨suffix, rfl, hMantissa, hSuffix⟩
    have hKeep : ∀ c ∈ mantissa, (!isMark c) = true := by
      intro c hMem
      rw [hMantissa c hMem]
      rfl
    rw [splitExponent, List.dropWhile_append_of_pos hKeep, List.takeWhile_append_of_pos hKeep]
    rcases hSuffix with ⟨rfl, rfl⟩ | ⟨mark, rest, rfl, hMark, hInteger, hRange⟩
    · rw [List.append_nil]
      rfl
    · have hStop : (!isMark mark) = false := by
        rw [isMark_iff.mpr hMark]
        rfl
      simp only [List.dropWhile_cons, List.takeWhile_cons, hStop, Bool.false_eq_true, if_false,
        List.append_nil, hInteger.not_mark, (parseInt32_iff hRange).mpr hInteger, require, if_true,
        if_pos hRange]
      rfl

theorem splitPoint_iff (hDigits : ∀ c ∈ whole ++ fraction, isDigit c = true) :
    splitPoint text = .ok (whole, fraction) ↔
      (text = whole ∧ fraction = []) ∨ text = whole ++ '.' :: fraction := by
  have hPoint : ∀ digits : List Char, (∀ c ∈ digits, isDigit c = true) → '.' ∉ digits := by
    intro digits hAll hMem
    exact absurd (hAll '.' hMem) (by decide)
  have hWhole := hPoint whole fun c hMem => hDigits c (List.mem_append_left _ hMem)
  have hFraction := hPoint fraction fun c hMem => hDigits c (List.mem_append_right _ hMem)
  constructor
  · intro h
    have hText : ['.'].intercalate (text.splitOn '.') = text := List.intercalate_splitOn '.'
    rw [splitPoint] at h
    split at h
    next part hParts =>
      cases h
      rw [hParts] at hText
      exact Or.inl ⟨by simpa [List.intercalate] using hText.symm, rfl⟩
    next part part' hParts =>
      cases h
      rw [hParts] at hText
      exact Or.inr (by simpa [List.intercalate] using hText.symm)
    next => cases h
  · rintro (⟨rfl, rfl⟩ | rfl)
    · have hParts := @List.splitOn_intercalate _ [text] _ _ '.' (by simpa using hWhole) (by simp)
      rw [splitPoint, show text.splitOn '.' = [text] by simpa [List.intercalate] using hParts]
    · have hParts := @List.splitOn_intercalate _ [whole, fraction] _ _ '.'
        (by simpa using ⟨hWhole, hFraction⟩) (by simp)
      rw [splitPoint, show (whole ++ '.' :: fraction).splitOn '.' = [whole, fraction] by
        simpa [List.intercalate] using hParts]

theorem IsMantissa.mem (h : IsMantissa text whole fraction) {c : Char} (hMem : c ∈ text) :
    isDigit c = true ∨ c = '.' := by
  rcases h.split with ⟨rfl, rfl⟩ | rfl
  · exact Or.inl (h.digits c (List.mem_append_left _ hMem))
  · rcases List.mem_append.mp hMem with hWhole | hRest
    · exact Or.inl (h.digits c (List.mem_append_left _ hWhole))
    · rcases List.mem_cons.mp hRest with rfl | hFraction
      · exact Or.inr rfl
      · exact Or.inl (h.digits c (List.mem_append_right _ hFraction))

theorem IsMantissa.not_mark (h : IsMantissa text whole fraction) :
    ∀ c ∈ text, isMark c = false := by
  intro c hMem
  rcases h.mem hMem with hDigit | rfl
  · exact isMark_of_isDigit hDigit
  · rfl

/-- A numeral without its sign does not start with a sign. -/
theorem IsMantissa.head_append (h : IsMantissa text whole fraction) (suffix : List Char) {c : Char}
    (hSign : c = '+' ∨ c = '-') : (text ++ suffix).head? ≠ some c := by
  cases text with
  | nil =>
      rcases h.split with ⟨rfl, rfl⟩ | hText
      · exact absurd rfl h.nonempty
      · simp at hText
  | cons first rest =>
      intro hHead
      obtain rfl : first = c := Option.some.inj hHead
      rcases h.mem List.mem_cons_self with hDigit | rfl
      · rcases hSign with rfl | rfl
        · exact absurd hDigit (by decide)
        · exact absurd hDigit (by decide)
      · exact absurd hSign (by decide)

theorem one_le_byteLength : 1 ≤ byteLength text ↔ text ≠ [] := by
  cases text with
  | nil => exact iff_of_false (by decide) (fun h => h rfl)
  | cons c text =>
      refine iff_of_true ?_ (List.cons_ne_nil c text)
      rw [byteLength, List.map_cons, List.sum_cons]
      exact (Nat.one_le_iff_ne_zero.mpr c.utf8Size_pos.ne').trans (Nat.le_add_right _ _)

/-- The text after an optional plus sign. -/
theorem unsigned_iff {body : List Char} (hPlus : body.head? ≠ some '+') (hMinus : body.head? ≠ some '-') :
    (text.head? ≠ some '-' ∧ (if text.head? = some '+' then text.tail else text) = body) ↔
      ∃ sign, text = sign ++ body ∧ (sign = [] ∨ sign = ['+']) := by
  constructor
  · rintro ⟨-, hBody⟩
    split at hBody
    next hHead =>
      cases text with
      | nil => cases hHead
      | cons c rest =>
          obtain rfl : c = '+' := Option.some.inj hHead
          exact ⟨['+'], congrArg _ hBody, Or.inr rfl⟩
    next => exact ⟨[], hBody, Or.inl rfl⟩
  · rintro ⟨sign, rfl, rfl | rfl⟩
    · exact ⟨hMinus, if_neg hPlus⟩
    · refine ⟨fun h => ?_, if_pos rfl⟩
      exact absurd (Option.some.inj h) (by decide)

end Parts

/-! ## Rounding -/

/-- The integer arithmetic rounds the number that the coefficient and the exponent stand for. -/
theorem scaleHeight_roundsTo (coefficient places : ℕ) (exponent : ℤ) :
    HalfEven.RoundsTo (coefficient * 10 ^ (exponent - places))
      (scaleHeight coefficient (places - exponent)) := by
  rw [scaleHeight]
  split
  next hScale =>
    obtain ⟨power, hPower⟩ := Int.eq_ofNat_of_zero_le (show 0 ≤ exponent - places by omega)
    have hValue : (coefficient : ℚ) * 10 ^ (exponent - places) = (coefficient * 10 ^ power : ℕ) := by
      rw [hPower, zpow_natCast]
      push_cast
      rfl
    rw [hValue, show (-((places : ℤ) - exponent)).toNat = power by omega]
    exact HalfEven.roundsTo_natCast _
  next hScale =>
    obtain ⟨power, hPower⟩ := Int.eq_ofNat_of_zero_le (show 0 ≤ (places : ℤ) - exponent by omega)
    have hValue : (coefficient : ℚ) * 10 ^ (exponent - places) = coefficient / (10 ^ power : ℕ) := by
      rw [show exponent - places = -(power : ℤ) by omega, zpow_neg, zpow_natCast, div_eq_mul_inv]
      push_cast
      rfl
    rw [hValue, hPower, Int.toNat_natCast]
    exact HalfEven.roundsTo_divide coefficient (by positivity)

/-- The steps of `parseLegacyHeight` in the case of success. -/
theorem parseLegacyHeight_eq_ok {value : List Char} {height : UInt64} :
    parseLegacyHeight value = .ok height ↔
      (trimSpace value ≠ [] ∧ byteLength (trimSpace value) ≤ 1024) ∧
      (trimSpace value).head? ≠ some '-' ∧ ∃ mantissa exponent whole fraction,
        splitExponent (if (trimSpace value).head? = some '+' then (trimSpace value).tail
          else trimSpace value) = .ok (mantissa, exponent) ∧
        splitPoint mantissa = .ok (whole, fraction) ∧ ¬ (whole = [] ∧ fraction = []) ∧
        (∀ c ∈ whole ++ fraction, isDigit c = true) ∧
        scaleHeight (setString (whole ++ fraction)) (byteLength fraction - exponent) ≤ 2 ^ 64 - 1 ∧
        UInt64.ofNat (scaleHeight (setString (whole ++ fraction)) (byteLength fraction - exponent)) =
          height := by
  simp only [parseLegacyHeight, bind_eq_ok, require_eq_ok, Prod.exists, pure, Except.pure,
    Except.ok.injEq, ← all_isDigit]
  constructor
  · rintro ⟨-, hText, -, hMinus, mantissa, exponent, hExponent, whole, fraction, hPoint, -, hNonempty,
      -, hDigits, -, hMax, hHeight⟩
    exact ⟨hText, hMinus, mantissa, exponent, whole, fraction, hExponent, hPoint, hNonempty, hDigits,
      hMax, hHeight⟩
  · rintro ⟨hText, hMinus, mantissa, exponent, whole, fraction, hExponent, hPoint, hNonempty, hDigits,
      hMax, hHeight⟩
    exact ⟨(), hText, (), hMinus, mantissa, exponent, hExponent, whole, fraction, hPoint, (),
      hNonempty, (), hDigits, (), hMax, hHeight⟩

/-- The scanner accepts the numerals, and what it returns is the number they denote, rounded. -/
theorem parseLegacyHeight_exact (value : List Char) (height : UInt64) :
    parseLegacyHeight value = .ok height ↔
      (1 ≤ byteLength (trimSpace value) ∧ byteLength (trimSpace value) ≤ 1024) ∧
      ∃ q n, Denotes (trimSpace value) q ∧ HalfEven.RoundsTo q n ∧ n ≤ 2 ^ 64 - 1 ∧
        height.toNat = n := by
  rw [parseLegacyHeight_eq_ok, one_le_byteLength]
  generalize trimSpace value = text
  refine and_congr_right fun _ => ?_
  constructor
  · rintro ⟨hMinus, mantissa, exponent, whole, fraction, hExponent, hPoint, hNonempty, hDigits, hMax,
      rfl⟩
    obtain ⟨suffix, hBody, -, hSuffix⟩ := splitExponent_iff.mp hExponent
    have hMantissa : IsMantissa mantissa whole fraction :=
      ⟨hDigits, by simpa using hNonempty, (splitPoint_iff hDigits).mp hPoint⟩
    obtain ⟨sign, hText, hSign⟩ := (unsigned_iff (hMantissa.head_append suffix (Or.inl rfl))
      (hMantissa.head_append suffix (Or.inr rfl))).mp ⟨hMinus, hBody⟩
    have hFraction : byteLength fraction = fraction.length :=
      byteLength_digits fun c hMem => hDigits c (List.mem_append_right _ hMem)
    rw [hFraction, setString_eq] at hMax ⊢
    refine ⟨_, _, ⟨sign, mantissa, suffix, whole, fraction, exponent, hText, hSign, hMantissa,
      hSuffix, rfl⟩, scaleHeight_roundsTo _ _ _, hMax, ?_⟩
    rw [UInt64.toNat_ofNat', Nat.mod_eq_of_lt (by omega)]
  · rintro ⟨q, n, ⟨sign, mantissa, suffix, whole, fraction, exponent, hText, hSign, hMantissa,
      hSuffix, rfl⟩, hRounds, hMax, hHeight⟩
    obtain ⟨hMinus, hBody⟩ := (unsigned_iff (hMantissa.head_append suffix (Or.inl rfl))
      (hMantissa.head_append suffix (Or.inr rfl))).mpr ⟨sign, hText, hSign⟩
    have hFraction : byteLength fraction = fraction.length :=
      byteLength_digits fun c hMem => hMantissa.digits c (List.mem_append_right _ hMem)
    have hResult : scaleHeight (setString (whole ++ fraction)) (byteLength fraction - exponent) = n := by
      rw [hFraction, setString_eq]
      exact (scaleHeight_roundsTo _ _ _).unique hRounds
    refine ⟨hMinus, mantissa, exponent, whole, fraction, ?_, ?_, ?_, hMantissa.digits, ?_, ?_⟩
    · rw [hBody]
      exact splitExponent_iff.mpr ⟨suffix, rfl, hMantissa.not_mark, hSuffix⟩
    · exact (splitPoint_iff hMantissa.digits).mpr hMantissa.split
    · simpa using hMantissa.nonempty
    · rwa [hResult]
    · rw [hResult, ← hHeight, UInt64.ofNat_toNat]

end TrustMap.Mapnode.Replay
