import Mathlib.Tactic.Ring
import TrustMap.Library.Words

/-!
Byte strings that are put together from fields. A number is read back from its big-endian digits and
digits from their number, and each field stands where the lengths of the fields before it say.
-/

namespace Words

/-! ## Numbers and digits -/

theorem foldl_value (digits : List UInt8) (start : ℕ) :
    digits.foldl (fun acc digit => acc * 256 + digit.toNat) start =
      start * 256 ^ digits.length + value digits := by
  induction digits generalizing start with
  | nil => simp [value]
  | cons digit digits ih =>
      have hValue : value (digit :: digits) = digit.toNat * 256 ^ digits.length + value digits := by
        rw [value, List.foldl_cons, ih, Nat.zero_mul, Nat.zero_add]
      rw [List.foldl_cons, ih, hValue, List.length_cons, pow_succ]
      ring

theorem value_cons (digit : UInt8) (digits : List UInt8) :
    value (digit :: digits) = digit.toNat * 256 ^ digits.length + value digits := by
  rw [value, List.foldl_cons, foldl_value, Nat.zero_mul, Nat.zero_add]

theorem value_lt (digits : List UInt8) : value digits < 256 ^ digits.length := by
  induction digits with
  | nil => simp [value]
  | cons digit digits ih =>
      have hDigit : digit.toNat + 1 ≤ 256 := digit.toNat_lt
      have hStep : (digit.toNat + 1) * 256 ^ digits.length ≤ 256 * 256 ^ digits.length :=
        Nat.mul_le_mul_right _ hDigit
      rw [value_cons, List.length_cons, pow_succ, Nat.mul_comm (256 ^ digits.length)]
      linarith

/-- A small number in a wide field has leading zeros. -/
theorem bigEndian_add_of_lt {width number : ℕ} (h : number < 256 ^ width) (more : ℕ) :
    bigEndian (more + width) number = List.replicate more 0 ++ bigEndian width number := by
  induction more with
  | zero => simp
  | succ more ih =>
      have hDigit : number / 256 ^ (more + width) = 0 := by
        refine Nat.div_eq_of_lt (h.trans_le ?_)
        exact Nat.pow_le_pow_right (by omega) (by omega)
      rw [Nat.succ_add, bigEndian, hDigit, ih, List.replicate_succ, List.cons_append]
      rfl

/-- The digits of a number write its last part. -/
theorem value_bigEndian (width number : ℕ) : value (bigEndian width number) = number % 256 ^ width := by
  induction width with
  | zero => simp [bigEndian, value, Nat.mod_one]
  | succ width ih =>
      rw [bigEndian, value_cons, bigEndian_length, ih, pow_succ, Nat.mod_mul, Nat.add_comm,
        Nat.mul_comm]
      simp

theorem value_bigEndian_of_lt {width number : ℕ} (h : number < 256 ^ width) :
    value (bigEndian width number) = number := by
  rw [value_bigEndian, Nat.mod_eq_of_lt h]

theorem bigEndian_congr {width a b : ℕ} (h : a % 256 ^ width = b % 256 ^ width) :
    bigEndian width a = bigEndian width b := by
  induction width with
  | zero => rfl
  | succ width ih =>
      rw [pow_succ, Nat.mod_mul, Nat.mod_mul] at h
      have hPos : 0 < 256 ^ width := by positivity
      have hLow : a % 256 ^ width = b % 256 ^ width := by
        have hMod := congrArg (· % 256 ^ width) h
        simpa using hMod
      have hHigh : a / 256 ^ width % 256 = b / 256 ^ width % 256 := by
        rw [hLow, Nat.add_left_cancel_iff] at h
        exact Nat.eq_of_mul_eq_mul_left hPos h
      rw [bigEndian, bigEndian, ih hLow]
      congr 1
      exact UInt8.toNat_inj.mp (by simpa using hHigh)

/-- The number of some digits has these digits. -/
theorem bigEndian_value (digits : List UInt8) : bigEndian digits.length (value digits) = digits := by
  induction digits with
  | nil => rfl
  | cons digit digits ih =>
      have hPos : 0 < 256 ^ digits.length := by positivity
      have hHead : (digit.toNat * 256 ^ digits.length + value digits) / 256 ^ digits.length =
          digit.toNat := by
        rw [Nat.add_comm, Nat.add_mul_div_right _ _ hPos, Nat.div_eq_of_lt (value_lt digits),
          Nat.zero_add]
      have hTail : bigEndian digits.length (digit.toNat * 256 ^ digits.length + value digits) =
          bigEndian digits.length (value digits) := bigEndian_congr (by simp)
      rw [List.length_cons, bigEndian, value_cons, hHead, hTail, ih, UInt8.ofNat_toNat]

/-! ## Fields -/

/-- The bytes between two offsets. -/
def slice (data : List UInt8) (offset length : ℕ) : List UInt8 :=
  (data.drop offset).take length

theorem slice_length {data : List UInt8} {offset length : ℕ} (h : offset + length ≤ data.length) :
    (slice data offset length).length = length := by
  rw [slice, List.length_take, List.length_drop]
  omega

/-- A field of a concatenation stands after the fields before it. -/
theorem slice_flatten {fields : List (List UInt8)} {i offset length : ℕ} {field : List UInt8}
    (hField : fields[i]? = some field) (hOffset : (fields.take i).flatten.length = offset)
    (hLength : field.length = length) : slice fields.flatten offset length = field := by
  obtain ⟨hBound, hGet⟩ := List.getElem?_eq_some_iff.mp hField
  have hSplit : fields.flatten = (fields.take i).flatten ++ (field ++ (fields.drop (i + 1)).flatten) := by
    rw [← List.flatten_cons, ← hGet, ← List.drop_eq_getElem_cons hBound, ← List.flatten_append,
      List.take_append_drop]
  rw [slice, hSplit, List.drop_left' hOffset, List.take_left' hLength]

/-- The number in a field of a concatenation. -/
theorem value_slice_flatten {fields : List (List UInt8)} {i offset width number : ℕ}
    (hField : fields[i]? = some (bigEndian width number))
    (hOffset : (fields.take i).flatten.length = offset) (hSmall : number < 256 ^ width) :
    value (slice fields.flatten offset width) = number := by
  rw [slice_flatten hField hOffset (bigEndian_length width number), value_bigEndian_of_lt hSmall]

/-- The fields from an offset on. -/
theorem drop_eq_slice_append (data : List UInt8) (offset length : ℕ) :
    data.drop offset = slice data offset length ++ data.drop (offset + length) := by
  rw [slice, ← List.drop_drop, List.take_append_drop]

/-- The digits of the number in a field are the field. -/
theorem bigEndian_slice {data : List UInt8} {offset length : ℕ} (h : offset + length ≤ data.length) :
    bigEndian length (value (slice data offset length)) = slice data offset length := by
  have hDigits := bigEndian_value (slice data offset length)
  rwa [slice_length h] at hDigits

theorem value_slice_lt {data : List UInt8} {offset length : ℕ} (h : offset + length ≤ data.length) :
    value (slice data offset length) < 256 ^ length := by
  have hBound := value_lt (slice data offset length)
  rwa [slice_length h] at hBound

/-- A byte string cut into fields of the given widths. -/
def cut (data : List UInt8) : ℕ → List ℕ → List (List UInt8)
  | _, [] => []
  | offset, width :: widths => slice data offset width :: cut data (offset + width) widths

/-- Fields that reach to the end make up the rest of the string. -/
theorem flatten_cut {data : List UInt8} {widths : List ℕ} {offset : ℕ}
    (h : offset + widths.sum = data.length) : (cut data offset widths).flatten = data.drop offset := by
  induction widths generalizing offset with
  | nil =>
      rw [List.sum_nil, Nat.add_zero] at h
      rw [cut, List.flatten_nil, h, List.drop_length]
  | cons width widths ih =>
      rw [List.sum_cons, ← Nat.add_assoc] at h
      rw [cut, List.flatten_cons, ih h, ← drop_eq_slice_append]

/-! ## Words -/

theorem value_append (first second : List UInt8) :
    value (first ++ second) = value first * 256 ^ second.length + value second := by
  rw [value, List.foldl_append, foldl_value]
  rfl

theorem value_eq_zero_iff {digits : List UInt8} : value digits = 0 ↔ ∀ digit ∈ digits, digit = 0 := by
  induction digits with
  | nil => simp [value]
  | cons digit digits ih =>
      have hPos : 256 ^ digits.length ≠ 0 := by positivity
      rw [value_cons, Nat.add_eq_zero_iff, Nat.mul_eq_zero, or_iff_left hPos, ih,
        List.forall_mem_cons, ← UInt8.toNat_inj]
      rfl

/-- A word is small when its leading bytes are zero. -/
theorem leading_bytes_all_zero_iff (skip keep : ℕ) (h : skip + keep = 32) (word : BitVec 256) :
    ((bytes word).take skip).all (· == 0) = true ↔ word.toNat < 256 ^ keep := by
  have hLength : ((bytes word).drop skip).length = keep := by
    rw [List.length_drop, bytes_length]
    omega
  have hValue : value (bytes word) = word.toNat := value_bigEndian_of_lt word.isLt
  have hSplit := value_append ((bytes word).take skip) ((bytes word).drop skip)
  have hLow := value_lt ((bytes word).drop skip)
  rw [List.take_append_drop, hValue, hLength] at hSplit
  rw [hLength] at hLow
  simp only [List.all_eq_true, beq_iff_eq]
  rw [← value_eq_zero_iff]
  constructor
  · intro hZero
    rw [hSplit, hZero, Nat.zero_mul, Nat.zero_add]
    exact hLow
  · intro hSmall
    by_contra hNe
    have hOne : 1 * 256 ^ keep ≤ value ((bytes word).take skip) * 256 ^ keep :=
      Nat.mul_le_mul_right _ (Nat.one_le_iff_ne_zero.mpr hNe)
    omega

/-- The other bytes of a small word have its value. -/
theorem value_drop_bytes (skip keep : ℕ) (h : skip + keep = 32) {word : BitVec 256}
    (hSmall : word.toNat < 256 ^ keep) : value ((bytes word).drop skip) = word.toNat := by
  have hDigits := bigEndian_add_of_lt hSmall skip
  rw [h] at hDigits
  rw [bytes, hDigits, List.drop_left' List.length_replicate, value_bigEndian_of_lt hSmall]

theorem wordAt_succ (data : List UInt8) (index : ℕ) :
    wordAt data (index + 1) = wordAt (data.drop 32) index := by
  rw [wordAt, wordAt, List.drop_drop, Nat.mul_succ, Nat.add_comm]

/-- Encoded words are read back. -/
theorem wordAt_encode {words : List (BitVec 256)} {index : ℕ} {word : BitVec 256}
    (h : words[index]? = some word) : wordAt (encode words) index = word := by
  induction words generalizing index with
  | nil => cases h
  | cons first words ih =>
      rw [encode_cons]
      cases index with
      | zero =>
          obtain rfl : first = word := by simpa using h
          rw [wordAt, Nat.mul_zero, List.drop_zero, List.take_left' (bytes_length first), bytes,
            value_bigEndian_of_lt first.isLt, BitVec.ofNat_toNat, BitVec.setWidth_eq]
      | succ index =>
          rw [wordAt_succ, List.drop_left' (bytes_length first)]
          exact ih (by simpa using h)

theorem bytes_wordAt_zero {data : List UInt8} (h : 32 ≤ data.length) :
    bytes (wordAt data 0) = data.take 32 := by
  have hLength : (data.take 32).length = 32 := by
    rw [List.length_take]
    omega
  have hBound : value (data.take 32) < 2 ^ 256 := by
    have hLt := value_lt (data.take 32)
    rw [hLength] at hLt
    exact hLt
  have hDigits := bigEndian_value (data.take 32)
  rw [hLength] at hDigits
  rw [wordAt, bytes, Nat.mul_zero, List.drop_zero, BitVec.toNat_ofNat,
    Nat.mod_eq_of_lt hBound, hDigits]

/-- A byte string of whole words is the encoding of its words. -/
theorem encode_wordAt {data : List UInt8} {count : ℕ} (h : data.length = count * 32) :
    encode ((List.range count).map (wordAt data)) = data := by
  induction count generalizing data with
  | zero =>
      rw [Nat.zero_mul] at h
      rw [List.length_eq_zero_iff.mp h]
      rfl
  | succ count ih =>
      rw [Nat.succ_mul] at h
      have hRest : (data.drop 32).length = count * 32 := by
        rw [List.length_drop, h, Nat.add_sub_cancel]
      have hTail : (List.range count).map (wordAt data ∘ Nat.succ) =
          (List.range count).map (wordAt (data.drop 32)) :=
        List.map_congr_left fun index _ => wordAt_succ data index
      rw [List.range_succ_eq_map, List.map_cons, List.map_map, hTail, encode_cons, ih hRest,
        bytes_wordAt_zero (by omega), List.take_append_drop]

end Words
