import Mathlib.Data.List.Flatten
import Mathlib.Data.Set.Function
import Mathlib.Tactic.Linarith

/-!
Fixed-width big-endian encodings of machine words and their concatenations.
Every field has a known width, so a concatenation determines its fields. The
last section reads the bits of machine indices as natural-number arithmetic.
-/

namespace Words

/-- The last `width` base-256 digits of a number, most significant first. -/
def bigEndian : ℕ → ℕ → List UInt8
  | 0, _ => []
  | width + 1, value => UInt8.ofNat (value / 256 ^ width) :: bigEndian width value

@[simp] theorem bigEndian_length (width value : ℕ) : (bigEndian width value).length = width := by
  induction width with
  | zero => rfl
  | succ width ih => simp [bigEndian, ih]

theorem mod_eq_of_bigEndian_eq {width a b : ℕ} (h : bigEndian width a = bigEndian width b) :
    a % 256 ^ width = b % 256 ^ width := by
  induction width with
  | zero => simp [Nat.mod_one]
  | succ width ih =>
      simp only [bigEndian, List.cons.injEq] at h
      have hDigit : a / 256 ^ width % 256 = b / 256 ^ width % 256 := by
        simpa using congrArg UInt8.toNat h.1
      rw [pow_succ, Nat.mod_mul, Nat.mod_mul, hDigit, ih h.2]

theorem bigEndian_injOn (width : ℕ) :
    Set.InjOn (bigEndian width) {value | value < 256 ^ width} := by
  intro a ha b hb h
  have hMod := mod_eq_of_bigEndian_eq h
  rwa [Nat.mod_eq_of_lt ha, Nat.mod_eq_of_lt hb] at hMod

/-- The bytes of a 256-bit word. -/
def bytes (word : BitVec 256) : List UInt8 :=
  bigEndian 32 word.toNat

@[simp] theorem bytes_length (word : BitVec 256) : (bytes word).length = 32 :=
  bigEndian_length _ _

theorem bytes_injective : Function.Injective bytes := by
  intro a b h
  exact BitVec.eq_of_toNat_eq (bigEndian_injOn 32 a.isLt b.isLt h)

/-- The concatenated bytes of a list of words. -/
def encode (words : List (BitVec 256)) : List UInt8 :=
  words.flatMap bytes

@[simp] theorem encode_nil : encode [] = [] := rfl

@[simp] theorem encode_cons (word : BitVec 256) (words : List (BitVec 256)) :
    encode (word :: words) = bytes word ++ encode words := rfl

theorem encode_length (words : List (BitVec 256)) :
    (encode words).length = 32 * words.length := by
  induction words with
  | nil => rfl
  | cons word words ih =>
      rw [encode_cons, List.length_append, bytes_length, ih, List.length_cons]
      omega

theorem encode_injective : Function.Injective encode := by
  intro a
  induction a with
  | nil =>
      intro b h
      have hLength := congrArg List.length h
      rw [encode_length, encode_length, List.length_nil] at hLength
      exact (List.length_eq_zero_iff.mp (by omega)).symm
  | cons x a ih =>
      intro b h
      cases b with
      | nil =>
          have hLength := congrArg List.length h
          simp [encode_length] at hLength
      | cons y b =>
          rw [encode_cons, encode_cons] at h
          obtain ⟨hHead, hTail⟩ := List.append_inj h (by simp)
          rw [bytes_injective hHead, ih hTail]

/-- A 32-bit number as a word. -/
def ofUInt32 (number : UInt32) : BitVec 256 :=
  BitVec.ofNat 256 number.toNat

theorem ofUInt32_injective : Function.Injective ofUInt32 := by
  intro a b h
  have hNat := congrArg BitVec.toNat h
  simp only [ofUInt32, BitVec.toNat_ofNat] at hNat
  have ha := a.toNat_lt
  have hb := b.toNat_lt
  rw [Nat.mod_eq_of_lt (by omega), Nat.mod_eq_of_lt (by omega)] at hNat
  exact UInt32.toNat_inj.mp hNat

/-- Widening loses nothing. -/
theorem setWidth_injective {m n : ℕ} (h : m ≤ n) :
    Function.Injective (BitVec.setWidth n : BitVec m → BitVec n) := by
  intro a b hEq
  have hNat := congrArg BitVec.toNat hEq
  rw [BitVec.toNat_setWidth_of_le h, BitVec.toNat_setWidth_of_le h] at hNat
  exact BitVec.eq_of_toNat_eq hNat

/-- A 64-bit number as a word. -/
def ofUInt64 (number : UInt64) : BitVec 256 :=
  BitVec.ofNat 256 number.toNat

/-- The number written by big-endian bytes. -/
def value (digits : List UInt8) : ℕ :=
  digits.foldl (fun acc digit => acc * 256 + digit.toNat) 0

/-- The word at the given position of a byte string. -/
def wordAt (data : List UInt8) (index : ℕ) : BitVec 256 :=
  BitVec.ofNat 256 (value ((data.drop (32 * index)).take 32))

theorem uint32_and_one_eq_zero_iff (index : UInt32) :
    index &&& 1 = 0 ↔ index.toNat % 2 = 0 := by
  rw [← UInt32.toNat_inj]
  simp [Nat.and_one_is_mod]

theorem uint32_shiftRight_one (index : UInt32) : (index >>> 1).toNat = index.toNat / 2 := by
  simp [Nat.shiftRight_eq_div_pow]

theorem uint64_and_one_eq_zero_iff (index : UInt64) :
    index &&& 1 = 0 ↔ index.toNat % 2 = 0 := by
  rw [← UInt64.toNat_inj]
  simp [Nat.and_one_is_mod]

theorem uint64_shiftRight_one (index : UInt64) : (index >>> 1).toNat = index.toNat / 2 := by
  simp [Nat.shiftRight_eq_div_pow]

/-- A shift of one by less than the word size does not overflow. -/
theorem uint64_one_shiftLeft {count : UInt8} (h : count.toNat < 64) :
    ((1 : UInt64) <<< count.toUInt64).toNat = 2 ^ count.toNat := by
  have hPow : 2 ^ count.toNat < 2 ^ 64 := Nat.pow_lt_pow_right (by decide) h
  simp only [UInt64.toNat_shiftLeft, UInt8.toNat_toUInt64, UInt64.toNat_one, Nat.one_shiftLeft]
  rw [Nat.mod_eq_of_lt h, Nat.mod_eq_of_lt hPow]

end Words

/-- Machine words in the order of the numbers they stand for. -/
instance Words.linearOrderUInt64 : LinearOrder UInt64 where
  le_refl a := UInt64.le_iff_toNat_le.mpr (Nat.le_refl _)
  le_trans a b c hab hbc := UInt64.le_iff_toNat_le.mpr
    (Nat.le_trans (UInt64.le_iff_toNat_le.mp hab) (UInt64.le_iff_toNat_le.mp hbc))
  lt_iff_le_not_ge a b := by
    rw [UInt64.lt_iff_toNat_lt, UInt64.le_iff_toNat_le, UInt64.le_iff_toNat_le]
    omega
  le_antisymm a b hab hba := UInt64.toNat_inj.mp
    (Nat.le_antisymm (UInt64.le_iff_toNat_le.mp hab) (UInt64.le_iff_toNat_le.mp hba))
  le_total a b := by
    rw [UInt64.le_iff_toNat_le, UInt64.le_iff_toNat_le]
    exact Nat.le_total _ _
  toDecidableLE := fun a b => inferInstanceAs (Decidable (a ≤ b))
  toDecidableEq := inferInstance
  toDecidableLT := fun a b => inferInstanceAs (Decidable (a < b))
