import Mathlib.Algebra.Order.Field.Basic
import Mathlib.Algebra.Ring.Parity
import Mathlib.Data.Rat.Cast.Order
import Mathlib.Tactic.FieldSimp
import Mathlib.Tactic.Linarith
import Mathlib.Tactic.Ring

/-!
Rounding a rational number to the nearest natural number, with ties to even.
-/

namespace HalfEven

/-- A nearest natural number, the even one of two. -/
def RoundsTo (q : ℚ) (n : ℕ) : Prop :=
  |q - n| < 1 / 2 ∨ (|q - n| = 1 / 2 ∧ Even n)

variable {q : ℚ} {m n : ℕ}

theorem RoundsTo.near (h : RoundsTo q n) : |q - n| ≤ 1 / 2 := by
  rcases h with h | ⟨h, -⟩
  · exact h.le
  · exact h.le

/-- Two neighbours are both nearest only to the middle between them, and one of them is odd. -/
theorem RoundsTo.not_below (hm : RoundsTo q m) (hn : RoundsTo q n) : ¬ m < n := by
  intro hLt
  have hStep : (m : ℚ) + 1 ≤ n := by exact_mod_cast hLt
  obtain ⟨-, hBelow⟩ := abs_le.mp hm.near
  obtain ⟨hAbove, -⟩ := abs_le.mp hn.near
  have hMiddle : q - m = 1 / 2 := by linarith
  have hNext : n = m + 1 := by
    have : (n : ℚ) = (m + 1 : ℕ) := by push_cast; linarith
    exact_mod_cast this
  have hMiddle' : q - n = -(1 / 2) := by
    rw [hNext]
    push_cast
    linarith
  have hEven : Even m := by
    rcases hm with hNear | ⟨-, hEven⟩
    · rw [hMiddle] at hNear
      norm_num at hNear
    · exact hEven
  have hEven' : Even n := by
    rcases hn with hNear | ⟨-, hEven⟩
    · rw [hMiddle', abs_neg] at hNear
      norm_num at hNear
    · exact hEven
  rw [hNext, Nat.even_add_one] at hEven'
  exact hEven' hEven

theorem RoundsTo.unique (hm : RoundsTo q m) (hn : RoundsTo q n) : m = n :=
  le_antisymm (not_lt.mp (hn.not_below hm)) (not_lt.mp (hm.not_below hn))

theorem roundsTo_natCast (n : ℕ) : RoundsTo n n := by
  left
  rw [sub_self, abs_zero]
  norm_num

/-- The quotient of two natural numbers, rounded by twice the remainder. -/
def divide (dividend divisor : ℕ) : ℕ :=
  let quotient := dividend / divisor
  let twiceRemainder := 2 * (dividend % divisor)
  if divisor < twiceRemainder ∨ (twiceRemainder = divisor ∧ quotient % 2 = 1) then quotient + 1
  else quotient

theorem roundsTo_divide (dividend : ℕ) {divisor : ℕ} (hDivisor : 0 < divisor) :
    RoundsTo ((dividend : ℚ) / divisor) (divide dividend divisor) := by
  have hPos : (0 : ℚ) < divisor := by exact_mod_cast hDivisor
  have hSplit : (divisor : ℚ) * (dividend / divisor : ℕ) + (dividend % divisor : ℕ) = dividend := by
    exact_mod_cast Nat.div_add_mod dividend divisor
  have hSmall : ((dividend % divisor : ℕ) : ℚ) < divisor := by
    exact_mod_cast Nat.mod_lt dividend hDivisor
  have hNonneg : (0 : ℚ) ≤ ((dividend % divisor : ℕ) : ℚ) := Nat.cast_nonneg _
  have hQuotient : (dividend : ℚ) / divisor - (dividend / divisor : ℕ) =
      (dividend % divisor : ℕ) / divisor := by
    rw [← hSplit]
    field_simp
    ring
  have hLess : ((dividend % divisor : ℕ) : ℚ) / divisor < 1 := (div_lt_one hPos).mpr hSmall
  have hFraction : (0 : ℚ) ≤ ((dividend % divisor : ℕ) : ℚ) / divisor := div_nonneg hNonneg hPos.le
  have hTwice : ((dividend % divisor : ℕ) : ℚ) / divisor < 1 / 2 ↔
      2 * (dividend % divisor) < divisor := by
    rw [div_lt_div_iff₀ hPos two_pos, one_mul, mul_comm]
    exact_mod_cast Iff.rfl
  have hHalf : ((dividend % divisor : ℕ) : ℚ) / divisor = 1 / 2 ↔
      2 * (dividend % divisor) = divisor := by
    rw [div_eq_div_iff hPos.ne' two_ne_zero, one_mul, mul_comm]
    exact_mod_cast Iff.rfl
  rw [divide]
  generalize hRest : ((dividend % divisor : ℕ) : ℚ) / divisor = rest at *
  split
  next hUp =>
    have hNext : (dividend : ℚ) / divisor - (dividend / divisor + 1 : ℕ) = -(1 - rest) := by
      push_cast
      linarith
    rw [RoundsTo, hNext, abs_neg, abs_of_nonneg (by linarith)]
    rcases hUp with hMore | ⟨hTie, hOdd⟩
    · left
      have hNot : ¬ rest ≤ 1 / 2 := by
        rw [le_iff_lt_or_eq, hTwice, hHalf]
        omega
      linarith [not_le.mp hNot]
    · right
      refine ⟨by linarith [hHalf.mpr hTie], ?_⟩
      rw [Nat.even_add_one, Nat.not_even_iff]
      exact hOdd
  next hDown =>
    rw [RoundsTo, hQuotient, abs_of_nonneg hFraction, hTwice, hHalf, Nat.even_iff]
    omega

end HalfEven
