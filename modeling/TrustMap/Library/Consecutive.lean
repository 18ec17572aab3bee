import Mathlib.Order.Bounds.Basic

/-!
Neighbours in a set of a linear order, and what a new element does to them: it stands between its
nearest elements on both sides, and only those two are no longer next to each other.
-/

universe u

variable {α : Type u} [LinearOrder α]

/-- Two elements with no other one between them. -/
def Consecutive (S : Set α) (low high : α) : Prop :=
  low ∈ S ∧ high ∈ S ∧ low < high ∧ ∀ x ∈ S, ¬ (low < x ∧ x < high)

namespace Consecutive

variable {S : Set α} {k low high : α}

/-- The nearest elements on both sides of a missing one are consecutive. -/
theorem of_nearest (hk : k ∉ S) (hLow : IsGreatest {x | x ∈ S ∧ x < k} low)
    (hHigh : IsLeast {x | x ∈ S ∧ k < x} high) : Consecutive S low high := by
  refine ⟨hLow.1.1, hHigh.1.1, hLow.1.2.trans hHigh.1.2, ?_⟩
  rintro x hx ⟨hAbove, hBelow⟩
  rcases lt_trichotomy x k with hLt | rfl | hGt
  · exact absurd (hLow.2 ⟨hx, hLt⟩) (not_le.mpr hAbove)
  · exact hk hx
  · exact absurd (hHigh.2 ⟨hx, hGt⟩) (not_le.mpr hBelow)

theorem low_nearest (h : Consecutive S low high) (hLow : low < k) (hHigh : k < high) :
    IsGreatest {x | x ∈ S ∧ x < k} low := by
  refine ⟨⟨h.1, hLow⟩, ?_⟩
  rintro x ⟨hx, hLt⟩
  by_contra hAbove
  exact h.2.2.2 x hx ⟨not_le.mp hAbove, hLt.trans hHigh⟩

theorem high_nearest (h : Consecutive S low high) (hLow : low < k) (hHigh : k < high) :
    IsLeast {x | x ∈ S ∧ k < x} high := by
  refine ⟨⟨h.2.1, hHigh⟩, ?_⟩
  rintro x ⟨hx, hGt⟩
  by_contra hBelow
  exact h.2.2.2 x hx ⟨hLow.trans hGt, not_le.mp hBelow⟩

/-- The neighbours after a new element has been put in. -/
theorem insert_iff (hk : k ∉ S) :
    Consecutive (insert k S) low high ↔
      (high = k ∧ IsGreatest {x | x ∈ S ∧ x < k} low) ∨
        (low = k ∧ IsLeast {x | x ∈ S ∧ k < x} high) ∨
        (Consecutive S low high ∧ ¬ (low < k ∧ k < high)) := by
  constructor
  · rintro ⟨hLowMem, hHighMem, hLt, hNone⟩
    rcases hHighMem with rfl | hHighMem
    · left
      rcases hLowMem with rfl | hLowMem
      · exact absurd hLt (lt_irrefl _)
      refine ⟨rfl, ⟨hLowMem, hLt⟩, ?_⟩
      rintro x ⟨hx, hxLt⟩
      by_contra hAbove
      exact hNone x (Or.inr hx) ⟨not_le.mp hAbove, hxLt⟩
    · right
      rcases hLowMem with rfl | hLowMem
      · left
        refine ⟨rfl, ⟨hHighMem, hLt⟩, ?_⟩
        rintro x ⟨hx, hxGt⟩
        by_contra hBelow
        exact hNone x (Or.inr hx) ⟨hxGt, not_le.mp hBelow⟩
      · right
        exact ⟨⟨hLowMem, hHighMem, hLt, fun x hx => hNone x (Or.inr hx)⟩, hNone k (Or.inl rfl)⟩
  · rintro (⟨rfl, hLow⟩ | ⟨rfl, hHigh⟩ | ⟨h, hOutside⟩)
    · refine ⟨Or.inr hLow.1.1, Or.inl rfl, hLow.1.2, ?_⟩
      rintro x (rfl | hx) ⟨hAbove, hBelow⟩
      · exact lt_irrefl _ hBelow
      · exact absurd (hLow.2 ⟨hx, hBelow⟩) (not_le.mpr hAbove)
    · refine ⟨Or.inl rfl, Or.inr hHigh.1.1, hHigh.1.2, ?_⟩
      rintro x (rfl | hx) ⟨hAbove, hBelow⟩
      · exact lt_irrefl _ hAbove
      · exact absurd (hHigh.2 ⟨hx, hAbove⟩) (not_le.mpr hBelow)
    · refine ⟨Or.inr h.1, Or.inr h.2.1, h.2.2.1, ?_⟩
      rintro x (rfl | hx)
      · exact hOutside
      · exact h.2.2.2 x hx

end Consecutive
