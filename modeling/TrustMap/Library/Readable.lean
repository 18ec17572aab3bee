import Mathlib.Data.Set.Function
import Mathlib.Data.Set.Prod

/-!
Codes that can be read from the front of a longer string: a code word and what follows it determine
both. Such codes are closed under concatenation, tagged alternatives and counted repetition, so
that a message made of fields is determined by its bytes if each field is.
-/

universe u v w

/-- The code words of the values in a set can be read from the front of any string. -/
def ReadableOn {α : Type u} {β : Type v} (code : α → List β) (S : Set α) : Prop :=
  ∀ ⦃a⦄, a ∈ S → ∀ ⦃b⦄, b ∈ S → ∀ ⦃rest rest' : List β⦄,
    code a ++ rest = code b ++ rest' → a = b ∧ rest = rest'

namespace ReadableOn

variable {α : Type u} {β : Type v} {γ : Type w} {code : α → List β} {S : Set α}

/-- Code words of one length. -/
theorem of_length {length : ℕ} (hLength : ∀ a ∈ S, (code a).length = length)
    (hInjective : Set.InjOn code S) : ReadableOn code S := by
  intro a ha b hb rest rest' h
  obtain ⟨hCode, hRest⟩ := List.append_inj h ((hLength a ha).trans (hLength b hb).symm)
  exact ⟨hInjective ha hb hCode, hRest⟩

/-- A code for the images of values is one for the values. -/
theorem comp (h : ReadableOn code S) {f : γ → α} {T : Set γ} (hMaps : Set.MapsTo f T S)
    (hInjective : Set.InjOn f T) : ReadableOn (fun c => code (f c)) T := by
  intro a ha b hb rest rest' hEq
  obtain ⟨hSame, hRest⟩ := h (hMaps ha) (hMaps hb) hEq
  exact ⟨hInjective ha hb hSame, hRest⟩

/-- A whole string that is one code word determines its value. -/
theorem injOn (h : ReadableOn code S) : Set.InjOn code S := by
  intro a ha b hb hEq
  exact (@h a ha b hb [] [] (congrArg (· ++ []) hEq)).1

/-- An optional value behind one of two tags. -/
theorem option (h : ReadableOn code S) {absent present : β} (hTags : absent ≠ present) :
    ReadableOn (fun value : Option α => value.elim [absent] fun a => present :: code a)
      {value | ∀ a ∈ value, a ∈ S} := by
  intro a ha b hb rest rest' hEq
  cases a with
  | none =>
      cases b with
      | none => exact ⟨rfl, (List.cons.inj hEq).2⟩
      | some b => exact absurd (List.cons.inj hEq).1 hTags
  | some a =>
      cases b with
      | none => exact absurd (List.cons.inj hEq).1.symm hTags
      | some b =>
          obtain ⟨hSame, hRest⟩ := h (ha a rfl) (hb b rfl) (List.cons.inj hEq).2
          exact ⟨congrArg some hSame, hRest⟩

/-- As many code words as agreed. -/
theorem flatMap (h : ReadableOn code S) {values values' : List α} (hValues : ∀ a ∈ values, a ∈ S)
    (hValues' : ∀ a ∈ values', a ∈ S) (hLength : values.length = values'.length)
    {rest rest' : List β} (hEq : values.flatMap code ++ rest = values'.flatMap code ++ rest') :
    values = values' ∧ rest = rest' := by
  induction values generalizing values' with
  | nil =>
      obtain rfl : values' = [] := List.length_eq_zero_iff.mp hLength.symm
      exact ⟨rfl, hEq⟩
  | cons a values ih =>
      cases values' with
      | nil => cases hLength
      | cons b values' =>
          rw [List.flatMap_cons, List.flatMap_cons, List.append_assoc, List.append_assoc] at hEq
          obtain ⟨rfl, hTail⟩ :=
            h (hValues a List.mem_cons_self) (hValues' b List.mem_cons_self) hEq
          obtain ⟨rfl, hRest⟩ := ih (fun c hMem => hValues c (List.mem_cons_of_mem _ hMem))
            (fun c hMem => hValues' c (List.mem_cons_of_mem _ hMem)) (Nat.succ.inj hLength) hTail
          exact ⟨rfl, hRest⟩

/-- The number of code words, and the code words. -/
theorem counted (h : ReadableOn code S) {count : ℕ → List β} {bound : ℕ}
    (hCount : ReadableOn count {number | number < bound}) :
    ReadableOn (fun values : List α => count values.length ++ values.flatMap code)
      {values | values.length < bound ∧ ∀ a ∈ values, a ∈ S} := by
  intro values hValues values' hValues' rest rest' hEq
  dsimp only at hEq
  rw [List.append_assoc, List.append_assoc] at hEq
  obtain ⟨hLength, hEq⟩ := hCount hValues.1 hValues'.1 hEq
  exact h.flatMap hValues.2 hValues'.2 hLength hEq

/-- Letters as they are. -/
theorem letter : ReadableOn (fun letter : β => [letter]) Set.univ := by
  intro a _ b _ rest rest' hEq
  exact ⟨(List.cons.inj hEq).1, (List.cons.inj hEq).2⟩

end ReadableOn
