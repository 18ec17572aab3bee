import Mathlib.Tactic.Common

/-!
Loops over a state that is kept when the loop fails or ends early.
-/

namespace Loops

universe u v w x

/-- A loop that stops at the first failure, with the state before the step that failed. -/
def foldStop {ε : Type u} {σ : Type v} {ρ : Type w} (step : σ → ρ → Except ε σ) :
    List ρ → σ → Except ε Unit × σ
  | [], s => (.ok (), s)
  | row :: rows, s =>
      match step s row with
      | .error e => (.error e, s)
      | .ok s' => foldStop step rows s'

/-- One computation fails as another does, or both succeed with related results. -/
inductive Follows {ε : Type u} {σ : Type v} {τ : Type x} (R : σ → τ → Prop) :
    Except ε σ → Except ε τ → Prop
  | error (e : ε) : Follows R (.error e) (.error e)
  | ok {s : σ} {t : τ} (h : R s t) : Follows R (.ok s) (.ok t)

/-- If the steps of such a loop follow those of a loop that forgets its state, so does the loop. -/
theorem foldStop_follows {ε : Type u} {σ : Type v} {τ : Type x} {ρ : Type w}
    {step : σ → ρ → Except ε σ} {step' : τ → ρ → Except ε τ} {R : σ → τ → Prop}
    (hStep : ∀ s t row, R s t → Follows R (step s row) (step' t row))
    (rows : List ρ) {s : σ} {t : τ} (h : R s t) :
    (∃ e s', foldStop step rows s = (.error e, s') ∧ rows.foldlM step' t = .error e) ∨
      ∃ s' t', foldStop step rows s = (.ok (), s') ∧ rows.foldlM step' t = .ok t' ∧ R s' t' := by
  induction rows generalizing s t with
  | nil => exact Or.inr ⟨s, t, rfl, rfl, h⟩
  | cons row rows ih =>
      rw [List.foldlM_cons, foldStop]
      have hRow := hStep s t row h
      generalize step s row = out at hRow ⊢
      generalize step' t row = out' at hRow ⊢
      cases hRow with
      | error e => exact Or.inl ⟨e, s, rfl, rfl⟩
      | ok hNext => exact ih hNext

/-- A loop that goes on until a step has a result, with a bound on its steps. The steps are told how
many may follow. -/
def runUntil {σ : Type u} {ρ : Type v} (step : ℕ → σ → Option ρ × σ) : ℕ → σ → Option ρ × σ
  | 0, s => (none, s)
  | fuel + 1, s =>
      match step fuel s with
      | (some result, s') => (some result, s')
      | (none, s') => runUntil step fuel s'

end Loops
