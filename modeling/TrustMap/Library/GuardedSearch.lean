import TrustMap.Library.BestFirst

/-!
Best-first search that stops with an error when a candidate it expands has an edge that may not be
used, for example because the sum of the costs overflows.
-/

universe u v w x

namespace BestFirst

variable {N : Type u} {E : Type v} {C : Type w} {K : Type x} [LinearOrder K] [DecidableEq N]

/-- How a guarded search ends. -/
inductive Ending (C : Type w)
  | found (candidate : C)
  | exhausted
  | failed
  deriving DecidableEq

/-- The search for a goal that fails when the candidate to be expanded has an edge that fails. -/
def guardedRun (p : BestFirst N E C K) (fails : C → E → Bool) (goal : N) :
    ℕ → State N C → Option (Ending C)
  | 0, _ => none
  | fuel + 1, s =>
      match popLeastBy p.key s.queue with
      | none => some .exhausted
      | some (current, rest) =>
          if (s.best (p.node current)).map p.key = some (p.key current) then
            if p.node current = goal then some (.found current)
            else if (p.adjacency (p.node current)).any (fails current) then some .failed
            else p.guardedRun fails goal fuel
              ((p.adjacency (p.node current)).foldl (p.relax current) { s with queue := rest })
          else p.guardedRun fails goal fuel { s with queue := rest }

variable {p : BestFirst N E C K} {fails : C → E → Bool} {start : C} {settled : List N}
  {s : State N C} {goal : N}

/-- How a search for a goal from a first candidate may end: with a candidate for the goal that has the
smallest key of all, because there is none, or at an edge of a candidate that fails. -/
def Ends (p : BestFirst N E C K) (fails : C → E → Bool) (start : C) (goal : N)
    (ending : Option (Ending C)) : Prop :=
  (∃ c, ending = some (.found c) ∧ p.Reached start c ∧ p.node c = goal ∧
      ∀ d, p.Reached start d → p.node d = goal → p.key c ≤ p.key d) ∨
    (ending = some .exhausted ∧ ∀ d, p.Reached start d → p.node d ≠ goal) ∨
    (ending = some .failed ∧
      ∃ c, p.Reached start c ∧ ∃ e ∈ p.adjacency (p.node c), fails c e)

/-- How the guarded search ends once it has enough fuel. -/
theorem guardedRun_ends {edges : List E} {source : E → N} (hLawful : p.Lawful)
    (hBounded : p.Bounded edges source) {fuel : ℕ}
    (h : p.Invariant start settled s) (hRelaxed : p.Relaxed settled s) (hGoal : goal ∉ settled)
    (hFuel : s.queue.length + unsettled edges source settled < fuel) :
    p.Ends fails start goal (p.guardedRun fails goal fuel s) := by
  induction fuel generalizing s settled with
  | zero => omega
  | succ fuel ih =>
      rw [guardedRun]
      cases hPop : popLeastBy p.key s.queue with
      | none =>
          refine Or.inr (Or.inl ⟨rfl, fun d hReached hNode => hGoal ?_⟩)
          rcases frontier hLawful h hRelaxed hReached with ⟨c, hMem, -⟩ | ⟨hSettled, -⟩
          · rw [popLeastBy_eq_none.mp hPop] at hMem
            exact absurd hMem List.not_mem_nil
          · exact hNode ▸ hSettled
      | some popped =>
          obtain ⟨current, rest⟩ := popped
          obtain ⟨hPerm, -⟩ := popLeastBy_eq_some hPop
          have hQueue : s.queue.length = rest.length + 1 := by
            simpa using hPerm.length_eq
          dsimp only
          by_cases hFresh : (s.best (p.node current)).map p.key = some (p.key current)
          · obtain ⟨hNew, hOptimal, hSettle⟩ := h.settle hLawful hRelaxed hPop hFresh
            rw [if_pos hFresh]
            have hReached : p.Reached start current :=
              h.reached current (hPerm.mem_iff.mpr List.mem_cons_self)
            by_cases hNode : p.node current = goal
            · rw [if_pos hNode]
              exact Or.inl ⟨current, rfl, hReached, hNode, hNode ▸ hOptimal⟩
            · rw [if_neg hNode]
              by_cases hAny : (p.adjacency (p.node current)).any (fails current) = true
              · rw [if_pos hAny]
                exact Or.inr (Or.inr ⟨rfl, current, hReached, List.any_eq_true.mp hAny⟩)
              · rw [if_neg hAny]
                obtain ⟨hInvariant, hOnward, hCovers, hLength⟩ :=
                  Invariant.expand hLawful hReached (fun _ hMem => hMem) hSettle
                apply ih hInvariant
                · exact Relaxed.expand hLawful hRelaxed hFresh hOnward hCovers
                · simpa [not_or] using ⟨Ne.symm hNode, hGoal⟩
                · have hOut := unsettled_cons hBounded hNew
                  dsimp only at hLength
                  omega
          · rw [if_neg hFresh]
            exact ih (h.skip hPop hFresh) hRelaxed hGoal (by dsimp only; omega)

/-- The guarded search from a first candidate. -/
theorem guardedRun_init {edges : List E} {source : E → N} (hLawful : p.Lawful)
    (hBounded : p.Bounded edges source) {fuel : ℕ} (hFuel : edges.length + 1 < fuel) :
    p.Ends fails start goal (p.guardedRun fails goal fuel (.init p start)) :=
  guardedRun_ends hLawful hBounded invariant_init (by simp [Relaxed]) (by simp) (fuel_init hFuel)

/-! ## Without a guard -/

/-- The ending of a search that nothing makes fail. -/
def Outcome.ending : Outcome C → Ending C
  | .found c => .found c
  | .exhausted _ => .exhausted

theorem guardedRun_false {fuel : ℕ} :
    p.guardedRun (fun _ _ => false) goal fuel s = (p.run goal fuel s).map Outcome.ending := by
  induction fuel generalizing s with
  | zero => rfl
  | succ fuel ih =>
      rw [guardedRun, run]
      cases hPop : popLeastBy p.key s.queue with
      | none => rfl
      | some popped =>
          obtain ⟨current, rest⟩ := popped
          have hNever : ¬ (p.adjacency (p.node current)).any (fun _ => false) = true := by simp
          dsimp only
          by_cases hFresh : (s.best (p.node current)).map p.key = some (p.key current)
          · rw [if_pos hFresh, if_pos hFresh]
            by_cases hNode : p.node current = goal
            · rw [if_pos hNode, if_pos hNode]
              rfl
            · rw [if_neg hNode, if_neg hNode, if_neg hNever, ih]
          · rw [if_neg hFresh, if_neg hFresh, ih]

/-- The search from a first candidate: it ends with a candidate for the goal that has the smallest key
of all, or because there is none. -/
theorem run_init {edges : List E} {source : E → N} (hLawful : p.Lawful)
    (hBounded : p.Bounded edges source) {fuel : ℕ} (hFuel : edges.length + 1 < fuel) :
    (∃ c, p.run goal fuel (.init p start) = some (.found c) ∧ p.Reached start c ∧ p.node c = goal ∧
        ∀ d, p.Reached start d → p.node d = goal → p.key c ≤ p.key d) ∨
      (∃ overflowed, p.run goal fuel (.init p start) = some (.exhausted overflowed)) ∧
        ∀ d, p.Reached start d → p.node d ≠ goal := by
  obtain ⟨c, hRun, hReached⟩ | ⟨hRun, hNone⟩ | ⟨-, _, -, _, -, hFails⟩ :=
    @guardedRun_init _ _ _ _ _ _ p (fun _ _ => false) start goal edges source hLawful hBounded
      fuel hFuel
  · rw [guardedRun_false] at hRun
    obtain ⟨outcome, hOutcome, hEnding⟩ := Option.map_eq_some_iff.mp hRun
    cases outcome with
    | found d =>
        cases hEnding
        exact Or.inl ⟨c, hOutcome, hReached⟩
    | exhausted overflowed => cases hEnding
  · rw [guardedRun_false] at hRun
    obtain ⟨outcome, hOutcome, hEnding⟩ := Option.map_eq_some_iff.mp hRun
    cases outcome with
    | found d => cases hEnding
    | exhausted overflowed => exact Or.inr ⟨⟨overflowed, hOutcome⟩, hNone⟩
  · -- no edge fails
    cases hFails

end BestFirst
