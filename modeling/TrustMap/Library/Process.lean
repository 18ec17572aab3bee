import TrustMap.Library.Transaction

/-!
Processes: computations that run one transaction after the other. An error ends a process and
keeps what the transactions before it have committed.
-/

namespace Transaction

/-- A computation over a state that keeps the state it has reached when it stops with an error. -/
def Process (σ ε α : Type) := σ → Except ε α × σ

namespace Process

variable {σ ε α β : Type}

instance : Monad (Process σ ε) where
  pure a := fun s => (.ok a, s)
  bind m f := fun s =>
    match m s with
    | (.ok a, s') => f a s'
    | (.error e, s') => (.error e, s')

instance : MonadExceptOf ε (Process σ ε) where
  throw e := fun s => (.error e, s)
  tryCatch m handle := fun s =>
    match m s with
    | (.ok a, s') => (.ok a, s')
    | (.error e, s') => handle e s'

/-- A transaction as a step of a process. -/
def atomically (m : Tx σ ε α) : Process σ ε α := fun s =>
  match m s with
  | .ok (a, s') => (.ok a, s')
  | .error e => (.error e, s)

/-- The result of a computation that does not touch the state, with its error wrapped. -/
def check {δ : Type} (result : Except δ α) (wrap : δ → ε) : Process σ ε α :=
  match result with
  | .ok a => pure a
  | .error e => throw (wrap e)

/-! ## Running a process step by step -/

theorem pure_apply (a : α) (s : σ) : (pure a : Process σ ε α) s = (.ok a, s) := rfl

theorem throw_apply (e : ε) (s : σ) : (throw e : Process σ ε α) s = (.error e, s) := rfl

theorem bind_apply (m : Process σ ε α) (f : α → Process σ ε β) (s : σ) :
    (m >>= f) s = match m s with
      | (.ok a, s') => f a s'
      | (.error e, s') => (.error e, s') := rfl

variable {f : α → Process σ ε β} {m : Process σ ε α} {s : σ}

theorem bind_of_ok {s' : σ} {a : α} (h : m s = (.ok a, s')) : (m >>= f) s = f a s' := by
  rw [bind_apply, h]

theorem bind_of_error {s' : σ} {e : ε} (h : m s = (.error e, s')) :
    (m >>= f) s = (.error e, s') := by
  rw [bind_apply, h]

theorem bind_eq_ok {b : β} :
    ((m >>= f) s).1 = .ok b ↔ ∃ a s', m s = (.ok a, s') ∧ (f a s').1 = .ok b := by
  cases hFirst : m s with
  | mk result s' =>
      cases result with
      | error e => simp [bind_of_error hFirst]
      | ok a => simp [bind_of_ok hFirst]

theorem eq_of_fst {outcome : Except ε α × σ} {a : α} (h : outcome.1 = .ok a) :
    outcome = (.ok a, outcome.2) :=
  Prod.ext h rfl

theorem bind_run_eq_ok {s'' : σ} {b : β} :
    (m >>= f) s = (.ok b, s'') ↔ ∃ a s', m s = (.ok a, s') ∧ f a s' = (.ok b, s'') := by
  cases hFirst : m s with
  | mk result s' =>
      cases result with
      | error e => simp [bind_of_error hFirst]
      | ok a => simp [bind_of_ok hFirst]

theorem atomically_of_ok {m : Tx σ ε α} {s' : σ} {a : α} (h : m s = .ok (a, s')) :
    atomically m s = (.ok a, s') := by
  rw [atomically, h]

theorem atomically_of_error {m : Tx σ ε α} {e : ε} (h : m s = .error e) :
    atomically m s = (.error e, s) := by
  rw [atomically, h]

theorem atomically_eq_ok {m : Tx σ ε α} {s' : σ} {a : α} :
    atomically m s = (.ok a, s') ↔ m s = .ok (a, s') := by
  cases hRun : m s with
  | error e => simp [atomically_of_error hRun]
  | ok r =>
      obtain ⟨a', next⟩ := r
      simp [atomically_of_ok hRun]

theorem check_eq_ok {δ : Type} {result : Except δ α} {wrap : δ → ε} {s' : σ} {a : α} :
    (check result wrap : Process σ ε α) s = (.ok a, s') ↔ result = .ok a ∧ s = s' := by
  cases result with
  | error e => simp [check, throw_apply]
  | ok a' => simp [check, pure_apply]

end Process

end Transaction
