import Mathlib.Order.Defs.Unbundled
import Mathlib.Tactic.Common

/-!
Transactions: computations that read and write a state and either commit or stop with an error.
An error rolls the state back. `Within` bounds how a transaction may move the state, `Ensures` is
its partial-correctness triple, and `Respects` compares two runs of it from related states; each
comes with one rule for each way of building a transaction.
-/

namespace Transaction

variable {σ ε α β ι : Type}

/-- A computation over a state that may stop with an error. -/
abbrev Tx (σ ε α : Type) := StateT σ (Except ε) α

/-- Read a part of the state. -/
def gets (f : σ → α) : Tx σ ε α :=
  fun s => .ok (f s, s)

/-- A check that has to hold for the transaction to go on. -/
def require (p : Prop) [Decidable p] (e : ε) : Tx σ ε Unit :=
  if p then pure () else throw e

/-- The value of an option that has to be there for the transaction to go on. -/
def expect (value : Option α) (e : ε) : Tx σ ε α :=
  match value with
  | some a => pure a
  | none => throw e

/-- The result of a computation that does not touch the state, with its error wrapped. -/
def check {δ : Type} (result : Except δ α) (wrap : δ → ε) : Tx σ ε α :=
  match result with
  | .ok a => pure a
  | .error e => throw (wrap e)

/-- A step that is only taken under a condition. -/
def when (p : Prop) [Decidable p] (m : Tx σ ε Unit) : Tx σ ε Unit :=
  if p then m else pure ()

/-- Run a step for every item in order, and say whether one of them changed something. -/
def anyChanged (step : ι → Tx σ ε Bool) : List ι → Tx σ ε Bool
  | [] => pure false
  | item :: items => do
      let changed ← step item
      let others ← anyChanged step items
      return changed || others

/-- The state after the transaction: the new state if it commits, the old one if it fails. -/
def commit (m : Tx σ ε α) (s : σ) : σ :=
  match m s with
  | .ok (_, s') => s'
  | .error _ => s

variable {s : σ} {e : ε} {p : Prop} {f : α → Tx σ ε β}

theorem commit_of_ok {m : Tx σ ε α} {s' : σ} {a : α} (h : m s = .ok (a, s')) : commit m s = s' := by
  simp [commit, h]

theorem commit_of_error {m : Tx σ ε α} (h : m s = .error e) : commit m s = s := by
  simp [commit, h]

theorem bind_apply (m : Tx σ ε α) (f : α → Tx σ ε β) (s : σ) :
    (m >>= f) s = (m s).bind fun r => f r.1 r.2 := rfl

/-! ## Running a transaction step by step -/

theorem pure_apply (a : α) (s : σ) : (pure a : Tx σ ε α) s = .ok (a, s) := rfl

theorem throw_apply (e : ε) (s : σ) : (throw e : Tx σ ε α) s = .error e := rfl

theorem bind_of_ok {m : Tx σ ε α} {s' : σ} {a : α} (h : m s = .ok (a, s')) :
    (m >>= f) s = f a s' := by
  rw [bind_apply, h]
  rfl

theorem bind_of_error {m : Tx σ ε α} (h : m s = .error e) : (m >>= f) s = .error e := by
  rw [bind_apply, h]
  rfl

theorem gets_bind_apply (g : σ → α) (f : α → Tx σ ε β) (s : σ) :
    (gets g >>= f) s = f (g s) s := rfl

theorem require_bind_apply [Decidable p] (f : Unit → Tx σ ε β) (s : σ) :
    (require p e >>= f) s = if p then f () s else .error e := by
  by_cases hp : p
  · rw [if_pos hp]
    exact bind_of_ok (by rw [require, if_pos hp, pure_apply])
  · rw [if_neg hp]
    exact bind_of_error (by rw [require, if_neg hp, throw_apply])

theorem expect_some_bind_apply {a : α} (f : α → Tx σ ε β) (s : σ) :
    (expect (some a) e >>= f) s = f a s := rfl

theorem bind_eq_ok {m : Tx σ ε α} {s' : σ} {b : β} :
    (m >>= f) s = .ok (b, s') ↔ ∃ a next, m s = .ok (a, next) ∧ f a next = .ok (b, s') := by
  rw [bind_apply]
  cases m s with
  | error e => simp [Except.bind]
  | ok r =>
      obtain ⟨a, next⟩ := r
      simp [Except.bind]

/-! ## How far a transaction moves the state -/

/-- A transaction that commits moves the state along `R`. -/
def Within (R : σ → σ → Prop) (m : Tx σ ε α) : Prop :=
  ∀ s a s', m s = .ok (a, s') → R s s'

namespace Within

variable {R : σ → σ → Prop} {m : Tx σ ε α}

theorem throw : Within R (throw e : Tx σ ε α) := by
  intro s a s' hRun
  exact absurd hRun (by simp [MonadExcept.throw, throwThe, MonadExceptOf.throw, StateT.lift])

theorem modify {g : σ → σ} (h : ∀ s, R s (g s)) : Within R (modify g : Tx σ ε PUnit) := by
  intro s a s' hRun
  obtain rfl : g s = s' := by
    have hPair : (PUnit.unit, g s) = (a, s') := Except.ok.inj hRun
    exact (Prod.mk.inj hPair).2
  exact h s

theorem ite [Decidable p] {n : Tx σ ε α} (hm : Within R m) (hn : Within R n) :
    Within R (if p then m else n) := by
  split
  · exact hm
  · exact hn

section Preorder

variable [IsPreorder σ R]

theorem pure {a : α} : Within R (pure a : Tx σ ε α) := by
  intro s a' s' hRun
  change Except.ok (a, s) = Except.ok (a', s') at hRun
  obtain ⟨-, rfl⟩ := Prod.mk.inj (Except.ok.inj hRun)
  exact refl_of R s

/-- The state moves along both parts. -/
theorem bind (hm : Within R m) (hf : ∀ a, Within R (f a)) : Within R (m >>= f) := by
  intro s b s'' hRun
  rw [bind_apply] at hRun
  cases hFirst : m s with
  | error e =>
      rw [hFirst] at hRun
      exact absurd hRun (by simp [Except.bind])
  | ok r =>
      rw [hFirst] at hRun
      exact trans_of R (hm s r.1 r.2 hFirst) (hf r.1 r.2 b s'' hRun)

/-- Committing moves the state along `R`, or not at all. -/
theorem commit (hm : Within R m) (s : σ) : R s (commit m s) := by
  cases hRun : m s with
  | error e =>
      rw [commit_of_error hRun]
      exact refl_of R s
  | ok outcome =>
      obtain ⟨a, s'⟩ := outcome
      rw [commit_of_ok hRun]
      exact hm s a s' hRun

theorem gets {g : σ → α} : Within R (Transaction.gets g : Tx σ ε α) := by
  intro s a s' hRun
  obtain rfl : s = s' := (Prod.mk.inj (Except.ok.inj hRun)).2
  exact refl_of R s

theorem require [Decidable p] : Within R (Transaction.require p e : Tx σ ε Unit) := by
  unfold Transaction.require
  exact ite pure throw

theorem expect {value : Option α} : Within R (expect value e : Tx σ ε α) := by
  cases value with
  | none => exact throw
  | some a => exact pure

theorem check {δ : Type} {result : Except δ α} {wrap : δ → ε} :
    Within R (check result wrap : Tx σ ε α) := by
  cases result with
  | error e => exact throw
  | ok a => exact pure

theorem when [Decidable p] {n : Tx σ ε Unit} (hn : Within R n) : Within R (when p n) :=
  ite hn pure

theorem anyChanged {step : ι → Tx σ ε Bool} {items : List ι} (h : ∀ item, Within R (step item)) :
    Within R (anyChanged step items) := by
  induction items with
  | nil => exact pure
  | cons item items ih => exact bind (h item) fun _ => bind ih fun _ => pure

end Preorder

end Within

/-! ## What a committed transaction ensures -/

/-- From a state that satisfies `P`, a transaction that commits ends in a state and with a result
that satisfy `Q`. -/
def Ensures (P : σ → Prop) (m : Tx σ ε α) (Q : α → σ → Prop) : Prop :=
  ∀ s, P s → ∀ a s', m s = .ok (a, s') → Q a s'

namespace Ensures

variable {P P' : σ → Prop} {Q Q' : α → σ → Prop} {m : Tx σ ε α}

theorem mono (h : Ensures P m Q) (hQ : ∀ a s, Q a s → Q' a s) : Ensures P m Q' :=
  fun s hP a s' hRun => hQ a s' (h s hP a s' hRun)

theorem pure {a : α} (h : ∀ s, P s → Q a s) : Ensures P (pure a : Tx σ ε α) Q := by
  intro s hP a' s' hRun
  change Except.ok (a, s) = Except.ok (a', s') at hRun
  obtain ⟨rfl, rfl⟩ := Prod.mk.inj (Except.ok.inj hRun)
  exact h s hP

theorem throw : Ensures P (throw e : Tx σ ε α) Q := by
  intro s _ a s' hRun
  exact absurd hRun (by simp [MonadExcept.throw, throwThe, MonadExceptOf.throw, StateT.lift])

/-- The rule of sequence. -/
theorem bind {R : α → σ → Prop} {S : β → σ → Prop} (hm : Ensures P m R)
    (hf : ∀ a, Ensures (R a) (f a) S) : Ensures P (m >>= f) S := by
  intro s hP b s'' hRun
  rw [bind_apply] at hRun
  cases hFirst : m s with
  | error e =>
      rw [hFirst] at hRun
      exact absurd hRun (by simp [Except.bind])
  | ok r =>
      rw [hFirst] at hRun
      exact hf r.1 r.2 (hm s hP r.1 r.2 hFirst) b s'' hRun

/-- A step that keeps the precondition, followed by the rest. -/
theorem seq {S : β → σ → Prop} (hm : Ensures P m fun _ => P) (hf : ∀ a, Ensures P (f a) S) :
    Ensures P (m >>= f) S :=
  bind hm hf

theorem require [Decidable p] {f : Unit → Tx σ ε α} (h : p → Ensures P (f ()) Q) :
    Ensures P (Transaction.require p e >>= f) Q := by
  by_cases hp : p
  · have hEq : (Transaction.require p e >>= f) = f () := by simp [Transaction.require, hp]
    rw [hEq]
    exact h hp
  · have hEq : (Transaction.require p e >>= f) = MonadExcept.throw e >>= f := by
      simp [Transaction.require, hp]
    rw [hEq]
    exact bind (R := fun _ _ => False) throw fun _ _ hFalse => hFalse.elim

variable {S : Unit → σ → Prop}

theorem require_last [Decidable p] (h : p → ∀ s, P s → S () s) :
    Ensures P (Transaction.require p e) S := by
  unfold Transaction.require
  split
  · rename_i hp
    exact pure (h hp)
  · exact throw

theorem expect {value : Option β} {f : β → Tx σ ε α} (h : ∀ b, value = some b → Ensures P (f b) Q) :
    Ensures P (expect value e >>= f) Q := by
  cases value with
  | none => exact bind (R := fun _ _ => False) throw fun _ _ hFalse => hFalse.elim
  | some b => exact h b rfl

theorem check {δ : Type} {result : Except δ β} {wrap : δ → ε} {f : β → Tx σ ε α}
    (h : ∀ b, result = .ok b → Ensures P (f b) Q) : Ensures P (check result wrap >>= f) Q := by
  cases result with
  | error e => exact bind (R := fun _ _ => False) throw fun _ _ hFalse => hFalse.elim
  | ok b => exact h b rfl

theorem gets {g : σ → β} {f : β → Tx σ ε α}
    (h : ∀ b, Ensures (fun s => P s ∧ g s = b) (f b) Q) : Ensures P (Transaction.gets g >>= f) Q :=
  fun s hP a s' hRun => h (g s) s ⟨hP, rfl⟩ a s' hRun

theorem modify {g : σ → σ} (h : ∀ s, P s → S () (g s)) : Ensures P (modify g : Tx σ ε PUnit) S := by
  intro s hP a s' hRun
  obtain rfl : g s = s' := by
    have hPair : (PUnit.unit, g s) = (a, s') := Except.ok.inj hRun
    exact (Prod.mk.inj hPair).2
  exact h s hP

theorem ite [Decidable p] {n : Tx σ ε α} (hm : p → Ensures P m Q) (hn : ¬ p → Ensures P n Q) :
    Ensures P (if p then m else n) Q := by
  split
  · exact hm ‹_›
  · exact hn ‹_›

theorem when [Decidable p] {n : Tx σ ε Unit} (hn : p → Ensures P n S) (hS : ¬ p → ∀ s, P s → S () s) : Ensures P (when p n) S :=
  ite hn fun hp => pure (hS hp)

theorem pre (hP : ∀ s, P' s → P s) (h : Ensures P m Q) : Ensures P' m Q :=
  fun s hs => h s (hP s hs)

/-- Read a part of the state whose value does not matter for the postcondition. -/
theorem read {g : σ → β} {f : β → Tx σ ε α} (h : ∀ b, Ensures P (f b) Q) :
    Ensures P (Transaction.gets g >>= f) Q :=
  gets fun b => (h b).pre fun _ hs => hs.1

/-- What the precondition says about the arguments of the transaction. -/
theorem learn (hp : ∀ s, P s → p) (h : p → Ensures P m Q) : Ensures P m Q :=
  fun s hs => h (hp s hs) s hs

/-- A fact that does not depend on the state may be taken out of the precondition. -/
theorem fact (h : p → Ensures P m Q) : Ensures (fun s => P s ∧ p) m Q :=
  fun s hP => h hP.2 s hP.1

/-- A property that moves along `R` is kept by what stays within `R`. -/
theorem of_within {R : σ → σ → Prop} (hm : Within R m) (hP : ∀ s s', R s s' → P s → P s') :
    Ensures P m fun _ => P :=
  fun s h a s' hRun => hP s s' (hm s a s' hRun) h

/-- What a transaction ensures holds after it in every case if it held before. -/
theorem commit_of {T : σ → Prop} (h : Ensures P m fun _ => T) (hError : ∀ s, P s → T s) (hP : P s) :
    T (commit m s) := by
  cases hRun : m s with
  | error e =>
      rw [commit_of_error hRun]
      exact hError s hP
  | ok r =>
      rw [commit_of_ok hRun]
      exact h s hP r.1 r.2 hRun

/-- What a transaction keeps when it commits holds after it in every case. -/
theorem commit (h : Ensures P m fun _ => P) (hP : P s) : P (commit m s) :=
  h.commit_of (fun _ hs => hs) hP

end Ensures

/-! ## Two runs from related states -/

/-- Two outcomes agree: the same error, or the same result in related states. -/
inductive Agree (R : σ → σ → Prop) : Except ε (α × σ) → Except ε (α × σ) → Prop
  | ok (a : α) {s t : σ} (h : R s t) : Agree R (.ok (a, s)) (.ok (a, t))
  | error (e : ε) : Agree R (.error e) (.error e)

theorem Agree.mono {R R' : σ → σ → Prop} {x y : Except ε (α × σ)} (h : Agree R x y)
    (hR : ∀ s t, R s t → R' s t) : Agree R' x y := by
  cases h with
  | ok a hNext => exact .ok a (hR _ _ hNext)
  | error e => exact .error e

/-- From states related by `R` the transaction has outcomes that agree up to `R'`. -/
def Respects (R : σ → σ → Prop) (m : Tx σ ε α) (R' : σ → σ → Prop) : Prop :=
  ∀ s t, R s t → Agree R' (m s) (m t)

namespace Respects

variable {R R' R'' : σ → σ → Prop} {m : Tx σ ε α}

theorem pure {a : α} : Respects R (pure a : Tx σ ε α) R :=
  fun _ _ h => .ok a h

theorem throw : Respects R (throw e : Tx σ ε α) R' :=
  fun _ _ _ => .error e

theorem bind (hm : Respects R m R') (hf : ∀ a, Respects R' (f a) R'') :
    Respects R (m >>= f) R'' := by
  intro s t h
  rw [bind_apply, bind_apply]
  have hAgree := hm s t h
  cases hS : m s with
  | error e =>
      rw [hS] at hAgree
      cases hT : m t with
      | error e' =>
          rw [hT] at hAgree
          cases hAgree
          exact .error e
      | ok r => rw [hT] at hAgree; cases hAgree
  | ok r =>
      rw [hS] at hAgree
      cases hT : m t with
      | error e' => rw [hT] at hAgree; cases hAgree
      | ok r' =>
          rw [hT] at hAgree
          cases hAgree with
          | ok a hNext => exact hf a _ _ hNext

theorem gets {g : σ → α} (h : ∀ s t, R s t → g s = g t) : Respects R (Transaction.gets g : Tx σ ε α) R := by
  intro s t hR
  unfold Transaction.gets
  rw [h s t hR]
  exact .ok _ hR

theorem modify {g : σ → σ} (h : ∀ s t, R s t → R' (g s) (g t)) :
    Respects R (modify g : Tx σ ε PUnit) R' :=
  fun s t hR => .ok PUnit.unit (h s t hR)

theorem require [Decidable p] : Respects R (Transaction.require p e : Tx σ ε Unit) R := by
  unfold Transaction.require
  split
  · exact pure
  · exact throw

theorem expect {value : Option α} : Respects R (expect value e : Tx σ ε α) R := by
  cases value with
  | none => exact throw
  | some a => exact pure

theorem check {δ : Type} {result : Except δ α} {wrap : δ → ε} :
    Respects R (check result wrap : Tx σ ε α) R := by
  cases result with
  | error e => exact throw
  | ok a => exact pure

theorem ite [Decidable p] {n : Tx σ ε α} (hm : p → Respects R m R') (hn : ¬ p → Respects R n R') :
    Respects R (if p then m else n) R' := by
  split
  · exact hm ‹_›
  · exact hn ‹_›

theorem mono (h : Respects R m R') (hR : ∀ s t, R' s t → R'' s t) : Respects R m R'' :=
  fun s t hST => (h s t hST).mono hR

theorem fact (h : p → Respects R m R') : Respects (fun s t => R s t ∧ p) m R' :=
  fun s t hST => h hST.2 s t hST.1

/-- What the transaction has established about its arguments when it commits. -/
theorem and_fact (h : Respects R m R') (hp : Ensures (fun _ => True) m fun _ _ => p) :
    Respects R m fun s t => R' s t ∧ p := by
  intro s t hST
  have hAgree := h s t hST
  cases hS : m s with
  | error e =>
      rw [hS] at hAgree
      generalize m t = y at hAgree
      cases hAgree
      exact .error e
  | ok r =>
      rw [hS] at hAgree
      generalize m t = y at hAgree
      cases hAgree with
      | ok a hNext => exact .ok a ⟨hNext, hp s trivial _ _ hS⟩

theorem require_bind [Decidable p] {f : Unit → Tx σ ε α} (h : p → Respects R (f ()) R') :
    Respects R (Transaction.require p e >>= f) R' := by
  have hCheck : Respects R (Transaction.require p e : Tx σ ε Unit) fun s t => R s t ∧ p := by
    unfold Transaction.require
    split
    · exact fun s t hST => .ok () ⟨hST, ‹_›⟩
    · exact throw
  exact bind hCheck fun _ => fact h

theorem when [Decidable p] {n : Tx σ ε Unit} (hn : Respects R n R') (hR : ∀ s t, R s t → R' s t) :
    Respects R (when p n) R' :=
  ite (fun _ => hn) fun _ => pure.mono hR

theorem anyChanged {step : ι → Tx σ ε Bool} {items : List ι}
    (h : ∀ item ∈ items, Respects R (step item) R) : Respects R (anyChanged step items) R := by
  induction items with
  | nil => exact pure
  | cons item items ih =>
      refine bind (h item List.mem_cons_self) fun changed => ?_
      refine bind (ih fun other hMem => h other (List.mem_cons_of_mem item hMem)) fun others => ?_
      exact pure

/-- Related states stay related, also when the transaction fails. -/
theorem commit (h : Respects R m R') (hError : ∀ s t, R s t → R' s t) {t : σ} (hR : R s t) :
    R' (commit m s) (commit m t) := by
  have hAgree := h s t hR
  unfold Transaction.commit
  generalize m s = x, m t = y at hAgree
  cases hAgree with
  | ok a hNext => exact hNext
  | error e => exact hError s t hR

end Respects

/-! ## States with the same view -/

/-- Two states that satisfy `P` and look the same through `V`. -/
structure SameView (V : σ → σ) (P : σ → Prop) (s t : σ) : Prop where
  left : P s
  right : P t
  view : V s = V t

namespace SameView

variable {V : σ → σ} {P : σ → Prop} {m : Tx σ ε α}

/-- A transaction that runs on the view as it runs on the state gives the same outcome in states
with the same view. -/
theorem respects (hView : ∀ s, P s → m (V s) = (m s).map (Prod.map id V))
    (hKeep : Ensures P m fun _ => P) : Respects (SameView V P) m (SameView V P) := by
  intro s t h
  have hSame : (m s).map (Prod.map id V) = (m t).map (Prod.map id V) := by
    rw [← hView s h.left, ← hView t h.right, h.view]
  cases hS : m s with
  | error e =>
      cases hT : m t with
      | error e' =>
          obtain rfl : e = e' := by simpa [hS, hT, Except.map] using hSame
          exact .error e
      | ok r => simp [hS, hT, Except.map] at hSame
  | ok r =>
      cases hT : m t with
      | error e' => simp [hS, hT, Except.map] at hSame
      | ok r' =>
          obtain ⟨a, s'⟩ := r
          obtain ⟨a', t'⟩ := r'
          obtain ⟨rfl, hNext⟩ : a = a' ∧ V s' = V t' := by
            simpa [hS, hT, Except.map] using hSame
          exact .ok a ⟨hKeep s h.left a s' hS, hKeep t h.right a t' hT, hNext⟩

theorem gets {g : σ → α} (hView : ∀ s, P s → g (V s) = g s) :
    Respects (SameView V P) (Transaction.gets g : Tx σ ε α) (SameView V P) := by
  refine Respects.gets fun s t h => ?_
  rw [← hView s h.left, ← hView t h.right, h.view]

theorem modify {g : σ → σ} (hView : ∀ s, P s → V (g s) = g (V s)) (hKeep : ∀ s, P s → P (g s)) :
    Respects (SameView V P) (modify g : Tx σ ε PUnit) (SameView V P) := by
  refine Respects.modify fun s t h => ⟨hKeep s h.left, hKeep t h.right, ?_⟩
  rw [hView s h.left, hView t h.right, h.view]

end SameView

end Transaction
