import Mathlib.Tactic.Common

/-!
Sequences of checks in `Except`. A guard either passes or stops the whole computation with its
error; the lemmas say what a computation that succeeded has checked.
-/

namespace Checks

universe u v

variable {ε : Type u} {α β : Type v}

/-- A check that has to hold for the computation to go on. -/
def require (p : Prop) [Decidable p] (e : ε) : Except ε Unit :=
  if p then .ok () else .error e

@[simp] theorem require_eq_ok {p : Prop} [Decidable p] {e : ε} {u : Unit} :
    require p e = .ok u ↔ p := by
  unfold require
  split <;> simp_all

theorem ok_bind (a : α) (f : α → Except ε β) : (Except.ok a >>= f) = f a := rfl

theorem map_bind {γ : Type v} (x : Except ε α) (f : α → Except ε β) (g : β → γ) :
    (x >>= f).map g = x >>= fun a => (f a).map g := by
  cases x with
  | error e => rfl
  | ok a => rfl

theorem mapError_ok {ε' : Type u} (f : ε → ε') (a : α) :
    (Except.ok a : Except ε α).mapError f = .ok a := rfl

theorem bind_eq_ok {x : Except ε α} {f : α → Except ε β} {b : β} :
    (x >>= f) = .ok b ↔ ∃ a, x = .ok a ∧ f a = .ok b := by
  cases x with
  | error e => simp [bind, Except.bind]
  | ok a => simp [bind, Except.bind]

/-- A check followed by the rest: both succeed. -/
@[simp] theorem check_bind_eq_ok {x : Except ε Unit} {γ : Type} {f : Unit → Except ε γ} {c : γ} :
    (x >>= f) = .ok c ↔ x = .ok () ∧ f () = .ok c := by
  rw [bind_eq_ok]
  constructor
  · rintro ⟨_, hx, hf⟩
    exact ⟨hx, hf⟩
  · rintro ⟨hx, hf⟩
    exact ⟨(), hx, hf⟩

theorem require_eq_error {p : Prop} [Decidable p] {e e' : ε} :
    require p e = .error e' ↔ ¬ p ∧ e = e' := by
  unfold require
  split <;> simp_all

/-- A check followed by the rest fails where one of the two does. -/
theorem check_bind_eq_error {x : Except ε Unit} {γ : Type} {f : Unit → Except ε γ} {e : ε} :
    (x >>= f) = .error e ↔ x = .error e ∨ (x = .ok () ∧ f () = .error e) := by
  cases x with
  | error e' => simp [bind, Except.bind]
  | ok a => simp [bind, Except.bind]

@[simp] theorem pure_eq_ok {a b : α} : (pure a : Except ε α) = .ok b ↔ a = b := by
  simp [pure, Except.pure]

/-- What every step of a loop keeps, together with the items it has seen, holds at its end. -/
theorem foldlM_invariant {γ : Type*} {f : α → γ → Except ε α} {I : List γ → α → Prop}
    (hStep : ∀ seen a item b, I seen a → f a item = .ok b → I (seen ++ [item]) b) {items : List γ}
    {a b : α} {seen : List γ} (hStart : I seen a) (hRun : items.foldlM f a = .ok b) :
    I (seen ++ items) b := by
  induction items generalizing a seen with
  | nil =>
      rw [List.foldlM_nil, pure_eq_ok] at hRun
      rw [← hRun, List.append_nil]
      exact hStart
  | cons item items ih =>
      rw [List.foldlM_cons, bind_eq_ok] at hRun
      obtain ⟨middle, hFirst, hRest⟩ := hRun
      have hAll := ih (hStep seen a item middle hStart hFirst) hRest
      rwa [List.append_assoc, List.singleton_append] at hAll

/-- The success of a computation does not depend on how its error is reported. -/
theorem mapError_eq_ok {ε' : Type u} {x : Except ε α} {f : ε → ε'} {a : α} :
    x.mapError f = .ok a ↔ x = .ok a := by
  cases x with
  | error e => simp [Except.mapError]
  | ok b => simp [Except.mapError]

/-! ## Collecting the items of a list -/

section Collect

variable [DecidableEq α] {f : List α → α → Except ε (List α)} {Good : List α → Prop}

/-- The collection with one more item; an item that is there already is not repeated. -/
def collect (taken : List α) (item : α) : List α :=
  if item ∈ taken then taken else taken ++ [item]

theorem mem_collect {taken : List α} {item x : α} :
    x ∈ collect taken item ↔ x ∈ taken ∨ x = item := by
  unfold collect
  split
  · constructor
    · exact Or.inl
    · rintro (hMem | rfl)
      · exact hMem
      · assumption
  · simp

/-- A loop collects a list whenever its steps accept exactly the items that keep the collection
good: it then accepts exactly the good lists, and it ends with the items of the list. -/
theorem foldlM_collect_eq_ok
    (hMembers : ∀ xs ys, (∀ x ∈ ys, x ∈ xs) → Good xs → Good ys)
    (hStep : ∀ taken item result, Good taken →
      (f taken item = .ok result ↔ Good (taken ++ [item]) ∧ result = collect taken item))
    {taken : List α} (hTaken : Good taken) (items : List α) {result : List α} :
    items.foldlM f taken = .ok result ↔
      Good (taken ++ items) ∧ result = items.foldl collect taken := by
  induction items generalizing taken with
  | nil =>
      rw [List.foldlM_nil, pure_eq_ok, List.append_nil, List.foldl_nil, eq_comm]
      exact (and_iff_right hTaken).symm
  | cons item items ih =>
      have hSame : ∀ x, x ∈ collect taken item ++ items ↔ x ∈ taken ++ item :: items := by
        intro x
        simp only [List.mem_append, mem_collect, List.mem_cons]
        tauto
      rw [List.foldlM_cons, bind_eq_ok, List.foldl_cons]
      constructor
      · rintro ⟨next, hFirst, hRest⟩
        obtain ⟨hGood, rfl⟩ := (hStep taken item next hTaken).mp hFirst
        have hNext : Good (collect taken item) := by
          refine hMembers _ _ (fun x hx => ?_) hGood
          simpa [mem_collect] using hx
        obtain ⟨hAll, hResult⟩ := (ih hNext).mp hRest
        exact ⟨hMembers _ _ (fun x hx => (hSame x).mpr hx) hAll, hResult⟩
      · rintro ⟨hAll, hResult⟩
        have hGood : Good (taken ++ [item]) := by
          refine hMembers _ _ (fun x hx => ?_) hAll
          simp only [List.mem_append, List.mem_singleton] at hx
          simp only [List.mem_append, List.mem_cons]
          tauto
        have hNext : Good (collect taken item) := by
          refine hMembers _ _ (fun x hx => ?_) hGood
          simpa [mem_collect] using hx
        refine ⟨collect taken item, (hStep taken item _ hTaken).mpr ⟨hGood, rfl⟩, ?_⟩
        exact (ih hNext).mpr ⟨hMembers _ _ (fun x hx => (hSame x).mp hx) hAll, hResult⟩

theorem mem_foldl_collect {taken items : List α} {x : α} :
    x ∈ items.foldl collect taken ↔ x ∈ taken ∨ x ∈ items := by
  induction items generalizing taken with
  | nil => simp
  | cons item items ih =>
      rw [List.foldl_cons, ih, mem_collect, List.mem_cons]
      tauto

/-- A list without repetitions is collected as it is. -/
theorem foldl_collect_of_nodup {taken items : List α} (h : (taken ++ items).Nodup) :
    items.foldl collect taken = taken ++ items := by
  induction items generalizing taken with
  | nil => simp
  | cons item items ih =>
      have hNew : item ∉ taken := by
        intro hMem
        exact (List.nodup_append.mp h).2.2 item hMem item List.mem_cons_self rfl
      rw [List.foldl_cons, collect, if_neg hNew, ih (by simpa using h)]
      simp

end Collect

/-! ## Items with unique keys -/

section Unique

variable {κ : Type*} {key : α → κ}

/-- A collection stays unique by key if no other item has the key of the added one. -/
theorem unique_append_singleton {taken : List α} {item : α}
    (hTaken : ∀ a ∈ taken, ∀ b ∈ taken, key a = key b → a = b) :
    (∀ a ∈ taken ++ [item], ∀ b ∈ taken ++ [item], key a = key b → a = b) ↔
      ∀ a ∈ taken, key a = key item → a = item := by
  simp only [List.mem_append, List.mem_singleton]
  constructor
  · intro h a ha
    exact h a (Or.inl ha) item (Or.inr rfl)
  · rintro h a (ha | rfl) b (hb | rfl) hKey
    · exact hTaken a ha b hb hKey
    · exact h a ha hKey
    · exact (h b hb hKey.symm).symm
    · rfl

variable [DecidableEq κ]

theorem find?_key_eq_none {items : List α} {wanted : κ} :
    (items.find? fun item => key item = wanted) = none ↔ ∀ item ∈ items, key item ≠ wanted := by
  simp

/-- With unique keys the lookup finds the item. -/
theorem find?_key_eq_some {items : List α}
    (hUnique : ∀ a ∈ items, ∀ b ∈ items, key a = key b → a = b) {wanted : κ} {item : α} :
    (items.find? fun item => key item = wanted) = some item ↔
      item ∈ items ∧ key item = wanted := by
  constructor
  · intro h
    have hKey : key item = wanted := by simpa using List.find?_some h
    exact ⟨List.mem_of_find?_eq_some h, hKey⟩
  · rintro ⟨hMem, hKey⟩
    cases hFind : items.find? fun item => key item = wanted with
    | none => exact absurd hKey (find?_key_eq_none.mp hFind item hMem)
    | some other =>
        have hOther : key other = wanted := by simpa using List.find?_some hFind
        rw [hUnique other (List.mem_of_find?_eq_some hFind) item hMem (hOther.trans hKey.symm)]

end Unique

theorem exists_ok_of_isOk {ε : Type u} {α : Type v} {x : Except ε α} (h : x.isOk = true) :
    ∃ a, x = .ok a := by
  cases x with
  | error e => cases h
  | ok a => exact ⟨a, rfl⟩

end Checks
