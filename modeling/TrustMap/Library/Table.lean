import Mathlib.Data.List.Nodup
import TrustMap.Library.Checks

/-!
Tables with a primary key. The rows stand in insertion order and no two rows have the same key,
so a row is determined by its key as long as it is in the table.
-/

universe u v

/-- Rows with pairwise different keys. -/
@[ext] structure Table {κ : Type u} {ρ : Type v} (key : ρ → κ) where
  rows : List ρ
  nodup : (rows.map key).Nodup

namespace Table

variable {κ : Type u} {ρ : Type v} {key : ρ → κ}

instance [DecidableEq ρ] : DecidableEq (Table key) := fun _ _ =>
  decidable_of_iff _ Table.ext_iff.symm

/-- The table without rows. -/
def empty : Table key where
  rows := []
  nodup := List.nodup_nil

@[simp] theorem empty_rows : (empty : Table key).rows = [] := rfl

variable {r : ρ} {t : Table key}

theorem eq_of_key {r' : ρ} (hMem : r ∈ t.rows) (hMem' : r' ∈ t.rows) (hKey : key r = key r') :
    r = r' :=
  List.inj_on_of_nodup_map t.nodup hMem hMem' hKey

/-- The rows that satisfy a predicate. -/
def filter (t : Table key) (p : ρ → Bool) : Table key where
  rows := t.rows.filter p
  nodup := t.nodup.sublist ((List.filter_sublist).map key)

variable {p : ρ → Bool}

@[simp] theorem mem_filter_rows : r ∈ (t.filter p).rows ↔ r ∈ t.rows ∧ p r :=
  List.mem_filter

/-! A query whose answers all lie in a part of the table may be asked of the part. -/

theorem exists_filter {q : ρ → Prop} (hPart : ∀ r ∈ t.rows, q r → p r) :
    (∃ r ∈ (t.filter p).rows, q r) ↔ ∃ r ∈ t.rows, q r := by
  constructor
  · rintro ⟨r, hMem, hQuery⟩
    exact ⟨r, (mem_filter_rows.mp hMem).1, hQuery⟩
  · rintro ⟨r, hMem, hQuery⟩
    exact ⟨r, mem_filter_rows.mpr ⟨hMem, hPart r hMem hQuery⟩, hQuery⟩

theorem any_filter {q : ρ → Bool} (hPart : ∀ r ∈ t.rows, q r → p r) :
    (t.filter p).rows.any q = t.rows.any q := by
  rw [Bool.eq_iff_iff, List.any_eq_true, List.any_eq_true]
  exact exists_filter hPart

theorem rows_filter_filter {q : ρ → Bool} (hPart : ∀ r ∈ t.rows, q r → p r) :
    (t.filter p).rows.filter q = t.rows.filter q := by
  rw [filter, List.filter_filter]
  refine List.filter_congr fun r hMem => ?_
  cases hQuery : q r with
  | false => rfl
  | true => exact hPart r hMem hQuery

theorem rows_find?_filter {q : ρ → Bool} (hPart : ∀ r ∈ t.rows, q r → p r) :
    (t.filter p).rows.find? q = t.rows.find? q := by
  rw [← List.head?_filter, ← List.head?_filter, rows_filter_filter hPart]

section DecidableKey

variable [DecidableEq κ]

/-- The row with the given key. -/
def find? (t : Table key) (k : κ) : Option ρ :=
  t.rows.find? fun r => key r = k

variable {k : κ}

theorem find?_eq_some : t.find? k = some r ↔ r ∈ t.rows ∧ key r = k :=
  Checks.find?_key_eq_some fun _ hMem _ hMem' => eq_of_key hMem hMem'

theorem find?_eq_none : t.find? k = none ↔ ∀ r ∈ t.rows, key r ≠ k :=
  Checks.find?_key_eq_none

theorem find?_key (hMem : r ∈ t.rows) : t.find? (key r) = some r :=
  find?_eq_some.mpr ⟨hMem, rfl⟩

@[simp] theorem find?_empty (k : κ) : (empty : Table key).find? k = none := rfl

/-- Insert a row at the end; there is no result if its key is taken. -/
def insert? (t : Table key) (r : ρ) : Option (Table key) :=
  if h : key r ∈ t.rows.map key then none
  else some
    { rows := t.rows ++ [r]
      nodup := by
        rw [List.map_append, List.nodup_append]
        refine ⟨t.nodup, by simp, ?_⟩
        intro a hMem b hNew hEq
        rw [List.map_singleton, List.mem_singleton] at hNew
        exact h (hNew ▸ hEq ▸ hMem) }

theorem insert?_eq_some {t' : Table key} :
    t.insert? r = some t' ↔ t.find? (key r) = none ∧ t'.rows = t.rows ++ [r] := by
  unfold insert?
  rw [find?_eq_none]
  split
  · rename_i hTaken
    obtain ⟨r', hMem, hKey⟩ := List.mem_map.mp hTaken
    simp only [reduceCtorEq, false_iff, not_and]
    intro hFree
    exact absurd hKey (hFree r' hMem)
  · rename_i hFree
    simp only [Option.some.injEq, Table.ext_iff]
    constructor
    · intro hRows
      refine ⟨?_, hRows.symm⟩
      intro r' hMem hKey
      exact hFree (List.mem_map.mpr ⟨r', hMem, hKey⟩)
    · intro h
      exact h.2.symm

theorem insert?_eq_none : t.insert? r = none ↔ ∃ r' ∈ t.rows, key r' = key r := by
  unfold insert?
  split
  · rename_i hTaken
    simpa using hTaken
  · rename_i hFree
    simpa using hFree

/-- Insert a row unless its key is taken. -/
def insertIgnore (t : Table key) (r : ρ) : Table key :=
  (t.insert? r).getD t

theorem mem_insertIgnore {r' : ρ} (hMem : r' ∈ (t.insertIgnore r).rows) : r' ∈ t.rows ∨ r' = r := by
  unfold insertIgnore at hMem
  cases hInsert : t.insert? r with
  | none =>
      rw [hInsert] at hMem
      exact Or.inl hMem
  | some t' =>
      rw [hInsert, Option.getD_some, (insert?_eq_some.mp hInsert).2, List.mem_append,
        List.mem_singleton] at hMem
      exact hMem

/-- Insert into a part of a table: it succeeds as in the whole table if the rows left out do not
have the new key. -/
theorem filter_insert? (hKeep : p r) (hFree : ∀ r' ∈ t.rows, ¬ p r' → key r' ≠ key r) :
    (t.filter p).insert? r = (t.insert? r).map (fun t' => t'.filter p) := by
  cases hInsert : t.insert? r with
  | none =>
      obtain ⟨r', hMem, hKey⟩ := insert?_eq_none.mp hInsert
      refine insert?_eq_none.mpr ⟨r', ?_, hKey⟩
      refine mem_filter_rows.mpr ⟨hMem, ?_⟩
      by_contra hDropped
      exact hFree r' hMem hDropped hKey
  | some t' =>
      obtain ⟨hNone, hRows⟩ := insert?_eq_some.mp hInsert
      refine insert?_eq_some.mpr ⟨?_, ?_⟩
      · refine find?_eq_none.mpr fun r' hMem => ?_
        exact find?_eq_none.mp hNone r' (mem_filter_rows.mp hMem).1
      · simp [filter, hRows, hKeep]

/-- Insert outside a part of a table. -/
theorem filter_insert?_of_not {t' : Table key} (hOut : p r = false)
    (hInsert : t.insert? r = some t') : t'.filter p = t.filter p := by
  apply Table.ext
  simp [filter, (insert?_eq_some.mp hInsert).2, hOut]

/-- Change the row with the given key; the change keeps the key. -/
def modify (t : Table key) (k : κ) (f : ρ → ρ) (hKey : ∀ r, key (f r) = key r) : Table key where
  rows := t.rows.map fun r => if key r = k then f r else r
  nodup := by
    have hKeys : (t.rows.map fun r => if key r = k then f r else r).map key = t.rows.map key := by
      rw [List.map_map]
      refine List.map_congr_left fun r _ => ?_
      by_cases h : key r = k <;> simp [h, hKey]
    rw [hKeys]
    exact t.nodup

theorem mem_modify {f : ρ → ρ} {hKey : ∀ r, key (f r) = key r} {r' : ρ} :
    r' ∈ (t.modify k f hKey).rows ↔
      (r' ∈ t.rows ∧ key r' ≠ k) ∨ ∃ r ∈ t.rows, key r = k ∧ r' = f r := by
  simp only [modify, List.mem_map]
  constructor
  · rintro ⟨r, hMem, rfl⟩
    by_cases h : key r = k
    · exact Or.inr ⟨r, hMem, h, by simp [h]⟩
    · exact Or.inl (by simp [h, hMem])
  · rintro (⟨hMem, h⟩ | ⟨r, hMem, h, rfl⟩)
    · exact ⟨r', hMem, by simp [h]⟩
    · exact ⟨r, hMem, by simp [h]⟩

theorem find?_modify {k' : κ} {f : ρ → ρ} {hKey : ∀ r, key (f r) = key r} :
    (t.modify k f hKey).find? k' = if k' = k then (t.find? k').map f else t.find? k' := by
  by_cases h : k' = k
  · subst h
    rw [if_pos rfl]
    cases hFind : t.find? k' with
    | none =>
        refine find?_eq_none.mpr fun r hMem hRow => ?_
        rcases mem_modify.mp hMem with ⟨_, hNe⟩ | ⟨r₀, hMem₀, hRow₀, _⟩
        · exact hNe hRow
        · exact find?_eq_none.mp hFind r₀ hMem₀ hRow₀
    | some r =>
        obtain ⟨hMem, hRow⟩ := find?_eq_some.mp hFind
        refine find?_eq_some.mpr ⟨mem_modify.mpr (Or.inr ⟨r, hMem, hRow, rfl⟩), ?_⟩
        rw [hKey, hRow]
  · rw [if_neg h]
    cases hFind : t.find? k' with
    | none =>
        refine find?_eq_none.mpr fun r hMem hRow => ?_
        rcases mem_modify.mp hMem with ⟨hMem', _⟩ | ⟨r₀, _, hRow₀, rfl⟩
        · exact find?_eq_none.mp hFind r hMem' hRow
        · exact h (hRow.symm.trans ((hKey r₀).trans hRow₀))
    | some r =>
        obtain ⟨hMem, hRow⟩ := find?_eq_some.mp hFind
        exact find?_eq_some.mpr ⟨mem_modify.mpr (Or.inl ⟨hMem, hRow ▸ h⟩), hRow⟩

/-- Insert a row, or put it in the place of the row with its key. -/
def upsert (t : Table key) (r : ρ) : Table key :=
  (t.insert? r).getD (t.modify (key r) (fun r' => if key r' = key r then r else r') (by
    intro r'
    by_cases h : key r' = key r <;> simp [h]))

theorem find?_upsert : (t.upsert r).find? k = if k = key r then some r else t.find? k := by
  unfold upsert
  cases hInsert : t.insert? r with
  | none =>
      obtain ⟨r', hMem, hKey⟩ := insert?_eq_none.mp hInsert
      rw [Option.getD_none, find?_modify]
      by_cases h : k = key r
      · rw [if_pos h, if_pos h, h, ← hKey, find?_key hMem, Option.map_some, if_pos rfl]
      · rw [if_neg h, if_neg h]
  | some t' =>
      obtain ⟨hFree, hRows⟩ := insert?_eq_some.mp hInsert
      rw [Option.getD_some, find?, hRows, List.find?_append]
      by_cases h : k = key r
      · have hNone : t.rows.find? (fun r' => key r' = k) = none := by
          rw [h]
          exact hFree
        rw [if_pos h, hNone, Option.none_or, List.find?_singleton, if_pos (by simp [h])]
      · rw [if_neg h, List.find?_singleton, if_neg (by simpa using Ne.symm h), Option.or_none]
        rfl

theorem mem_upsert {r' : ρ} : r' ∈ (t.upsert r).rows ↔ r' = r ∨ (r' ∈ t.rows ∧ key r' ≠ key r) := by
  have hFind : r' ∈ (t.upsert r).rows ↔ (t.upsert r).find? (key r') = some r' :=
    ⟨fun hMem => find?_key hMem, fun h => (find?_eq_some.mp h).1⟩
  rw [hFind, find?_upsert]
  by_cases h : key r' = key r
  · simp [h, eq_comm]
  · rw [if_neg h, find?_eq_some]
    constructor
    · rintro ⟨hMem, -⟩
      exact Or.inr ⟨hMem, h⟩
    · rintro (rfl | ⟨hMem, -⟩)
      · exact absurd rfl h
      · exact ⟨hMem, rfl⟩

theorem length_upsert_of_none (h : t.find? (key r) = none) :
    (t.upsert r).rows.length = t.rows.length + 1 := by
  unfold upsert
  cases hInsert : t.insert? r with
  | none =>
      obtain ⟨r', hMem, hKey⟩ := insert?_eq_none.mp hInsert
      exact absurd hKey (find?_eq_none.mp h r' hMem)
  | some t' => simp [(insert?_eq_some.mp hInsert).2]

theorem length_upsert_of_some {r' : ρ} (h : t.find? (key r) = some r') :
    (t.upsert r).rows.length = t.rows.length := by
  unfold upsert
  cases hInsert : t.insert? r with
  | none => simp [modify]
  | some t' =>
      have hNone := (insert?_eq_some.mp hInsert).1
      rw [h] at hNone
      cases hNone

/-- The table without the row of a key. -/
theorem length_filter_ne (h : t.find? k = some r) :
    (t.filter fun r' => key r' ≠ k).rows.length + 1 = t.rows.length := by
  obtain ⟨hMem, hKey⟩ := find?_eq_some.mp h
  have hCount : t.rows.countP (fun r' => key r' = k) = 1 := by
    have hOne := List.count_eq_one_of_mem t.nodup (List.mem_map_of_mem hMem)
    rw [hKey, List.count, List.countP_map] at hOne
    rw [← hOne]
    exact List.countP_congr fun r' _ => by simp
  have hSplit := List.length_eq_countP_add_countP (fun r' => decide (key r' = k)) (l := t.rows)
  rw [hSplit, hCount, filter, ← List.countP_eq_length_filter, Nat.add_comm]
  congr 1
  exact List.countP_congr fun r' _ => by simp

/-- Tables whose rows correspond, with the same keys, correspond after the same row is put into
both. -/
theorem rows_upsert_map {ρ' : Type v} {key' : ρ' → κ} {f : ρ → ρ'} (hKey : ∀ r, key' (f r) = key r)
    {t' : Table key'} (hRows : t'.rows = t.rows.map f) (r : ρ) :
    (t'.upsert (f r)).rows = (t.upsert r).rows.map f := by
  unfold upsert
  cases hInsert : t.insert? r with
  | none =>
      obtain ⟨old, hOld, hSame⟩ := insert?_eq_none.mp hInsert
      have hInsert' : t'.insert? (f r) = none := by
        refine insert?_eq_none.mpr ⟨f old, ?_, by rw [hKey, hKey, hSame]⟩
        rw [hRows]
        exact List.mem_map_of_mem hOld
      rw [hInsert', Option.getD_none, Option.getD_none]
      simp only [modify, hRows, List.map_map]
      refine List.map_congr_left fun x _ => ?_
      by_cases h : key x = key r <;> simp [h, hKey]
  | some next =>
      obtain ⟨hFree, hNext⟩ := insert?_eq_some.mp hInsert
      cases hInsert' : t'.insert? (f r) with
      | none =>
          obtain ⟨image, hImage, hSame⟩ := insert?_eq_none.mp hInsert'
          rw [hRows] at hImage
          obtain ⟨old, hOld, rfl⟩ := List.mem_map.mp hImage
          rw [hKey, hKey] at hSame
          exact (find?_eq_none.mp hFree old hOld hSame).elim
      | some next' =>
          rw [Option.getD_some, Option.getD_some, (insert?_eq_some.mp hInsert').2, hNext, hRows,
            List.map_append, List.map_singleton]

/-- A change that does not move rows in or out of a part of the table commutes with taking the
part. -/
theorem filter_modify {f : ρ → ρ} {hKey : ∀ r, key (f r) = key r}
    (hPart : ∀ r ∈ t.rows, key r = k → p (f r) = p r) :
    (t.modify k f hKey).filter p = (t.filter p).modify k f hKey := by
  apply Table.ext
  simp only [filter, modify, List.filter_map]
  congr 1
  refine List.filter_congr fun r hMem => ?_
  by_cases h : key r = k <;> simp [h, hPart r hMem]

/-- A change of rows outside a part of the table leaves the part as it is. -/
theorem filter_modify_of_not {f : ρ → ρ} {hKey : ∀ r, key (f r) = key r}
    (hOut : ∀ r ∈ t.rows, key r = k → p r = false ∧ p (f r) = false) :
    (t.modify k f hKey).filter p = t.filter p := by
  rw [filter_modify fun r hMem h => by rw [(hOut r hMem h).1, (hOut r hMem h).2]]
  apply Table.ext
  simp only [modify, filter]
  conv_rhs => rw [← List.map_id (List.filter p t.rows)]
  refine List.map_congr_left fun r hMem => ?_
  obtain ⟨hRow, hKeep⟩ := List.mem_filter.mp hMem
  by_cases h : key r = k
  · rw [(hOut r hRow h).1] at hKeep
    exact absurd hKeep Bool.false_ne_true
  · simp [h]

end DecidableKey

end Table
