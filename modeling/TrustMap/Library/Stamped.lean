import Mathlib.Data.List.Basic
import Mathlib.Order.Basic

/-!
Arrays that are emptied in constant time: every cell carries the stamp of the generation that wrote
it, and a cell holds a value in a generation only if its stamp is that generation.
-/

namespace TrustMap

universe u v

/-- An array of values with the stamps of its cells. -/
structure Stamped (α : Type u) (σ : Type v) where
  values : List α
  stamps : List σ
  aligned : stamps.length = values.length

namespace Stamped

variable {α : Type u} {σ : Type v}

/-- No cells. -/
def empty : Stamped α σ :=
  ⟨[], [], rfl⟩

/-- The value of a cell in a generation. -/
def get [DecidableEq σ] (cells : Stamped α σ) (generation : σ) (i : ℕ) : Option α :=
  if cells.stamps[i]? = some generation then cells.values[i]? else none

/-- Write a cell in a generation. -/
def set (cells : Stamped α σ) (generation : σ) (i : ℕ) (value : α) : Stamped α σ where
  values := cells.values.set i value
  stamps := cells.stamps.set i generation
  aligned := by rw [List.length_set, List.length_set, cells.aligned]

/-- Add cells up to a size. -/
def grow (cells : Stamped α σ) (size : ℕ) (value : α) (stamp : σ) : Stamped α σ where
  values := cells.values ++ List.replicate (size - cells.values.length) value
  stamps := cells.stamps ++ List.replicate (size - cells.stamps.length) stamp
  aligned := by simp [cells.aligned]

/-- Give all cells one stamp. -/
def clear (cells : Stamped α σ) (stamp : σ) : Stamped α σ where
  values := cells.values
  stamps := List.replicate cells.stamps.length stamp
  aligned := by rw [List.length_replicate, cells.aligned]

/-- The number of cells. -/
def size (cells : Stamped α σ) : ℕ :=
  cells.values.length

@[simp]
theorem size_set (cells : Stamped α σ) (generation : σ) (i : ℕ) (value : α) :
    (cells.set generation i value).size = cells.size :=
  List.length_set

theorem le_size_grow (cells : Stamped α σ) (size : ℕ) (value : α) (stamp : σ) :
    size ≤ (cells.grow size value stamp).size := by
  rw [Stamped.size, grow, List.length_append, List.length_replicate]
  omega

variable {cells : Stamped α σ}

theorem get_set [DecidableEq σ] {i : ℕ} (hSize : i < cells.size) (generation : σ) (value : α)
    (j : ℕ) :
    (cells.set generation i value).get generation j =
      if j = i then some value else cells.get generation j := by
  have hStamps : i < cells.stamps.length := cells.aligned ▸ hSize
  rcases eq_or_ne j i with rfl | hNe
  · simp only [get, set, if_true, List.getElem?_set_self hStamps, List.getElem?_set_self hSize]
  · simp only [get, set, if_neg hNe, List.getElem?_set_ne hNe.symm]

variable {generation : σ}

/-- In a generation that no cell carries there are no values. -/
theorem get_eq_none [DecidableEq σ] (hFresh : generation ∉ cells.stamps) (i : ℕ) :
    cells.get generation i = none := by
  refine if_neg fun hStamp => hFresh ?_
  exact List.mem_of_getElem? hStamp

/-! ## Bounded stamps -/

/-- No cell was written after a generation. -/
def Until [LE σ] (cells : Stamped α σ) (generation : σ) : Prop :=
  ∀ stamp ∈ cells.stamps, stamp ≤ generation

theorem until_empty [LE σ] (generation : σ) : (empty : Stamped α σ).Until generation := by
  intro stamp hMem
  cases hMem

theorem Until.set [Preorder σ] (h : cells.Until generation) (i : ℕ) (value : α) :
    (cells.set generation i value).Until generation := by
  intro stamp hMem
  rcases List.mem_or_eq_of_mem_set hMem with hOld | rfl
  · exact h stamp hOld
  · exact le_refl _

theorem Until.grow [LE σ] {stamp : σ} (h : cells.Until generation) (hStamp : stamp ≤ generation)
    (size : ℕ) (value : α) : (cells.grow size value stamp).Until generation := by
  intro other hMem
  rcases List.mem_append.mp hMem with hOld | hNew
  · exact h other hOld
  · obtain rfl := List.eq_of_mem_replicate hNew
    exact hStamp

theorem until_clear [Preorder σ] (cells : Stamped α σ) (stamp : σ) :
    (cells.clear stamp).Until stamp := by
  intro other hMem
  exact (List.eq_of_mem_replicate hMem).le

theorem Until.mono [Preorder σ] {later : σ} (h : cells.Until generation)
    (hLater : generation ≤ later) : cells.Until later :=
  fun stamp hMem => (h stamp hMem).trans hLater

/-- A later generation is fresh. -/
theorem Until.fresh [Preorder σ] {later : σ} (h : cells.Until generation)
    (hLater : generation < later) : later ∉ cells.stamps :=
  fun hMem => (h later hMem).not_gt hLater

end Stamped

end TrustMap
