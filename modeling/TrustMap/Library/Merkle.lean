import Mathlib.Data.List.GetD
import Mathlib.Data.Set.Function
import Mathlib.Tactic.Linarith

/-!
Perfect binary trees over an arbitrary node type, given by a pairing function
and an assignment of leaves to positions. Walking a list of siblings upwards
from a leaf is complete for the tree's own siblings and, where the pairing
function is injective on the pairs actually combined, sound: a walk that
reaches a node of the tree started at the tree's own value below it. No
collision resistance is claimed for any concrete pairing function.
-/

namespace Merkle

variable {α : Type*}

/-- The node of height `level` above the leaf positions
`index * 2 ^ level, …, (index + 1) * 2 ^ level - 1`. -/
def subroot (node : α → α → α) (leaf : ℕ → α) : ℕ → ℕ → α
  | 0, index => leaf index
  | level + 1, index =>
      node (subroot node leaf level (2 * index)) (subroot node leaf level (2 * index + 1))

@[simp] theorem subroot_zero (node : α → α → α) (leaf : ℕ → α) (index : ℕ) :
    subroot node leaf 0 index = leaf index := rfl

theorem subroot_succ (node : α → α → α) (leaf : ℕ → α) (level index : ℕ) :
    subroot node leaf (level + 1) index =
      node (subroot node leaf level (2 * index)) (subroot node leaf level (2 * index + 1)) := rfl

variable {index : ℕ} {leaf : ℕ → α} {node : α → α → α}

/-- Only the leaves below a node matter to it. -/
theorem subroot_congr {leaf' : ℕ → α} {level : ℕ}
    (h : ∀ i, index * 2 ^ level ≤ i → i < (index + 1) * 2 ^ level → leaf i = leaf' i) :
    subroot node leaf level index = subroot node leaf' level index := by
  induction level generalizing index with
  | zero => exact h index (by simp) (by simp)
  | succ level ih =>
      have hPow : (2 : ℕ) ^ (level + 1) = 2 * 2 ^ level := pow_succ' 2 level
      rw [subroot_succ, subroot_succ]
      congr 1
      · refine ih fun i hLow hHigh => h i ?_ ?_
        · rw [hPow]; linarith
        · rw [hPow]; linarith [Nat.two_pow_pos level]
      · refine ih fun i hLow hHigh => h i ?_ ?_
        · rw [hPow]; linarith [Nat.two_pow_pos level]
        · rw [hPow]; linarith

/-- The root of a subtree of height `level` whose leaves are all `zero`. -/
def zeroRoot (node : α → α → α) (zero : α) : ℕ → α
  | 0 => zero
  | level + 1 => node (zeroRoot node zero level) (zeroRoot node zero level)

theorem subroot_const (node : α → α → α) (zero : α) (level index : ℕ) :
    subroot node (fun _ => zero) level index = zeroRoot node zero level := by
  induction level generalizing index with
  | zero => rfl
  | succ level ih => rw [subroot_succ, ih, ih, zeroRoot]

/-- The leaves of a tree with `zero` at every position past the end of the list. -/
def padded (zero : α) (leaves : List α) (index : ℕ) : α :=
  leaves.getD index zero

/-- The root of the perfect tree of the given depth over a padded leaf list. -/
def root (node : α → α → α) (zero : α) (depth : ℕ) (leaves : List α) : α :=
  subroot node (padded zero leaves) depth 0

variable {leaves : List α}

theorem padded_of_length_le {zero : α} (h : leaves.length ≤ index) :
    padded zero leaves index = zero :=
  List.getD_eq_default _ _ h

theorem padded_append_left {zero : α} {more : List α} (h : index < leaves.length) :
    padded zero (leaves ++ more) index = padded zero leaves index :=
  List.getD_append _ _ _ _ h

theorem padded_append_singleton (zero : α) (leaves : List α) (leaf : α) :
    padded zero (leaves ++ [leaf]) leaves.length = leaf := by
  simp [padded]

theorem subroot_padded_of_length_le {zero : α} {level : ℕ} (h : leaves.length ≤ index * 2 ^ level) :
    subroot node (padded zero leaves) level index = zeroRoot node zero level := by
  rw [← subroot_const node zero level index]
  exact subroot_congr fun i hLow _ => padded_of_length_le (h.trans hLow)

/-- A subtree that is already full keeps its node when leaves are appended. -/
theorem subroot_padded_append {zero : α} {more : List α} {level : ℕ}
    (h : (index + 1) * 2 ^ level ≤ leaves.length) :
    subroot node (padded zero (leaves ++ more)) level index =
      subroot node (padded zero leaves) level index :=
  subroot_congr fun _ _ hHigh => padded_append_left (hHigh.trans_le h)

/-- One upward step: the running node is the left child at an even index and
the right child at an odd one. -/
def combine (node : α → α → α) (index : ℕ) (x sibling : α) : α :=
  if index % 2 = 0 then node x sibling else node sibling x

/-- Combine a node at `index` with one sibling per level. -/
def walk (node : α → α → α) : ℕ → α → List α → α
  | _, x, [] => x
  | index, x, sibling :: siblings =>
      walk node (index / 2) (combine node index x sibling) siblings

@[simp] theorem walk_nil (node : α → α → α) (index : ℕ) (x : α) :
    walk node index x [] = x := rfl

@[simp] theorem walk_cons (node : α → α → α) (index : ℕ) (x sibling : α) (siblings : List α) :
    walk node index x (sibling :: siblings) =
      walk node (index / 2) (combine node index x sibling) siblings := rfl

theorem walk_append (node : α → α → α) (index : ℕ) (x : α) (low high : List α) :
    walk node index x (low ++ high) =
      walk node (index / 2 ^ low.length) (walk node index x low) high := by
  induction low generalizing index x with
  | nil => simp
  | cons sibling low ih =>
      rw [List.cons_append, walk_cons, ih, walk_cons, List.length_cons, pow_succ',
        Nat.div_div_eq_div_mul]

/-- The position next to `index` below their common parent. -/
def siblingIndex (index : ℕ) : ℕ :=
  if index % 2 = 0 then index + 1 else index - 1

theorem combine_subroot (node : α → α → α) (leaf : ℕ → α) (level index : ℕ) :
    combine node index (subroot node leaf level index)
        (subroot node leaf level (siblingIndex index)) =
      subroot node leaf (level + 1) (index / 2) := by
  rw [subroot_succ, combine, siblingIndex]
  split
  · rw [show 2 * (index / 2) = index by omega]
  · rw [show 2 * (index / 2) = index - 1 by omega, show index - 1 + 1 = index by omega]

/-- The tree's own siblings on the way from the node `(level, index)` up `count` levels. -/
def siblingPath (node : α → α → α) (leaf : ℕ → α) : ℕ → ℕ → ℕ → List α
  | _, _, 0 => []
  | level, index, count + 1 =>
      subroot node leaf level (siblingIndex index) ::
        siblingPath node leaf (level + 1) (index / 2) count

@[simp] theorem siblingPath_length (node : α → α → α) (leaf : ℕ → α) (level index count : ℕ) :
    (siblingPath node leaf level index count).length = count := by
  induction count generalizing level index with
  | zero => rfl
  | succ count ih => simp [siblingPath, ih]

/-- Completeness: walking a node's own sibling path reaches its ancestor. -/
theorem walk_siblingPath (node : α → α → α) (leaf : ℕ → α) (level index count : ℕ) :
    walk node index (subroot node leaf level index) (siblingPath node leaf level index count) =
      subroot node leaf (level + count) (index / 2 ^ count) := by
  induction count generalizing level index with
  | zero => simp [siblingPath]
  | succ count ih =>
      rw [siblingPath, walk_cons, combine_subroot, ih, Nat.div_div_eq_div_mul, ← pow_succ',
        Nat.add_right_comm, Nat.add_assoc]

/-- The pairs combined to compute the node `(level, index)` from its leaves. -/
def pairs (node : α → α → α) (leaf : ℕ → α) : ℕ → ℕ → List (α × α)
  | 0, _ => []
  | level + 1, index =>
      (subroot node leaf level (2 * index), subroot node leaf level (2 * index + 1)) ::
        (pairs node leaf level (2 * index) ++ pairs node leaf level (2 * index + 1))

/-- The pair of children below the node `(level + 1, index)` is among the pairs of
every ancestor of that node. -/
theorem children_mem_pairs (node : α → α → α) (leaf : ℕ → α) (level index count : ℕ) :
    (subroot node leaf level (2 * index), subroot node leaf level (2 * index + 1)) ∈
      pairs node leaf (level + 1 + count) (index / 2 ^ count) := by
  induction count generalizing index level with
  | zero => simp [pairs]
  | succ count ih =>
      rw [← Nat.add_assoc, pairs, pow_succ, ← Nat.div_div_eq_div_mul]
      have hHalf := Nat.div_add_mod (index / 2 ^ count) 2
      rcases Nat.mod_two_eq_zero_or_one (index / 2 ^ count) with hMod | hMod
      · have hEven : 2 * (index / 2 ^ count / 2) = index / 2 ^ count := by omega
        rw [hEven]
        exact List.mem_cons_of_mem _ (List.mem_append_left _ (ih level index))
      · have hOdd : 2 * (index / 2 ^ count / 2) + 1 = index / 2 ^ count := by omega
        refine List.mem_cons_of_mem _ (List.mem_append_right _ ?_)
        rw [hOdd]
        exact ih level index

/-- The pairs combined by a walk. -/
def walkPairs (node : α → α → α) : ℕ → α → List α → List (α × α)
  | _, _, [] => []
  | index, x, sibling :: siblings =>
      (if index % 2 = 0 then (x, sibling) else (sibling, x)) ::
        walkPairs node (index / 2) (combine node index x sibling) siblings

variable {siblings : List α}

/-- Soundness: a walk of arbitrary siblings that reaches an ancestor of the
node `(level, index)` started at that node and used the tree's own siblings. The
pairing function has to be injective only on the pairs the walk and the tree combine. -/
theorem walk_eq_subroot {used : Set (α × α)} (hInj : Set.InjOn (Function.uncurry node) used)
    {level : ℕ} {x : α}
    (hTree : ∀ p ∈ pairs node leaf (level + siblings.length) (index / 2 ^ siblings.length), p ∈ used)
    (hWalk : ∀ p ∈ walkPairs node index x siblings, p ∈ used)
    (hRoot : walk node index x siblings = subroot node leaf (level + siblings.length) (index / 2 ^ siblings.length)) :
    x = subroot node leaf level index ∧
      siblings = siblingPath node leaf level index siblings.length := by
  induction siblings generalizing level index x with
  | nil => simpa [siblingPath] using hRoot
  | cons sibling siblings ih =>
      have hLevel : level + (siblings.length + 1) = level + 1 + siblings.length := by omega
      have hIndex : index / 2 ^ (siblings.length + 1) = index / 2 / 2 ^ siblings.length := by
        rw [Nat.div_div_eq_div_mul, ← pow_succ']
      simp only [List.length_cons, hLevel, hIndex, walk_cons] at hTree hRoot
      obtain ⟨hParent, hRest⟩ := ih hTree
        (fun p hp => hWalk p (List.mem_cons_of_mem _ hp)) hRoot
      -- The last pair combined at this level and the tree's own pair have one image.
      have hPairTree := hTree _ (children_mem_pairs node leaf level (index / 2) siblings.length)
      have hPairWalk := hWalk _ List.mem_cons_self
      rw [combine, subroot_succ] at hParent
      rw [List.length_cons, siblingPath, ← hRest, siblingIndex]
      split at hParent <;> rename_i hMod
      · rw [if_pos hMod] at hPairWalk ⊢
        have hEq := Prod.ext_iff.mp (hInj hPairWalk hPairTree hParent)
        have hEven : 2 * (index / 2) = index := by omega
        simp only [hEven] at hEq
        exact ⟨hEq.1, by rw [hEq.2]⟩
      · rw [if_neg hMod] at hPairWalk ⊢
        have hEq := Prod.ext_iff.mp (hInj hPairWalk hPairTree hParent)
        have hOdd : 2 * (index / 2) = index - 1 := by omega
        have hSelf : index - 1 + 1 = index := by omega
        simp only [hOdd, hSelf] at hEq
        exact ⟨hEq.2, by rw [hEq.1]⟩

/-- A walk of at least one step ends in the image of the last pair it combines. -/
theorem exists_walkPairs_of_ne_nil (node : α → α → α) (index : ℕ) (x : α) (h : siblings ≠ []) :
    ∃ p ∈ walkPairs node index x siblings, walk node index x siblings = node p.1 p.2 := by
  induction siblings generalizing index x with
  | nil => exact absurd rfl h
  | cons sibling siblings ih =>
      rw [walkPairs, walk_cons]
      by_cases hNil : siblings = []
      · subst hNil
        refine ⟨_, List.mem_cons_self, ?_⟩
        rw [walk_nil, combine]
        split <;> rfl
      · obtain ⟨p, hp, hWalk⟩ := ih (index / 2) (combine node index x sibling) hNil
        exact ⟨p, List.mem_cons_of_mem _ hp, hWalk⟩

theorem walkPairs_append (node : α → α → α) (index : ℕ) (x : α) (low high : List α) :
    walkPairs node index x (low ++ high) =
      walkPairs node index x low ++
        walkPairs node (index / 2 ^ low.length) (walk node index x low) high := by
  induction low generalizing index x with
  | nil => simp [walkPairs]
  | cons sibling low ih =>
      rw [List.cons_append, walkPairs, ih, walkPairs, walk_cons, List.length_cons, pow_succ',
        Nat.div_div_eq_div_mul, List.cons_append]

/-- A walk from a position in its range that reaches the root of a tree at least as high as it
is long starts at a node of that tree. -/
theorem walk_eq_root_of_le {used : Set (α × α)} (hInj : Set.InjOn (Function.uncurry node) used)
    {depth : ℕ} {x : α} (hLength : siblings.length ≤ depth) (hIndex : index < 2 ^ siblings.length)
    (hTree : ∀ p ∈ pairs node leaf depth 0, p ∈ used)
    (hWalk : ∀ p ∈ walkPairs node index x siblings, p ∈ used)
    (hRoot : walk node index x siblings = subroot node leaf depth 0) :
    x = subroot node leaf (depth - siblings.length) index := by
  have hLevel : depth - siblings.length + siblings.length = depth := by omega
  have hTop : index / 2 ^ siblings.length = 0 := Nat.div_eq_of_lt hIndex
  have hTree' : ∀ p ∈ pairs node leaf (depth - siblings.length + siblings.length)
      (index / 2 ^ siblings.length), p ∈ used := by
    rw [hLevel, hTop]
    exact hTree
  refine (walk_eq_subroot hInj hTree' hWalk ?_).1
  rw [hLevel, hTop]
  exact hRoot

/-- A walk longer than the tree is high passes through a leaf of the tree. -/
theorem walk_eq_root_of_ge {used : Set (α × α)} (hInj : Set.InjOn (Function.uncurry node) used)
    {depth : ℕ} {x : α} (hLength : depth ≤ siblings.length) (hIndex : index < 2 ^ siblings.length)
    (hTree : ∀ p ∈ pairs node leaf depth 0, p ∈ used)
    (hWalk : ∀ p ∈ walkPairs node index x siblings, p ∈ used)
    (hRoot : walk node index x siblings = subroot node leaf depth 0) :
    walk node index x (siblings.take (siblings.length - depth)) =
      leaf (index / 2 ^ (siblings.length - depth)) := by
  obtain ⟨low, high, rfl, hHigh⟩ : ∃ low high, siblings = low ++ high ∧ high.length = depth :=
    ⟨siblings.take (siblings.length - depth), siblings.drop (siblings.length - depth),
      (List.take_append_drop _ _).symm, by rw [List.length_drop]; omega⟩
  have hLow : (low ++ high).length - depth = low.length := by rw [List.length_append]; omega
  rw [hLow, List.take_left]
  rw [walkPairs_append] at hWalk
  rw [walk_append] at hRoot
  have hRange : index / 2 ^ low.length < 2 ^ high.length := by
    rw [Nat.div_lt_iff_lt_mul (Nat.two_pow_pos _), ← pow_add, Nat.add_comm]
    rwa [List.length_append] at hIndex
  have hLeaf := walk_eq_root_of_le hInj hHigh.le hRange hTree
    (fun p hp => hWalk p (List.mem_append_right _ hp)) hRoot
  rwa [hHigh, Nat.sub_self, subroot_zero] at hLeaf

end Merkle
