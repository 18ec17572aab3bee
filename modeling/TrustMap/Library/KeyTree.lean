import Mathlib.Data.List.Pairwise
import Mathlib.Order.Lattice
import Mathlib.Tactic.Common

/-!
Search trees that are balanced by rotations, as a treap is. Rotations do not change the keys in
order, so that looking up a key and its neighbours only rests on the order of the keys.
-/

universe u

/-- A binary tree with a key in each node. -/
inductive KeyTree (α : Type u)
  | leaf
  | node (left : KeyTree α) (key : α) (right : KeyTree α)
  deriving DecidableEq

namespace KeyTree

variable {α : Type u}

/-- The keys from left to right. -/
def toList : KeyTree α → List α
  | leaf => []
  | node left key right => left.toList ++ key :: right.toList

/-- Bring the left child to the top. -/
def rotateRight : KeyTree α → KeyTree α
  | node (node a x b) y c => node a x (node b y c)
  | tree => tree

/-- Bring the right child to the top. -/
def rotateLeft : KeyTree α → KeyTree α
  | node a x (node b y c) => node (node a x b) y c
  | tree => tree

@[simp] theorem toList_rotateRight (tree : KeyTree α) : tree.rotateRight.toList = tree.toList := by
  unfold rotateRight
  split <;> simp [toList]

@[simp] theorem toList_rotateLeft (tree : KeyTree α) : tree.rotateLeft.toList = tree.toList := by
  unfold rotateLeft
  split <;> simp [toList]

/-- Whether the key at the top of the first tree comes before the given key in the heap order. -/
def topBefore (before : α → α → Bool) : KeyTree α → α → Bool
  | leaf, _ => false
  | node _ key _, other => before key other

variable [LinearOrder α]

/-- Look a key up. -/
def contains (k : α) : KeyTree α → Bool
  | leaf => false
  | node left key right =>
      if k < key then left.contains k else if key < k then right.contains k else true

/-- The nearest smaller and the nearest larger key on the way to a key, after the ones found so
far. -/
def neighbours (k : α) : KeyTree α → Option α → Option α → Option α × Option α
  | leaf, smaller, larger => (smaller, larger)
  | node left key right, smaller, larger =>
      if k < key then left.neighbours k smaller (some key)
      else if key < k then right.neighbours k (some key) larger
      else (smaller, larger)

/-- Insert a key at a leaf and rotate it up as long as the heap order asks for it. A key that is there
is not inserted again. -/
def insert (before : α → α → Bool) (k : α) : KeyTree α → KeyTree α
  | leaf => node leaf k leaf
  | node left key right =>
      if k < key then
        let left := left.insert before k
        if left.topBefore before key then (node left key right).rotateRight else node left key right
      else if key < k then
        let right := right.insert before k
        if right.topBefore before key then (node left key right).rotateLeft else node left key right
      else node left key right

/-- The keys are in order from left to right. -/
def Ordered (tree : KeyTree α) : Prop :=
  tree.toList.Pairwise (· < ·)

theorem ordered_node {left right : KeyTree α} {key : α} :
    (node left key right).Ordered ↔ left.Ordered ∧ right.Ordered ∧ (∀ x ∈ left.toList, x < key) ∧
      ∀ x ∈ right.toList, key < x := by
  simp only [Ordered, toList, List.pairwise_append, List.pairwise_cons, List.mem_cons]
  constructor
  · rintro ⟨hLeft, ⟨hKey, hRight⟩, hAll⟩
    exact ⟨hLeft, hRight, fun x hMem => hAll x hMem key (Or.inl rfl), hKey⟩
  · rintro ⟨hLeft, hRight, hBelow, hAbove⟩
    refine ⟨hLeft, ⟨hAbove, hRight⟩, fun x hMem y hMem' => ?_⟩
    rcases hMem' with rfl | hMem'
    · exact hBelow x hMem
    · exact lt_trans (hBelow x hMem) (hAbove y hMem')

/-- The keys after an insertion, before any rotation. -/
theorem toList_insert_node {before : α → α → Bool} {k key : α} {left right : KeyTree α} :
    ((node left key right).insert before k).toList =
      if k < key then (node (left.insert before k) key right).toList
      else if key < k then (node left key (right.insert before k)).toList
      else (node left key right).toList := by
  rw [insert]
  split
  · dsimp only
    split <;> simp
  · split
    · dsimp only
      split <;> simp
    · rfl

theorem mem_insert {before : α → α → Bool} {k x : α} {tree : KeyTree α} :
    x ∈ (tree.insert before k).toList ↔ x = k ∨ x ∈ tree.toList := by
  induction tree with
  | leaf => simp [insert, toList]
  | node left key right ihLeft ihRight =>
      rw [toList_insert_node]
      split
      · simp only [toList, List.mem_append, List.mem_cons, ihLeft, or_assoc]
      · split
        · simp only [toList, List.mem_append, List.mem_cons, ihRight]
          tauto
        · have hSame : k = key := le_antisymm (not_lt.mp ‹_›) (not_lt.mp ‹_›)
          simp only [toList, List.mem_append, List.mem_cons, hSame]
          tauto

theorem Ordered.insert {before : α → α → Bool} {k : α} {tree : KeyTree α} (h : tree.Ordered) :
    (tree.insert before k).Ordered := by
  induction tree with
  | leaf => simp [KeyTree.insert, Ordered, toList]
  | node left key right ihLeft ihRight =>
      obtain ⟨hLeft, hRight, hBelow, hAbove⟩ := ordered_node.mp h
      rw [Ordered, toList_insert_node]
      split
      · refine ordered_node.mpr ⟨ihLeft hLeft, hRight, fun x hMem => ?_, hAbove⟩
        rcases mem_insert.mp hMem with rfl | hMem
        · assumption
        · exact hBelow x hMem
      · split
        · refine ordered_node.mpr ⟨hLeft, ihRight hRight, hBelow, fun x hMem => ?_⟩
          rcases mem_insert.mp hMem with rfl | hMem
          · assumption
          · exact hAbove x hMem
        · exact h

theorem contains_iff {k : α} {tree : KeyTree α} (h : tree.Ordered) :
    tree.contains k = true ↔ k ∈ tree.toList := by
  induction tree with
  | leaf => simp [contains, toList]
  | node left key right ihLeft ihRight =>
      obtain ⟨hLeft, hRight, hBelow, hAbove⟩ := ordered_node.mp h
      rw [contains, toList, List.mem_append, List.mem_cons]
      split
      · rename_i hLt
        rw [ihLeft hLeft]
        refine ⟨Or.inl, fun hMem => ?_⟩
        rcases hMem with hMem | rfl | hMem
        · exact hMem
        · exact absurd hLt (lt_irrefl _)
        · exact absurd hLt (not_lt.mpr (le_of_lt (hAbove k hMem)))
      · split
        · rename_i hGt
          rw [ihRight hRight]
          refine ⟨fun hMem => Or.inr (Or.inr hMem), fun hMem => ?_⟩
          rcases hMem with hMem | rfl | hMem
          · exact absurd hGt (not_lt.mpr (le_of_lt (hBelow k hMem)))
          · exact absurd hGt (lt_irrefl _)
          · exact hMem
        · have hSame : k = key := le_antisymm (not_lt.mp ‹_›) (not_lt.mp ‹_›)
          simp [hSame]

/-- What the search for neighbours returns was given to it or is a key of the tree on the right
side. -/
theorem mem_of_neighbours {k : α} {tree : KeyTree α} {smaller larger : Option α} :
    (∀ x, (tree.neighbours k smaller larger).1 = some x →
        smaller = some x ∨ (x ∈ tree.toList ∧ x < k)) ∧
      ∀ x, (tree.neighbours k smaller larger).2 = some x →
        larger = some x ∨ (x ∈ tree.toList ∧ k < x) := by
  induction tree generalizing smaller larger with
  | leaf => exact ⟨fun x hx => Or.inl hx, fun x hx => Or.inl hx⟩
  | node left key right ihLeft ihRight =>
      rw [neighbours]
      simp only [toList, List.mem_append, List.mem_cons]
      split
      · rename_i hLt
        obtain ⟨hSmaller, hLarger⟩ := @ihLeft smaller (some key)
        refine ⟨fun x hx => (hSmaller x hx).imp_right fun h => ⟨Or.inl h.1, h.2⟩, fun x hx => ?_⟩
        rcases hLarger x hx with hKey | ⟨hMem, hAbove⟩
        · cases hKey
          exact Or.inr ⟨Or.inr (Or.inl rfl), hLt⟩
        · exact Or.inr ⟨Or.inl hMem, hAbove⟩
      · split
        · rename_i hGt
          obtain ⟨hSmaller, hLarger⟩ := @ihRight (some key) larger
          refine ⟨fun x hx => ?_, fun x hx =>
            (hLarger x hx).imp_right fun h => ⟨Or.inr (Or.inr h.1), h.2⟩⟩
          rcases hSmaller x hx with hKey | ⟨hMem, hBelow⟩
          · cases hKey
            exact Or.inr ⟨Or.inr (Or.inl rfl), hGt⟩
          · exact Or.inr ⟨Or.inr (Or.inr hMem), hBelow⟩
        · exact ⟨fun x hx => Or.inl hx, fun x hx => Or.inl hx⟩

end KeyTree
