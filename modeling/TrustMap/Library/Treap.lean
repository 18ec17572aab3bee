import Mathlib.Order.Bounds.Basic
import TrustMap.Library.KeyTree

/-!
Treaps: search trees in which every node also comes before its descendants in a second, strict
order. Insertion by rotations keeps both orders, the two orders leave one tree for each set of
keys, and the search for a missing key passes its nearest keys on both sides.
-/

universe u v

namespace KeyTree

variable {α : Type u}

/-- Every node has a smaller rank than the nodes below it. -/
def Heap {β : Type v} [LT β] (rank : α → β) : KeyTree α → Prop
  | leaf => True
  | node left key right =>
      left.Heap rank ∧ right.Heap rank ∧ (∀ x ∈ left.toList, rank key < rank x) ∧
        ∀ x ∈ right.toList, rank key < rank x

theorem Heap.top_le {β : Type v} [LinearOrder β] {rank : α → β} {left right : KeyTree α}
    {key x : α} (h : (node left key right).Heap rank) (hMem : x ∈ (node left key right).toList) :
    rank key ≤ rank x := by
  obtain ⟨-, -, hLeft, hRight⟩ := h
  rw [toList, List.mem_append, List.mem_cons] at hMem
  rcases hMem with hMem | rfl | hMem
  · exact (hLeft x hMem).le
  · exact le_rfl
  · exact (hRight x hMem).le

/-- A child that does not go up is below its parent in the heap order, with all it holds. -/
theorem Heap.above_of_not_topBefore {β : Type v} [LinearOrder β] {rank : α → β}
    {before : α → α → Bool} (hRank : Function.Injective rank)
    (hBefore : ∀ a b, before a b = true ↔ rank a < rank b) {tree : KeyTree α} {key : α}
    (h : tree.Heap rank) (hKey : key ∉ tree.toList) (hTop : ¬ tree.topBefore before key = true) :
    ∀ x ∈ tree.toList, rank key < rank x := by
  intro x hMem
  cases tree with
  | leaf => cases hMem
  | node left top right =>
      rw [topBefore, hBefore, not_lt] at hTop
      have hTopMem : top ∈ (node left top right).toList := by simp [toList]
      have hNe : rank key ≠ rank top := fun hEq => hKey (hRank hEq ▸ hTopMem)
      exact (lt_of_le_of_ne hTop hNe).trans_le (h.top_le hMem)

variable [LinearOrder α]

section Heap

variable {β : Type v} [LinearOrder β] {rank : α → β} {before : α → α → Bool}

/-- Only the inserted key goes up, so that what it leaves behind are keys that were there. -/
theorem Heap.top_eq_of_topBefore (hBefore : ∀ a b, before a b = true ↔ rank a < rank b)
    {tree left right : KeyTree α} {k key top : α}
    (hAbove : ∀ x ∈ tree.toList, rank key < rank x)
    (hInsert : tree.insert before k = node left top right)
    (hTop : (tree.insert before k).topBefore before key = true) : top = k := by
  rw [hInsert, topBefore, hBefore] at hTop
  have hMem : top ∈ (tree.insert before k).toList := by simp [hInsert, toList]
  rcases mem_insert.mp hMem with hNew | hOld
  · exact hNew
  · exact absurd (hAbove top hOld) (not_lt.mpr hTop.le)

/-- Keys that were there before an insertion are below the node in the heap order; the inserted
key is the one that has gone up. -/
theorem Heap.above_of_ne {tree : KeyTree α} {k key : α}
    (hAbove : ∀ x ∈ tree.toList, rank key < rank x) {x : α}
    (hMem : x ∈ (tree.insert before k).toList) (hNe : x ≠ k) : rank key < rank x := by
  rcases mem_insert.mp hMem with hNew | hOld
  · exact absurd hNew hNe
  · exact hAbove x hOld

section Insert

variable {left right : KeyTree α} {k key : α} (hRank : Function.Injective rank)
  (hBefore : ∀ a b, before a b = true ↔ rank a < rank b) (hOrdered : (node left key right).Ordered)
  (h : (node left key right).Heap rank)

include hRank hBefore hOrdered h

theorem Heap.insert_left (hLt : k < key) (hInserted : (left.insert before k).Heap rank) :
    (if (left.insert before k).topBefore before key
      then (node (left.insert before k) key right).rotateRight
      else node (left.insert before k) key right).Heap rank := by
  obtain ⟨hLeftOrdered, -, hBelow, -⟩ := ordered_node.mp hOrdered
  obtain ⟨-, hRight, hLeftRank, hRightRank⟩ := h
  have hSorted : (left.insert before k).Ordered := hLeftOrdered.insert
  split
  · rename_i hTop
    have hOld := fun x => @Heap.above_of_ne _ _ _ _ rank before left k key hLeftRank x
    cases hInsert : left.insert before k with
    | leaf => simp [hInsert, topBefore] at hTop
    | node a top b =>
        obtain rfl := Heap.top_eq_of_topBefore hBefore hLeftRank hInsert hTop
        rw [hInsert] at hInserted hSorted hTop hOld
        rw [topBefore, hBefore] at hTop
        obtain ⟨ha, hb, hTopA, hTopB⟩ := hInserted
        have hOldB : ∀ x ∈ b.toList, rank key < rank x := by
          intro x hMem
          exact hOld x (by simp [toList, hMem]) ((ordered_node.mp hSorted).2.2.2 x hMem).ne'
        refine ⟨ha, ⟨hb, hRight, hOldB, hRightRank⟩, hTopA, fun x hMem => ?_⟩
        rw [toList, List.mem_append, List.mem_cons] at hMem
        rcases hMem with hMem | rfl | hMem
        · exact hTopB x hMem
        · exact hTop
        · exact hTop.trans (hRightRank x hMem)
  · rename_i hTop
    refine ⟨hInserted, hRight, hInserted.above_of_not_topBefore hRank hBefore ?_ hTop, hRightRank⟩
    intro hMem
    rcases mem_insert.mp hMem with rfl | hOld
    · exact lt_irrefl _ hLt
    · exact lt_irrefl _ (hBelow key hOld)

theorem Heap.insert_right (hGt : key < k) (hInserted : (right.insert before k).Heap rank) :
    (if (right.insert before k).topBefore before key
      then (node left key (right.insert before k)).rotateLeft
      else node left key (right.insert before k)).Heap rank := by
  obtain ⟨-, hRightOrdered, -, hOver⟩ := ordered_node.mp hOrdered
  obtain ⟨hLeft, -, hLeftRank, hRightRank⟩ := h
  have hSorted : (right.insert before k).Ordered := hRightOrdered.insert
  split
  · rename_i hTop
    have hOld := fun x => @Heap.above_of_ne _ _ _ _ rank before right k key hRightRank x
    cases hInsert : right.insert before k with
    | leaf => simp [hInsert, topBefore] at hTop
    | node a top b =>
        obtain rfl := Heap.top_eq_of_topBefore hBefore hRightRank hInsert hTop
        rw [hInsert] at hInserted hSorted hTop hOld
        rw [topBefore, hBefore] at hTop
        obtain ⟨ha, hb, hTopA, hTopB⟩ := hInserted
        have hOldA : ∀ x ∈ a.toList, rank key < rank x := by
          intro x hMem
          exact hOld x (by simp [toList, hMem]) ((ordered_node.mp hSorted).2.2.1 x hMem).ne
        refine ⟨⟨hLeft, ha, hLeftRank, hOldA⟩, hb, fun x hMem => ?_, hTopB⟩
        rw [toList, List.mem_append, List.mem_cons] at hMem
        rcases hMem with hMem | rfl | hMem
        · exact hTop.trans (hLeftRank x hMem)
        · exact hTop
        · exact hTopA x hMem
  · rename_i hTop
    refine ⟨hLeft, hInserted, hLeftRank, hInserted.above_of_not_topBefore hRank hBefore ?_ hTop⟩
    intro hMem
    rcases mem_insert.mp hMem with rfl | hOld
    · exact lt_irrefl _ hGt
    · exact lt_irrefl _ (hOver key hOld)

end Insert

/-- Insertion keeps the heap order. -/
theorem Heap.insert (hRank : Function.Injective rank)
    (hBefore : ∀ a b, before a b = true ↔ rank a < rank b) {k : α} {tree : KeyTree α}
    (hOrdered : tree.Ordered) (h : tree.Heap rank) : (tree.insert before k).Heap rank := by
  induction tree with
  | leaf => simp [KeyTree.insert, Heap, toList]
  | node left key right ihLeft ihRight =>
      obtain ⟨hLeftOrdered, hRightOrdered, -⟩ := ordered_node.mp hOrdered
      rw [KeyTree.insert]
      split
      · rename_i hLt
        exact Heap.insert_left hRank hBefore hOrdered h hLt (ihLeft hLeftOrdered h.1)
      · split
        · rename_i hGt
          exact Heap.insert_right hRank hBefore hOrdered h hGt (ihRight hRightOrdered h.2.1)
        · exact h

/-- The keys of the left child are the ones before the key of the node. -/
theorem mem_left_iff {left right : KeyTree α} {key x : α} (h : (node left key right).Ordered) :
    x ∈ left.toList ↔ x ∈ (node left key right).toList ∧ x < key := by
  obtain ⟨-, -, hBelow, hOver⟩ := ordered_node.mp h
  rw [toList, List.mem_append, List.mem_cons]
  constructor
  · intro hMem
    exact ⟨Or.inl hMem, hBelow x hMem⟩
  · rintro ⟨hMem | rfl | hMem, hLt⟩
    · exact hMem
    · exact absurd hLt (lt_irrefl _)
    · exact absurd hLt (lt_asymm (hOver x hMem))

/-- The keys of the right child are the ones after the key of the node. -/
theorem mem_right_iff {left right : KeyTree α} {key x : α} (h : (node left key right).Ordered) :
    x ∈ right.toList ↔ x ∈ (node left key right).toList ∧ key < x := by
  obtain ⟨-, -, hBelow, hOver⟩ := ordered_node.mp h
  rw [toList, List.mem_append, List.mem_cons]
  constructor
  · intro hMem
    exact ⟨Or.inr (Or.inr hMem), hOver x hMem⟩
  · rintro ⟨hMem | rfl | hMem, hLt⟩
    · exact absurd hLt (lt_asymm (hBelow x hMem))
    · exact absurd hLt (lt_irrefl _)
    · exact hMem

/-- The two orders leave one tree for a set of keys: the key of least rank is at the top, and the
others are below it on the side where they belong. -/
theorem Heap.unique (hRank : Function.Injective rank) {tree other : KeyTree α}
    (hOrdered : tree.Ordered) (hHeap : tree.Heap rank) (hOrdered' : other.Ordered)
    (hHeap' : other.Heap rank) (hMem : ∀ x, x ∈ tree.toList ↔ x ∈ other.toList) :
    tree = other := by
  induction tree generalizing other with
  | leaf =>
      cases other with
      | leaf => rfl
      | node left key right => simpa [toList] using hMem key
  | node left key right ihLeft ihRight =>
      cases other with
      | leaf => simpa [toList] using hMem key
      | node left' key' right' =>
          have hTop : key ∈ (node left' key' right').toList := (hMem key).mp (by simp [toList])
          have hTop' : key' ∈ (node left key right).toList := (hMem key').mpr (by simp [toList])
          obtain rfl : key = key' :=
            hRank (le_antisymm (hHeap.top_le hTop') (hHeap'.top_le hTop))
          have hLefts : ∀ x, x ∈ left.toList ↔ x ∈ left'.toList := by
            intro x
            rw [mem_left_iff hOrdered, mem_left_iff hOrdered', hMem]
          have hRights : ∀ x, x ∈ right.toList ↔ x ∈ right'.toList := by
            intro x
            rw [mem_right_iff hOrdered, mem_right_iff hOrdered', hMem]
          obtain ⟨hOrderedL, hOrderedR, -⟩ := ordered_node.mp hOrdered
          obtain ⟨hOrderedL', hOrderedR', -⟩ := ordered_node.mp hOrdered'
          rw [ihLeft hOrderedL hHeap.1 hOrderedL' hHeap'.1 hLefts,
            ihRight hOrderedR hHeap.2.1 hOrderedR' hHeap'.2.1 hRights]

end Heap

/-! ## The neighbours of a missing key -/

/-- The search for a missing key ends between its neighbours in the list of keys. -/
theorem neighbours_eq {k : α} {tree : KeyTree α} (h : tree.Ordered) (hMissing : k ∉ tree.toList)
    (smaller larger : Option α) :
    tree.neighbours k smaller larger =
      ((tree.toList.filter (· < k)).getLast?.or smaller,
        (tree.toList.filter (k < ·)).head?.or larger) := by
  induction tree generalizing smaller larger with
  | leaf => simp [neighbours, toList]
  | node left key right ihLeft ihRight =>
      obtain ⟨hLeft, hRight, hBelow, hOver⟩ := ordered_node.mp h
      rw [toList, List.mem_append, List.mem_cons, not_or, not_or] at hMissing
      obtain ⟨hNotLeft, hNotKey, hNotRight⟩ := hMissing
      rw [neighbours]
      rcases lt_or_gt_of_ne hNotKey with hLt | hGt
      · have hNone : right.toList.filter (· < k) = [] := by
          simp only [List.filter_eq_nil_iff, decide_eq_true_eq]
          exact fun x hMem => lt_asymm (hLt.trans (hOver x hMem))
        rw [if_pos hLt, ihLeft hLeft hNotLeft]
        simp [toList, hNone, hLt, lt_asymm hLt]
      · have hNone : left.toList.filter (k < ·) = [] := by
          simp only [List.filter_eq_nil_iff, decide_eq_true_eq]
          exact fun x hMem => lt_asymm ((hBelow x hMem).trans hGt)
        rw [if_neg (lt_asymm hGt), if_pos hGt, ihRight hRight hNotRight]
        simp [toList, hNone, hGt, lt_asymm hGt, List.getLast?_cons]

theorem isLeast_of_head? {keys : List α} (h : keys.Pairwise (· < ·)) {x : α} :
    keys.head? = some x ↔ IsLeast {y | y ∈ keys} x := by
  cases keys with
  | nil => simp [IsLeast]
  | cons first keys =>
      have hFirst : IsLeast {y | y ∈ first :: keys} first := by
        refine ⟨List.mem_cons_self, fun y hMem => ?_⟩
        rcases List.mem_cons.mp hMem with rfl | hMem
        · exact le_rfl
        · exact (List.rel_of_pairwise_cons h hMem).le
      rw [List.head?_cons, Option.some_inj]
      constructor
      · rintro rfl
        exact hFirst
      · exact fun hLeast => hFirst.unique hLeast

theorem isGreatest_of_getLast? {keys : List α} (h : keys.Pairwise (· < ·)) {x : α} :
    keys.getLast? = some x ↔ IsGreatest {y | y ∈ keys} x := by
  rcases List.eq_nil_or_concat keys with rfl | ⟨keys, last, hKeys⟩
  · simp [IsGreatest]
  · obtain rfl : _ = keys ++ [last] := hKeys.trans List.concat_eq_append
    have hLast : IsGreatest {y | y ∈ keys ++ [last]} last := by
      refine ⟨by simp, fun y hMem => ?_⟩
      rcases List.mem_append.mp hMem with hMem | hMem
      · exact ((List.pairwise_append.mp h).2.2 y hMem last (by simp)).le
      · exact (List.mem_singleton.mp hMem).le
    rw [List.getLast?_concat, Option.some_inj]
    constructor
    · rintro rfl
      exact hLast
    · exact fun hGreatest => hLast.unique hGreatest

section Neighbours

variable {k : α} {tree : KeyTree α}

theorem neighbours_fst_eq_some (h : tree.Ordered) (hMissing : k ∉ tree.toList) {x : α} :
    (tree.neighbours k none none).1 = some x ↔ IsGreatest {y | y ∈ tree.toList ∧ y < k} x := by
  rw [neighbours_eq h hMissing]
  dsimp only
  rw [Option.or_none, isGreatest_of_getLast? (List.Pairwise.filter _ h)]
  simp

theorem neighbours_snd_eq_some (h : tree.Ordered) (hMissing : k ∉ tree.toList) {x : α} :
    (tree.neighbours k none none).2 = some x ↔ IsLeast {y | y ∈ tree.toList ∧ k < y} x := by
  rw [neighbours_eq h hMissing]
  dsimp only
  rw [Option.or_none, isLeast_of_head? (List.Pairwise.filter _ h)]
  simp

theorem neighbours_fst_eq_none (h : tree.Ordered) (hMissing : k ∉ tree.toList) :
    (tree.neighbours k none none).1 = none ↔ ∀ y ∈ tree.toList, ¬ y < k := by
  rw [neighbours_eq h hMissing]
  simp

theorem neighbours_snd_eq_none (h : tree.Ordered) (hMissing : k ∉ tree.toList) :
    (tree.neighbours k none none).2 = none ↔ ∀ y ∈ tree.toList, ¬ k < y := by
  rw [neighbours_eq h hMissing]
  simp

end Neighbours

end KeyTree
