import TrustMap.Library.Merkle

/-!
Incremental construction of a padded perfect tree. A frontier stores, for every
level at which the number of leaves has a set bit, the node of the last full
subtree of that height; slots at other levels hold anything, so that a frontier
can be reused without being cleared for correctness. Appending one leaf costs one
pairing per level.
-/

namespace Frontier

open Merkle

variable {α : Type*}

/-- The variables of the append loop. -/
structure Carry (α : Type*) where
  frontier : List α
  carried : α
  index : ℕ

/-- The loop body at one level: at an even index the carried node opens a slot of
the frontier and is paired with an empty subtree, at an odd index it closes the slot. -/
def appendLevel (node : α → α → α) (zero : α) (zeros : List α) (level : ℕ)
    (s : Carry α) : Carry α :=
  if s.index % 2 = 0 then
    ⟨s.frontier.set level s.carried, node s.carried (zeros.getD level zero), s.index / 2⟩
  else
    ⟨s.frontier, node (s.frontier.getD level zero) s.carried, s.index / 2⟩

/-- The append loop after a number of levels. -/
def appendLoop (node : α → α → α) (zero : α) (zeros frontier : List α) (leaf : α)
    (count : ℕ) : ℕ → Carry α
  | 0 => ⟨frontier, leaf, count⟩
  | level + 1 =>
      appendLevel node zero zeros level (appendLoop node zero zeros frontier leaf count level)

/-- The roots of the empty subtrees, one per level below the depth. -/
def ZeroSubtrees (node : α → α → α) (zero : α) (depth : ℕ) (zeros : List α) : Prop :=
  ∀ level < depth, zeros.getD level zero = zeroRoot node zero level

/-- The frontier of a leaf list: the slot of every set bit of the leaf count holds the
last full subtree of that height. -/
structure Valid (node : α → α → α) (zero : α) (depth : ℕ) (leaves frontier : List α) : Prop where
  length_eq : frontier.length = depth
  slot : ∀ level < depth, leaves.length / 2 ^ level % 2 = 1 →
    frontier.getD level zero =
      subroot node (padded zero leaves) level (leaves.length / 2 ^ level - 1)

/-- Any frontier of the right length is valid for the empty tree. -/
theorem Valid.nil {node : α → α → α} {zero : α} {depth : ℕ} {frontier : List α}
    (h : frontier.length = depth) : Valid node zero depth [] frontier where
  length_eq := h
  slot level _ hBit := by simp at hBit

section Append

variable {node : α → α → α} {zero leaf : α} {zeros frontier leaves : List α} {depth : ℕ}

theorem appendLoop_index (count levels : ℕ) :
    (appendLoop node zero zeros frontier leaf count levels).index = count / 2 ^ levels := by
  induction levels with
  | zero => simp [appendLoop]
  | succ levels ih =>
      rw [appendLoop, appendLevel, pow_succ, ← Nat.div_div_eq_div_mul, ← ih]
      split <;> rfl

theorem appendLoop_frontier_length (count levels : ℕ) :
    (appendLoop node zero zeros frontier leaf count levels).frontier.length =
      frontier.length := by
  induction levels with
  | zero => rfl
  | succ levels ih =>
      rw [appendLoop, appendLevel, ← ih]
      split
      · exact List.length_set
      · rfl

/-- The loop has not touched the slots it has not reached. -/
theorem appendLoop_frontier_above (count : ℕ) {levels level : ℕ} (h : levels ≤ level) :
    (appendLoop node zero zeros frontier leaf count levels).frontier.getD level zero =
      frontier.getD level zero := by
  induction levels with
  | zero => rfl
  | succ levels ih =>
      rw [appendLoop, appendLevel, ← ih (Nat.le_of_succ_le h)]
      split
      · simp [List.getD, List.getElem?_set_ne (Nat.ne_of_lt h)]
      · rfl

/-- The node that an empty sibling, respectively the stored left sibling, completes. -/
private theorem carried_step {carried : α} {n level : ℕ} (hLen : leaves.length = n)
    (hZeros : zeros.getD level zero = zeroRoot node zero level)
    (hSlot : n / 2 ^ level % 2 = 1 →
      frontier.getD level zero = subroot node (padded zero leaves) level (n / 2 ^ level - 1))
    (hCarried : carried =
      subroot node (padded zero (leaves ++ [leaf])) level (n / 2 ^ level)) :
    (if n / 2 ^ level % 2 = 0 then node carried (zeros.getD level zero)
      else node (frontier.getD level zero) carried) =
      subroot node (padded zero (leaves ++ [leaf])) (level + 1) (n / 2 ^ (level + 1)) := by
  subst hLen
  have hPos := Nat.two_pow_pos level
  have hLow := Nat.div_mul_le_self leaves.length (2 ^ level)
  have hHigh := Nat.lt_div_mul_add (a := leaves.length) hPos
  rw [subroot_succ, pow_succ, ← Nat.div_div_eq_div_mul]
  split
  · rename_i hEven
    have hSelf : 2 * (leaves.length / 2 ^ level / 2) = leaves.length / 2 ^ level := by omega
    have hEmpty : (leaves ++ [leaf]).length ≤ (leaves.length / 2 ^ level + 1) * 2 ^ level := by
      rw [List.length_append, List.length_singleton, Nat.succ_mul]
      omega
    rw [hSelf, hCarried, hZeros, subroot_padded_of_length_le hEmpty]
  · rename_i hOdd
    have hBit : leaves.length / 2 ^ level % 2 = 1 := by omega
    have hLeft : 2 * (leaves.length / 2 ^ level / 2) = leaves.length / 2 ^ level - 1 := by omega
    have hSelf : leaves.length / 2 ^ level - 1 + 1 = leaves.length / 2 ^ level := by omega
    have hFull : (leaves.length / 2 ^ level - 1 + 1) * 2 ^ level ≤ leaves.length := by
      rwa [hSelf]
    rw [hLeft, hSelf, hCarried, hSlot hBit, subroot_padded_append hFull]

/-- Invariant of the loop: after `levels` levels the carried node is the node of that
height above the new leaf. -/
theorem appendLoop_carried (hZeros : ZeroSubtrees node zero depth zeros)
    (hValid : Valid node zero depth leaves frontier) {levels : ℕ} (h : levels ≤ depth) :
    (appendLoop node zero zeros frontier leaf leaves.length levels).carried =
      subroot node (padded zero (leaves ++ [leaf])) levels (leaves.length / 2 ^ levels) := by
  induction levels with
  | zero => simp [appendLoop, padded_append_singleton]
  | succ level ih =>
      have hStep := carried_step rfl (hZeros level h) (hValid.slot level h)
        (ih (Nat.le_of_succ_le h))
      rw [← hStep, appendLoop, appendLevel, appendLoop_index, appendLoop_frontier_above _ le_rfl]
      split <;> rfl

/-- The slot of a level already passed: the carried node of that level at an even
index, the old slot at an odd one. -/
theorem appendLoop_frontier_below {count levels level : ℕ} (hLevel : level < levels)
    (hDepth : level < frontier.length) :
    (appendLoop node zero zeros frontier leaf count levels).frontier.getD level zero =
      if count / 2 ^ level % 2 = 0 then
        (appendLoop node zero zeros frontier leaf count level).carried
      else frontier.getD level zero := by
  induction levels with
  | zero => omega
  | succ levels ih =>
      rcases Nat.lt_succ_iff_lt_or_eq.mp hLevel with hBelow | rfl
      · rw [← ih hBelow, appendLoop, appendLevel]
        split
        · simp [List.getD, List.getElem?_set_ne (Nat.ne_of_gt hBelow)]
        · rfl
      · rw [appendLoop, appendLevel, appendLoop_index]
        split
        · have hBound :
              level < (appendLoop node zero zeros frontier leaf count level).frontier.length := by
            rwa [appendLoop_frontier_length]
          simp [List.getD, List.getElem?_set_self hBound]
        · exact appendLoop_frontier_above _ le_rfl

/-- Appending to a tree that is not full yields the root over the longer leaf list. -/
theorem appendLoop_root (leaf : α) (hZeros : ZeroSubtrees node zero depth zeros)
    (hValid : Valid node zero depth leaves frontier) (hRoom : leaves.length < 2 ^ depth) :
    (appendLoop node zero zeros frontier leaf leaves.length depth).carried =
      root node zero depth (leaves ++ [leaf]) := by
  rw [appendLoop_carried hZeros hValid le_rfl, Nat.div_eq_of_lt hRoom, root]

/-- Appending keeps the frontier valid. -/
theorem appendLoop_valid (leaf : α) (hZeros : ZeroSubtrees node zero depth zeros)
    (hValid : Valid node zero depth leaves frontier) :
    Valid node zero depth (leaves ++ [leaf])
      (appendLoop node zero zeros frontier leaf leaves.length depth).frontier where
  length_eq := (appendLoop_frontier_length _ _).trans hValid.length_eq
  slot level hLevel hBit := by
    have hPos := Nat.two_pow_pos level
    rw [List.length_append, List.length_singleton, Nat.succ_div] at hBit ⊢
    rw [appendLoop_frontier_below hLevel (hValid.length_eq ▸ hLevel)]
    -- Appending moves the count of full subtrees by at most one, so the slot is
    -- either written at this level or still holds the same full subtree.
    split at hBit
    · rename_i hDvd
      rw [if_pos (by omega), if_pos hDvd, Nat.add_sub_cancel,
        appendLoop_carried hZeros hValid hLevel.le]
    · rename_i hDvd
      rw [Nat.add_zero] at hBit
      have hSelf : leaves.length / 2 ^ level - 1 + 1 = leaves.length / 2 ^ level :=
        Nat.sub_add_cancel (Nat.pos_of_ne_zero fun hZero => by simp [hZero] at hBit)
      have hFull : (leaves.length / 2 ^ level - 1 + 1) * 2 ^ level ≤ leaves.length := by
        rw [hSelf]
        exact Nat.div_mul_le_self _ _
      rw [if_neg (by omega), if_neg hDvd, Nat.add_zero, hValid.slot level hLevel hBit,
        subroot_padded_append hFull]

end Append

end Frontier
