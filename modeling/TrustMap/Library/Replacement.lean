import Mathlib.Data.List.Infix
import Mathlib.Tactic.Common

/-!
Replacing one word by another in a text, everywhere or at the first occurrence, scanning from the
left. The lemmas say where occurrences cannot be: across a separator that is not in the word, or
where a character of the word is missing.
-/

namespace Replacement

variable {α : Type*} [DecidableEq α] {old new text : List α}

/-- Replace the occurrences of `old`, after skipping a number of characters. -/
def replaceAllFrom (old new : List α) : ℕ → List α → List α
  | _, [] => []
  | skip + 1, _ :: rest => replaceAllFrom old new skip rest
  | 0, c :: rest =>
      if old.isPrefixOf (c :: rest) then new ++ replaceAllFrom old new (old.length - 1) rest
      else c :: replaceAllFrom old new 0 rest

/-- Replace every occurrence of `old`, which is not empty; occurrences do not overlap. -/
def replaceAll (old new text : List α) : List α :=
  replaceAllFrom old new 0 text

/-- Replace the first occurrence of `old`. -/
def replaceFirst (old new : List α) : List α → List α
  | [] => []
  | c :: rest =>
      if old.isPrefixOf (c :: rest) then new ++ (c :: rest).drop old.length
      else c :: replaceFirst old new rest

theorem replaceAllFrom_skip (old new : List α) (skip : ℕ) (text : List α) :
    replaceAllFrom old new skip text = replaceAll old new (text.drop skip) := by
  induction skip generalizing text with
  | zero => rfl
  | succ skip ih =>
      cases text with
      | nil => simp [replaceAllFrom, replaceAll]
      | cons c rest =>
          rw [replaceAllFrom, ih, List.drop_succ_cons]

@[simp] theorem replaceAll_nil : replaceAll old new [] = [] := rfl

theorem replaceAll_of_isPrefix (hOld : old ≠ []) (hPrefix : old <+: text) :
    replaceAll old new text = new ++ replaceAll old new (text.drop old.length) := by
  cases text with
  | nil => exact absurd (List.prefix_nil.mp hPrefix) hOld
  | cons c rest =>
      obtain ⟨length, hLength⟩ : ∃ length, old.length = length + 1 :=
        Nat.exists_eq_succ_of_ne_zero (by simpa using hOld)
      rw [replaceAll, replaceAllFrom, if_pos (List.isPrefixOf_iff_prefix.mpr hPrefix),
        replaceAllFrom_skip, hLength, List.drop_succ_cons, Nat.add_sub_cancel]

theorem replaceAll_cons_of_not_isPrefix {c : α} {rest : List α} (hPrefix : ¬ old <+: c :: rest) :
    replaceAll old new (c :: rest) = c :: replaceAll old new rest := by
  rw [replaceAll, replaceAllFrom, if_neg (by simpa using hPrefix)]
  rfl

variable {back front : List α}

/-- No occurrence starts in the first part: it stays as it is. -/
theorem replaceAll_append_of_no_match
    (h : ∀ tail, tail <:+ front → tail ≠ [] → ¬ old <+: tail ++ back) :
    replaceAll old new (front ++ back) = front ++ replaceAll old new back := by
  induction front with
  | nil => rfl
  | cons c front ih =>
      have hHere : ¬ old <+: c :: (front ++ back) := h (c :: front) (List.suffix_refl _) (by simp)
      rw [List.cons_append, replaceAll_cons_of_not_isPrefix hHere, ih, List.cons_append]
      intro tail hSuffix
      exact h tail (hSuffix.trans (List.suffix_cons c front))

theorem replaceAll_of_not_infix (h : ¬ old <:+: text) : replaceAll old new text = text := by
  have hNone : ∀ tail, tail <:+ text → tail ≠ [] → ¬ old <+: tail ++ [] := by
    intro tail hSuffix _ hPrefix
    rw [List.append_nil] at hPrefix
    exact h (hPrefix.isInfix.trans hSuffix.isInfix)
  have hSame : replaceAll old new (text ++ []) = text ++ replaceAll old new [] :=
    replaceAll_append_of_no_match hNone
  simpa using hSame

/-- A text that lacks a character of `old` stays as it is. -/
theorem replaceAll_of_not_mem {c : α} (hOld : c ∈ old) (hText : c ∉ text) :
    replaceAll old new text = text :=
  replaceAll_of_not_infix fun hInfix => hText (hInfix.subset hOld)

theorem replaceAll_singleton (c : α) (text : List α) :
    replaceAll [c] new text = text.flatMap fun d => if d = c then new else [d] := by
  induction text with
  | nil => rfl
  | cons d text ih =>
      rw [List.flatMap_cons, ← ih]
      by_cases h : d = c
      · subst h
        rw [replaceAll_of_isPrefix (by simp) (by simp), if_pos rfl]
        rfl
      · rw [replaceAll_cons_of_not_isPrefix (by simpa using Ne.symm h), if_neg h]
        rfl

omit [DecidableEq α] in
theorem prefix_append_cons_iff {a : α} (h : a ∉ old) :
    old <+: front ++ a :: back ↔ old <+: front := by
  constructor
  · intro hPrefix
    rcases List.prefix_or_prefix_of_prefix hPrefix (List.prefix_append front (a :: back)) with
      hFront | ⟨rest, rfl⟩
    · exact hFront
    · cases rest with
      | nil => simp
      | cons b rest =>
          have hRest := (List.prefix_append_right_inj front).mp hPrefix
          obtain rfl : b = a := (List.cons_prefix_cons.mp hRest).1
          simp at h
  · intro hPrefix
    exact hPrefix.trans (List.prefix_append _ _)

/-- No occurrence reaches across a character that `old` does not have. -/
theorem replaceAll_append_cons {a : α} (hOld : old ≠ []) (h : a ∉ old) (front back : List α) :
    replaceAll old new (front ++ a :: back) =
      replaceAll old new front ++ a :: replaceAll old new back := by
  induction hLength : front.length using Nat.strong_induction_on generalizing front with
  | _ length ih =>
      cases front with
      | nil =>
          refine replaceAll_cons_of_not_isPrefix fun hPrefix => ?_
          rw [← List.nil_append (a :: back), prefix_append_cons_iff h, List.prefix_nil] at hPrefix
          exact hOld hPrefix
      | cons c front =>
          by_cases hMatch : old <+: c :: front
          · have hWhole : old <+: c :: front ++ a :: back := (prefix_append_cons_iff h).mpr hMatch
            have hShort : ((c :: front).drop old.length).length < length := by
              have := List.length_pos_of_ne_nil hOld
              rw [List.length_drop, hLength]
              rw [List.length_cons] at hLength
              omega
            rw [replaceAll_of_isPrefix hOld hWhole, replaceAll_of_isPrefix hOld hMatch,
              List.drop_append_of_le_length hMatch.length_le, ih _ hShort _ rfl, List.append_assoc]
          · have hWhole : ¬ old <+: c :: (front ++ a :: back) := fun hPrefix =>
              hMatch ((prefix_append_cons_iff h).mp (by simpa using hPrefix))
            rw [List.cons_append, replaceAll_cons_of_not_isPrefix hWhole,
              replaceAll_cons_of_not_isPrefix hMatch, ih front.length ?_ front rfl, List.cons_append]
            rw [← hLength]
            exact Nat.lt_succ_self _

omit [DecidableEq α] in
theorem append_cons_prefix_iff {sep : α} {x y piece rest : List α} (hx : sep ∉ x)
    (hPiece : sep ∉ piece) : x ++ sep :: y <+: piece ++ sep :: rest ↔ piece = x ∧ y <+: rest := by
  induction x generalizing piece with
  | nil =>
      cases piece with
      | nil => simp
      | cons c piece =>
          have hHead : sep ≠ c := fun hEq => hPiece (hEq ▸ List.mem_cons_self)
          simp [hHead]
  | cons b x ih =>
      obtain ⟨hHead, hRest⟩ : sep ≠ b ∧ sep ∉ x := by simpa using hx
      cases piece with
      | nil => simp [hHead.symm]
      | cons c piece =>
          have hPiece' : sep ∉ piece := fun hMem => hPiece (List.mem_cons_of_mem c hMem)
          rw [List.cons_append, List.cons_append, List.cons_prefix_cons, ih hRest hPiece',
            List.cons.injEq, and_assoc, eq_comm]

/-- A word with one `mark` has at most one occurrence in a text with one `mark`, and its
replacement takes away the character after the mark. -/
theorem replaceAll_marked {mark gap : α} {oldFront oldBack : List α} (hFront : mark ∉ front)
    (hBack : mark ∉ back) (hSuffix : oldFront <:+ front) (hPrefix : oldBack <+: back) :
    replaceAll (oldFront ++ mark :: gap :: oldBack) (oldFront ++ mark :: oldBack)
      (front ++ mark :: gap :: back) = front ++ mark :: back := by
  obtain ⟨start, rfl⟩ := hSuffix
  obtain ⟨rest, rfl⟩ := hPrefix
  have hOldFront : mark ∉ oldFront := fun hMem => hFront (List.mem_append_right start hMem)
  have hRest : mark ∉ rest := fun hMem => hBack (List.mem_append_right oldBack hMem)
  have hNone : ∀ tail, tail <:+ start → tail ≠ [] →
      ¬ oldFront ++ mark :: gap :: oldBack <+:
        tail ++ (oldFront ++ mark :: gap :: (oldBack ++ rest)) := by
    intro tail hTail hNonempty hMatch
    have hMark : mark ∉ tail ++ oldFront := by
      intro hMem
      rcases List.mem_append.mp hMem with hInTail | hInOld
      · exact hFront (List.mem_append_left oldFront (hTail.subset hInTail))
      · exact hOldFront hInOld
    rw [← List.append_assoc, append_cons_prefix_iff hOldFront hMark] at hMatch
    exact hNonempty (List.append_left_eq_self.mp hMatch.1)
  have hWord : oldFront ++ mark :: gap :: (oldBack ++ rest) =
      (oldFront ++ mark :: gap :: oldBack) ++ rest := by simp
  rw [List.append_assoc, replaceAll_append_of_no_match hNone, hWord,
    replaceAll_of_isPrefix (by simp) (List.prefix_append _ _), List.drop_left,
    replaceAll_of_not_mem (c := mark) (by simp) hRest]
  simp

/-- Without the word at the mark the text stays as it is. -/
theorem replaceAll_marked_of_not {mark gap : α} {oldFront oldBack : List α} (hFront : mark ∉ front)
    (hBack : mark ∉ back) (hGap : gap ≠ mark) (hMatch : ¬ (oldFront <:+ front ∧ oldBack <+: back)) :
    replaceAll (oldFront ++ mark :: gap :: oldBack) new (front ++ mark :: gap :: back) =
      front ++ mark :: gap :: back := by
  refine replaceAll_of_not_infix ?_
  rintro ⟨start, rest, hText⟩
  have hGapBack : mark ∉ gap :: back := by simp [hGap.symm, hBack]
  have hSplit : front ++ mark :: gap :: back =
      (start ++ oldFront) ++ mark :: (gap :: oldBack ++ rest) := by
    rw [← hText]
    simp
  obtain ⟨rfl, -, hRest⟩ := (List.append_cons_inj_of_notMem hFront hGapBack).mp hSplit
  obtain ⟨-, rfl⟩ := List.cons.inj hRest
  exact hMatch ⟨List.suffix_append _ _, List.prefix_append _ _⟩

/-- A text in which nothing like the gap follows the mark stays as it is. -/
theorem replaceAll_marked_of_no_gap {mark gap : α} {oldFront oldBack : List α}
    (hFront : mark ∉ front) (hBack : mark ∉ back) (hGap : gap ∉ back) :
    replaceAll (oldFront ++ mark :: gap :: oldBack) new (front ++ mark :: back) =
      front ++ mark :: back := by
  refine replaceAll_of_not_infix ?_
  rintro ⟨start, rest, hText⟩
  have hSplit : front ++ mark :: back = (start ++ oldFront) ++ mark :: (gap :: oldBack ++ rest) := by
    rw [← hText]
    simp
  obtain ⟨-, -, rfl⟩ := (List.append_cons_inj_of_notMem hFront hBack).mp hSplit
  exact hGap List.mem_cons_self

/-! ## Pieces between separators -/

/-- Pieces, each after a separator. -/
def after (sep : α) (pieces : List (List α)) : List α :=
  pieces.flatMap fun piece => sep :: piece

omit [DecidableEq α] in
@[simp] theorem after_nil (sep : α) : after sep [] = [] := rfl

omit [DecidableEq α] in
@[simp] theorem after_cons (sep : α) (piece : List α) (pieces : List (List α)) :
    after sep (piece :: pieces) = sep :: (piece ++ after sep pieces) := rfl

omit [DecidableEq α] in
theorem after_append (sep : α) (pieces pieces' : List (List α)) :
    after sep (pieces ++ pieces') = after sep pieces ++ after sep pieces' :=
  List.flatMap_append

omit [DecidableEq α] in
/-- Writing another text for each character, but leaving the separators as they are. -/
theorem flatMap_after {sep : α} {f : α → List α} (hSep : f sep = [sep]) (pieces : List (List α)) :
    (after sep pieces).flatMap f = after sep (pieces.map fun piece => piece.flatMap f) := by
  induction pieces with
  | nil => rfl
  | cons piece pieces ih =>
      rw [after_cons, List.flatMap_cons, List.flatMap_append, hSep, ih, List.map_cons, after_cons]
      rfl

/-- A word without the separator is replaced in each piece. -/
theorem replaceAll_after {sep : α} (hOld : old ≠ []) (hSep : sep ∉ old) (front : List α)
    (pieces : List (List α)) :
    replaceAll old new (front ++ after sep pieces) =
      replaceAll old new front ++ after sep (pieces.map (replaceAll old new)) := by
  induction pieces generalizing front with
  | nil => simp
  | cons piece pieces ih =>
      rw [after_cons, replaceAll_append_cons hOld hSep, ih, List.map_cons, after_cons]

/-- Replace the beginning `y` of the first piece that has it and comes after a piece `x`. -/
def replaceAfter (x y z : List α) : List (List α) → List (List α)
  | piece :: next :: pieces =>
      if piece = x ∧ y.isPrefixOf next then piece :: (z ++ next.drop y.length) :: pieces
      else piece :: replaceAfter x y z (next :: pieces)
  | pieces => pieces

theorem replaceAfter_cons_of_ne {x y z piece : List α} (h : piece ≠ x) (pieces : List (List α)) :
    replaceAfter x y z (piece :: pieces) = piece :: replaceAfter x y z pieces := by
  cases pieces with
  | nil => rfl
  | cons next pieces => rw [replaceAfter, if_neg fun hMatch => h hMatch.1]

theorem replaceAfter_cons_self {x y z next : List α} (pieces : List (List α)) :
    replaceAfter x y z (x :: next :: pieces) =
      if y <+: next then x :: (z ++ next.drop y.length) :: pieces
      else x :: replaceAfter x y z (next :: pieces) := by
  simp [replaceAfter, List.isPrefixOf_iff_prefix]

omit [DecidableEq α] in
theorem prefix_after_iff {sep : α} {word piece : List α} {pieces : List (List α)}
    (h : sep ∉ word) : word <+: piece ++ after sep pieces ↔ word <+: piece := by
  cases pieces with
  | nil => simp
  | cons next pieces => exact prefix_append_cons_iff h

theorem replaceFirst_append_of_not_mem {c : α} {word : List α} (h : c ∉ front) :
    replaceFirst (c :: word) new (front ++ back) = front ++ replaceFirst (c :: word) new back := by
  induction front with
  | nil => rfl
  | cons d front ih =>
      obtain ⟨hHead, hRest⟩ : c ≠ d ∧ c ∉ front := by simpa using h
      have hMatch : ¬ c :: word <+: d :: (front ++ back) := fun hPrefix =>
        hHead (List.cons_prefix_cons.mp hPrefix).1
      rw [List.cons_append, replaceFirst, if_neg (by simpa using hMatch), ih hRest, List.cons_append]

/-- A word that spans a whole piece and the beginning of the next one is replaced at the first such
pair of pieces. -/
theorem replaceFirst_after {sep : α} {x y z : List α} (hx : sep ∉ x) (hy : sep ∉ y)
    (hFront : sep ∉ front) {pieces : List (List α)} (hPieces : ∀ piece ∈ pieces, sep ∉ piece) :
    replaceFirst (sep :: (x ++ sep :: y)) (sep :: (x ++ sep :: z)) (front ++ after sep pieces) =
      front ++ after sep (replaceAfter x y z pieces) := by
  rw [replaceFirst_append_of_not_mem hFront]
  congr 1
  induction pieces with
  | nil => rfl
  | cons piece pieces ih =>
      obtain ⟨hPiece, hRest⟩ := List.forall_mem_cons.mp hPieces
      cases pieces with
      | nil =>
          have hMatch : ¬ sep :: (x ++ sep :: y) <+: sep :: piece := by
            intro hPrefix
            exact hPiece ((List.cons_prefix_cons.mp hPrefix).2.subset (by simp))
          have hInside : replaceFirst (sep :: (x ++ sep :: y)) (sep :: (x ++ sep :: z))
              (piece ++ []) = piece ++ [] := replaceFirst_append_of_not_mem hPiece
          rw [after_cons, after_nil, replaceFirst, if_neg (by simpa using hMatch), hInside]
          rfl
      | cons next pieces =>
          have hMatch : sep :: (x ++ sep :: y) <+: sep :: (piece ++ after sep (next :: pieces)) ↔
              piece = x ∧ y <+: next := by
            rw [List.cons_prefix_cons, after_cons, append_cons_prefix_iff hx hPiece,
              prefix_after_iff hy]
            exact and_iff_right rfl
          rw [after_cons, replaceFirst, replaceAfter]
          by_cases hPair : piece = x ∧ y <+: next
          · rw [if_pos (List.isPrefixOf_iff_prefix.mpr (hMatch.mpr hPair)),
              if_pos ⟨hPair.1, List.isPrefixOf_iff_prefix.mpr hPair.2⟩]
            obtain ⟨rfl, rest, rfl⟩ := hPair
            simp
          · rw [if_neg (by rw [List.isPrefixOf_iff_prefix]; exact fun h => hPair (hMatch.mp h)),
              if_neg (by rw [List.isPrefixOf_iff_prefix]; exact hPair),
              replaceFirst_append_of_not_mem hPiece, ih hRest, after_cons]

end Replacement
