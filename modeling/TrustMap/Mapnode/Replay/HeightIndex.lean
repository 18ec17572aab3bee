import Mathlib.Data.Prod.Lex
import TrustMap.Library.Treap
import TrustMap.Mapnode.Replay.TrustView

/-!
The index of the heights of a chain, `orderedHeightIndex`: a treap whose priorities are the mixed
heights, with the height itself behind them. Whatever the mixing does, two different heights never
have the same rank, so that the tree only depends on the set of heights.
-/

namespace TrustMap.Mapnode.Replay

/-- The order of the priorities. -/
def heightRank (height : UInt64) : UInt64 ×ₗ UInt64 :=
  toLex (mixHeight height, height)

theorem heightRank_injective : Function.Injective heightRank := by
  intro a b h
  exact congrArg (fun rank : UInt64 ×ₗ UInt64 => (ofLex rank).2) h

theorem heightPriorityLess_iff (a b : UInt64) :
    heightPriorityLess a b = true ↔ heightRank a < heightRank b := by
  simp [heightPriorityLess, heightRank, Prod.Lex.toLex_lt_toLex]

/-- `orderedHeightIndex` after an `Insert` for each height. -/
def orderedHeightIndex (heights : List UInt64) : KeyTree UInt64 :=
  heights.foldl (fun index height => index.insert heightPriorityLess height) .leaf

/-- A search tree and a heap over the heights of a list. -/
structure HeightTreap (heights : List UInt64) (index : KeyTree UInt64) : Prop where
  ordered : index.Ordered
  heap : index.Heap heightRank
  mem : ∀ height, height ∈ index.toList ↔ height ∈ heights

theorem HeightTreap.insert {heights : List UInt64} {index : KeyTree UInt64}
    (h : HeightTreap heights index) (height : UInt64) :
    HeightTreap (heights ++ [height]) (index.insert heightPriorityLess height) where
  ordered := h.ordered.insert
  heap := KeyTree.Heap.insert heightRank_injective heightPriorityLess_iff h.ordered h.heap
  mem other := by
    rw [KeyTree.mem_insert, h.mem, List.mem_append, List.mem_singleton, or_comm]

theorem orderedHeightIndex_treap (heights : List UInt64) :
    HeightTreap heights (orderedHeightIndex heights) := by
  induction heights using List.reverseRecOn with
  | nil => exact ⟨List.Pairwise.nil, trivial, fun _ => Iff.rfl⟩
  | append_singleton heights height ih =>
      rw [orderedHeightIndex, List.foldl_concat]
      exact ih.insert height

theorem HeightTreap.unique {heights heights' : List UInt64} {index index' : KeyTree UInt64}
    (h : HeightTreap heights index) (h' : HeightTreap heights' index')
    (hSame : ∀ height, height ∈ heights ↔ height ∈ heights') : index = index' := by
  apply KeyTree.Heap.unique heightRank_injective h.ordered h.heap h'.ordered h'.heap
  intro height
  rw [h.mem, h'.mem, hSame]

/-- The index after any insertions: both orders hold, `Contains` decides the set, `Neighbours` of a
height outside the set are the nearest members, and the tree only depends on the set. -/
theorem orderedHeightIndex_correct (heights : List UInt64) :
    (orderedHeightIndex heights).Ordered ∧ (orderedHeightIndex heights).Heap heightRank ∧
      (∀ height, (orderedHeightIndex heights).contains height = true ↔ height ∈ heights) ∧
      (∀ height, height ∉ heights →
        (∀ lower, ((orderedHeightIndex heights).neighbours height none none).1 = some lower ↔
          IsGreatest {other | other ∈ heights ∧ other < height} lower) ∧
        (((orderedHeightIndex heights).neighbours height none none).1 = none ↔
          ∀ other ∈ heights, ¬ other < height) ∧
        (∀ higher, ((orderedHeightIndex heights).neighbours height none none).2 = some higher ↔
          IsLeast {other | other ∈ heights ∧ height < other} higher) ∧
        (((orderedHeightIndex heights).neighbours height none none).2 = none ↔
          ∀ other ∈ heights, ¬ height < other)) ∧
      ∀ heights', (∀ height, height ∈ heights ↔ height ∈ heights') →
        orderedHeightIndex heights = orderedHeightIndex heights' := by
  have h := orderedHeightIndex_treap heights
  refine ⟨h.ordered, h.heap, ?_, ?_, ?_⟩
  · intro height
    rw [KeyTree.contains_iff h.ordered, h.mem]
  · intro height hMissing
    rw [← h.mem] at hMissing
    simp only [KeyTree.neighbours_fst_eq_some h.ordered hMissing,
      KeyTree.neighbours_fst_eq_none h.ordered hMissing,
      KeyTree.neighbours_snd_eq_some h.ordered hMissing,
      KeyTree.neighbours_snd_eq_none h.ordered hMissing, h.mem, implies_true, and_self]
  · intro heights' hSame
    exact h.unique (orderedHeightIndex_treap heights') hSame

end TrustMap.Mapnode.Replay
