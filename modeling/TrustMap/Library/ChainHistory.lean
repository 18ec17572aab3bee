import Mathlib.Data.List.Infix

/-!
A chain as it is seen over time. New blocks come and the last ones may be replaced, but always fewer
than a given depth; a block with that many confirmations stays where it is.
-/

namespace ChainHistory

variable {α : Type*}

/-- The canonical chain at every time. Between two times fewer than `depth` of the last blocks are
replaced. -/
structure History (α : Type*) (depth : ℕ) where
  chain : ℕ → List α
  stable : ∀ {s t}, s ≤ t → (chain s).take ((chain s).length - (depth - 1)) <+: chain t

variable {depth : ℕ} (history : History α depth)

/-- A block with `depth` confirmations is in every later chain, at the same height. -/
theorem History.stays {s t height : ℕ} (hLater : s ≤ t) {block : α}
    (hBlock : (history.chain s)[height]? = some block)
    (hDeep : height + depth ≤ (history.chain s).length) :
    (history.chain t)[height]? = some block := by
  obtain ⟨hBound, -⟩ := List.getElem?_eq_some_iff.mp hBlock
  have hKept : height < (history.chain s).length - (depth - 1) := by omega
  have hTake : ((history.chain s).take ((history.chain s).length - (depth - 1)))[height]? =
      some block := by
    rw [List.getElem?_take_of_lt hKept]
    exact hBlock
  obtain ⟨rest, hRest⟩ := history.stable hLater
  obtain ⟨hLength, -⟩ := List.getElem?_eq_some_iff.mp hTake
  rw [← hRest, List.getElem?_append_left hLength]
  exact hTake

end ChainHistory
