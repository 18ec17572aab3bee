import Mathlib.Algebra.BigOperators.Group.Finset.Basic
import Mathlib.Data.Finset.Card
import TrustMap.Library.Consecutive
import TrustMap.Mapnode.Replay.HeightIndex

/-!
The graph that `Activate` and `AddVerifiedDependency` build, as a function of the blocks and the
dependencies they have been called with. Blocks of a chain are joined exactly if no activated block
stands between them; a block that is put between two others takes the place of their edges. As long
as every dependency joins two chains, the dependencies are the other edges.
-/

namespace TrustMap.Mapnode.Replay

open Checks

namespace ReplayTrustView

/-! ## Rows and their number -/

variable {row : AdjacencyRow} {rows : List AdjacencyRow} {chain : String}

section Rows

variable {view : ReplayTrustView}

theorem mem_setEdge {row' : AdjacencyRow} :
    row ∈ (view.setEdge row').adjacency.rows ↔
      row = row' ∨ (row ∈ view.adjacency.rows ∧ row.ends ≠ row'.ends) :=
  Table.mem_upsert

/-- The rows after some rows with different ends have been set. -/
theorem mem_foldl_setEdge (hDistinct : (rows.map AdjacencyRow.ends).Nodup) :
    row ∈ (rows.foldl setEdge view).adjacency.rows ↔
      row ∈ rows ∨ (row ∈ view.adjacency.rows ∧ row.ends ∉ rows.map AdjacencyRow.ends) := by
  induction rows generalizing view with
  | nil => simp
  | cons first rows ih =>
      rw [List.map_cons, List.nodup_cons] at hDistinct
      rw [List.foldl_cons, ih hDistinct.2, mem_setEdge, List.mem_cons, List.map_cons, List.mem_cons]
      constructor
      · rintro (hMem | ⟨rfl | ⟨hMem, hNe⟩, hOut⟩)
        · exact Or.inl (Or.inr hMem)
        · exact Or.inl (Or.inl rfl)
        · exact Or.inr ⟨hMem, not_or.mpr ⟨hNe, hOut⟩⟩
      · rintro ((rfl | hMem) | ⟨hMem, hOut⟩)
        · exact Or.inr ⟨Or.inl rfl, hDistinct.1⟩
        · exact Or.inl hMem
        · exact Or.inr ⟨Or.inr ⟨hMem, (not_or.mp hOut).1⟩, (not_or.mp hOut).2⟩

/-- The rows after two heights have been detached. -/
theorem mem_detach {predecessor successor : Option UInt64} :
    row ∈ (view.detach chain predecessor successor).adjacency.rows ↔
      row ∈ view.adjacency.rows ∧ ∀ low ∈ predecessor, ∀ high ∈ successor,
        row.ends ≠ (⟨chain, low⟩, ⟨chain, high⟩) ∧ row.ends ≠ (⟨chain, high⟩, ⟨chain, low⟩) := by
  cases predecessor with
  | none => simp [detach]
  | some low =>
      cases successor with
      | none => simp [detach]
      | some high => simp [detach, deleteEdge, and_assoc]

/-- The counter of the edges counts the rows. -/
def Counted (view : ReplayTrustView) : Prop :=
  view.edgeCount = UInt64.ofNat view.adjacency.rows.length

theorem Counted.setEdge (h : view.Counted) (row : AdjacencyRow) : (view.setEdge row).Counted := by
  have hSlot : (view.edge row.fromKey row.toKey).isSome =
      (view.adjacency.find? row.ends).isSome := Option.isSome_map
  rw [Counted, ReplayTrustView.setEdge]
  dsimp only
  rw [hSlot]
  cases hFind : view.adjacency.find? row.ends with
  | none =>
      rw [Table.length_upsert_of_none hFind, UInt64.ofNat_add, ← h]
      rfl
  | some old =>
      rw [Table.length_upsert_of_some hFind, ← h]
      rfl

theorem Counted.deleteEdge (h : view.Counted) (fromKey toKey : ReplayBlockKey) :
    (view.deleteEdge fromKey toKey).Counted := by
  have hSlot : (view.edge fromKey toKey).isSome =
      (view.adjacency.find? (fromKey, toKey)).isSome := Option.isSome_map
  rw [Counted, ReplayTrustView.deleteEdge]
  dsimp only
  rw [hSlot]
  cases hFind : view.adjacency.find? (fromKey, toKey) with
  | none =>
      have hSame : view.adjacency.filter (fun row => row.ends ≠ (fromKey, toKey)) =
          view.adjacency := by
        apply Table.ext
        rw [Table.filter, List.filter_eq_self]
        exact fun row hMem => decide_eq_true (Table.find?_eq_none.mp hFind row hMem)
      rw [hSame, ← h]
      rfl
  | some old =>
      have hLength := Table.length_filter_ne hFind
      rw [Counted, ← hLength, UInt64.ofNat_add] at h
      rw [h]
      exact UInt64.add_sub_cancel _ _

theorem Counted.detach (h : view.Counted) (chain : String) (predecessor successor : Option UInt64) :
    (view.detach chain predecessor successor).Counted := by
  unfold ReplayTrustView.detach
  split
  · exact (h.deleteEdge _ _).deleteEdge _ _
  · exact h

theorem Counted.foldl_setEdge (h : view.Counted) (rows : List AdjacencyRow) :
    (rows.foldl ReplayTrustView.setEdge view).Counted := by
  induction rows generalizing view with
  | nil => exact h
  | cons row rows ih => exact ih (h.setEdge row)

/-- Rows for free ends are all new. -/
theorem length_foldl_setEdge (hDistinct : (rows.map AdjacencyRow.ends).Nodup)
    (hFree : ∀ row ∈ rows, ∀ old ∈ view.adjacency.rows, old.ends ≠ row.ends) :
    (rows.foldl setEdge view).adjacency.rows.length =
      view.adjacency.rows.length + rows.length := by
  induction rows generalizing view with
  | nil => rfl
  | cons first rows ih =>
      rw [List.map_cons, List.nodup_cons] at hDistinct
      have hNone : view.adjacency.find? first.ends = none :=
        Table.find?_eq_none.mpr (hFree first List.mem_cons_self)
      have hLength : (view.setEdge first).adjacency.rows.length =
          view.adjacency.rows.length + 1 := Table.length_upsert_of_none hNone
      rw [List.foldl_cons, ih hDistinct.2, hLength, List.length_cons]
      · omega
      · intro row hRow old hOld
        rcases mem_setEdge.mp hOld with rfl | ⟨hOld, -⟩
        · intro hEnds
          exact hDistinct.1 (hEnds ▸ List.mem_map_of_mem hRow)
        · exact hFree row (List.mem_cons_of_mem _ hRow) old hOld

theorem foldl_setEdge_heights (rows : List AdjacencyRow) :
    (rows.foldl setEdge view).heights = view.heights := by
  induction rows generalizing view with
  | nil => rfl
  | cons row rows ih => exact ih

theorem activateKey_heights {view' : ReplayTrustView} {key : ReplayBlockKey}
    (hActivate : view.activateKey key = .ok view') :
    view'.heights = Function.update view.heights key.chain
      ((view.heights key.chain).insert heightPriorityLess key.height) := by
  simp only [activateKey, bind_eq_ok, pure_eq_ok] at hActivate
  obtain ⟨pending, -, rfl⟩ := hActivate
  rw [foldl_setEdge_heights]
  unfold detach
  split <;> rfl

theorem length_deleteEdge {fromKey toKey : ReplayBlockKey} {edge : ReplayEdge}
    (h : view.edge fromKey toKey = some edge) :
    (view.deleteEdge fromKey toKey).adjacency.rows.length + 1 = view.adjacency.rows.length := by
  rw [edge_eq_some] at h
  exact Table.length_filter_ne (Table.find?_eq_some.mpr ⟨h, rfl⟩)

end Rows

/-! ## Edges between blocks of one chain -/

/-- The edges between two heights of a chain: up at the direct cost, down at the path cost. -/
def ancestryRows (profile : CostProfile) (chain : String) (low high : UInt64) :
    List AdjacencyRow :=
  [⟨⟨chain, low⟩, ⟨chain, high⟩, ⟨.intraChainUp,
      UInt64.ofNat ((high.toNat - low.toNat) * profile.directStepCost.toNat)⟩⟩,
    ⟨⟨chain, high⟩, ⟨chain, low⟩, ⟨.intraChainDown,
      UInt64.ofNat ((high.toNat - low.toNat) * profile.pathStepCost.toNat)⟩⟩]

/-- The weights of the edges between two heights are 64-bit numbers. -/
def Fits (profile : CostProfile) (low high : UInt64) : Prop :=
  (high.toNat - low.toNat) * profile.directStepCost.toNat < 2 ^ 64 ∧
    (high.toNat - low.toNat) * profile.pathStepCost.toNat < 2 ^ 64

variable {high low : UInt64}

theorem appendPair_eq_rows {profile : CostProfile} (hLt : low < high)
    (hPair : appendPair profile chain low high = .ok rows) :
    rows = ancestryRows profile chain low high ∧ Fits profile low high := by
  obtain ⟨up, down, hUp, hDown, rfl⟩ := appendPair_eq_ok hPair
  have hDelta : (high - low).toNat = high.toNat - low.toNat :=
    UInt64.toNat_sub_of_le _ _ hLt.le
  rw [hDelta] at hUp hDown
  refine ⟨?_, hUp ▸ up.toNat_lt, hDown ▸ down.toNat_lt⟩
  rw [ancestryRows, hUp, hDown, UInt64.ofNat_toNat, UInt64.ofNat_toNat]

/-- The edges to the neighbours of a new height. -/
def newRows (profile : CostProfile) (key : ReplayBlockKey) (predecessor successor : Option UInt64) :
    List AdjacencyRow :=
  (predecessor.elim [] fun low => ancestryRows profile key.chain low key.height) ++
    successor.elim [] fun high => ancestryRows profile key.chain key.height high

theorem pendingEdges_eq_rows {profile : CostProfile} {key : ReplayBlockKey}
    {predecessor successor : Option UInt64} (hBelow : ∀ low ∈ predecessor, low < key.height)
    (hAbove : ∀ high ∈ successor, key.height < high)
    (hPending : pendingEdges profile key predecessor successor = .ok rows) :
    rows = newRows profile key predecessor successor ∧
      (∀ low ∈ predecessor, Fits profile low key.height) ∧
      ∀ high ∈ successor, Fits profile key.height high := by
  simp only [pendingEdges, bind_eq_ok, pure_eq_ok] at hPending
  obtain ⟨below, hLow, above, hHigh, rfl⟩ := hPending
  have hFirst : below = (predecessor.elim [] fun low =>
        ancestryRows profile key.chain low key.height) ∧
      ∀ low ∈ predecessor, Fits profile low key.height := by
    cases predecessor with
    | none => exact ⟨(Except.ok.inj hLow).symm, by simp⟩
    | some low => simpa using appendPair_eq_rows (hBelow low rfl) hLow
  have hSecond : above = (successor.elim [] fun high =>
        ancestryRows profile key.chain key.height high) ∧
      ∀ high ∈ successor, Fits profile key.height high := by
    cases successor with
    | none => exact ⟨(Except.ok.inj hHigh).symm, by simp⟩
    | some high => simpa using appendPair_eq_rows (hAbove high rfl) hHigh
  exact ⟨by rw [newRows, hFirst.1, hSecond.1], hFirst.2, hSecond.2⟩

theorem mem_newRows {profile : CostProfile} {key : ReplayBlockKey}
    {predecessor successor : Option UInt64} :
    row ∈ newRows profile key predecessor successor ↔
      (∃ low ∈ predecessor, row ∈ ancestryRows profile key.chain low key.height) ∨
        ∃ high ∈ successor, row ∈ ancestryRows profile key.chain key.height high := by
  cases predecessor <;> cases successor <;> simp [newRows]

theorem newRows_distinct {profile : CostProfile} {key : ReplayBlockKey}
    {predecessor successor : Option UInt64} (hBelow : ∀ low ∈ predecessor, low < key.height)
    (hAbove : ∀ high ∈ successor, key.height < high) :
    ((newRows profile key predecessor successor).map AdjacencyRow.ends).Nodup := by
  cases predecessor with
  | none =>
      cases successor with
      | none => simp [newRows]
      | some high => simp [newRows, ancestryRows, AdjacencyRow.ends, (hAbove high rfl).ne]
  | some low =>
      have hLow := (hBelow low rfl).ne
      cases successor with
      | none => simp [newRows, ancestryRows, AdjacencyRow.ends, hLow]
      | some high =>
          have hHigh := (hAbove high rfl).ne
          have hBoth := ((hBelow low rfl).trans (hAbove high rfl)).ne
          simp [newRows, ancestryRows, AdjacencyRow.ends, hLow, hLow.symm, hHigh, hHigh.symm, hBoth]

/-- Both ends of an edge between two heights. -/
theorem ends_of_ancestryRows {profile : CostProfile} (h : row ∈ ancestryRows profile chain low high) :
    row.ends = (⟨chain, low⟩, ⟨chain, high⟩) ∨ row.ends = (⟨chain, high⟩, ⟨chain, low⟩) := by
  rcases List.mem_cons.mp h with rfl | h
  · exact Or.inl rfl
  · obtain rfl := List.mem_singleton.mp h
    exact Or.inr rfl

/-! ## The graph of some blocks and dependencies -/

/-- The heights of a chain among some blocks. -/
def heightsOf (blocks : Finset ReplayBlockKey) (chain : String) : Set UInt64 :=
  {height | (⟨chain, height⟩ : ReplayBlockKey) ∈ blocks}

/-- The edges of the graph: up and down between consecutive heights of a chain, and one for each
dependency. -/
def GraphEdge (profile : CostProfile) (blocks : Finset ReplayBlockKey)
    (dependencies : Finset (ReplayBlockKey × ReplayBlockKey)) (row : AdjacencyRow) : Prop :=
  (∃ chain low high, Consecutive (heightsOf blocks chain) low high ∧
      row ∈ ancestryRows profile chain low high) ∨
    (row.ends ∈ dependencies ∧ row.edge = ⟨.verifiedDependency, profile.pathStepCost⟩)

/-- The view is the graph of the blocks and the dependencies. The number of rows is twice the number
of blocks that are not the first of their chain, and the number of dependencies. -/
structure Shape (lower : Lowercase) (profile : CostProfile) (blocks : Finset ReplayBlockKey)
    (dependencies : Finset (ReplayBlockKey × ReplayBlockKey)) (view : ReplayTrustView) : Prop where
  invariant : view.Invariant lower profile
  heap : ∀ chain, (view.heights chain).Heap heightRank
  nodes : ∀ key, key ∈ view.nodeKeys ↔ key ∈ blocks
  crossChain : ∀ pair ∈ dependencies, pair.1.chain ≠ pair.2.chain
  rows : ∀ row, row ∈ view.adjacency.rows ↔ GraphEdge profile blocks dependencies row
  fits : ∀ chain low high, Consecutive (heightsOf blocks chain) low high → Fits profile low high
  count : view.adjacency.rows.length + 2 * (blocks.image (·.chain)).card =
    2 * blocks.card + dependencies.card
  counted : view.Counted

theorem heightsOf_insert_self (blocks : Finset ReplayBlockKey) (key : ReplayBlockKey) :
    heightsOf (insert key blocks) key.chain = insert key.height (heightsOf blocks key.chain) := by
  ext height
  simp only [heightsOf, Set.mem_ofPred_eq, Finset.mem_insert, Set.mem_insert_iff]
  cases key
  simp

theorem heightsOf_insert_of_ne {blocks : Finset ReplayBlockKey} {key : ReplayBlockKey}
    (hNe : chain ≠ key.chain) : heightsOf (insert key blocks) chain = heightsOf blocks chain := by
  ext height
  simp only [heightsOf, Set.mem_ofPred_eq, Finset.mem_insert, or_iff_right_iff_imp]
  rintro rfl
  exact absurd rfl hNe

/-! ## A key between its neighbours -/

/-- A key that is entered, with its neighbours among the blocks. -/
structure Entering (blocks : Finset ReplayBlockKey) (key : ReplayBlockKey)
    (predecessor successor : Option UInt64) : Prop where
  fresh : key ∉ blocks
  low : ∀ low, predecessor = some low ↔
    IsGreatest {x | x ∈ heightsOf blocks key.chain ∧ x < key.height} low
  high : ∀ high, successor = some high ↔
    IsLeast {x | x ∈ heightsOf blocks key.chain ∧ key.height < x} high
  alone : (predecessor = none ∧ successor = none) ↔ key.chain ∉ blocks.image (·.chain)

theorem Invariant.mem_heights {lower : Lowercase} {profile : CostProfile} {view : ReplayTrustView}
    (h : view.Invariant lower profile) {height : UInt64} :
    height ∈ (view.heights chain).toList ↔ height ∈ heightsOf view.nodeKeys.toFinset chain := by
  rw [← h.indexed ⟨chain, height⟩, heightsOf, Set.mem_ofPred_eq, List.mem_toFinset]

/-- The search in the index finds the neighbours. -/
theorem Invariant.entering {lower : Lowercase} {profile : CostProfile} {view : ReplayTrustView}
    (h : view.Invariant lower profile) {key : ReplayBlockKey}
    (hNew : (view.heights key.chain).contains key.height = false) :
    Entering view.nodeKeys.toFinset key
      ((view.heights key.chain).neighbours key.height none none).1
      ((view.heights key.chain).neighbours key.height none none).2 := by
  have hOrdered := h.ordered key.chain
  have hMissing : key.height ∉ (view.heights key.chain).toList := by
    rw [← KeyTree.contains_iff hOrdered, hNew]
    simp
  constructor
  case fresh =>
    rw [h.mem_heights] at hMissing
    exact hMissing
  case low =>
    intro low
    rw [KeyTree.neighbours_fst_eq_some hOrdered hMissing]
    simp only [h.mem_heights]
  case high =>
    intro high
    rw [KeyTree.neighbours_snd_eq_some hOrdered hMissing]
    simp only [h.mem_heights]
  case alone =>
    rw [KeyTree.neighbours_fst_eq_none hOrdered hMissing,
      KeyTree.neighbours_snd_eq_none hOrdered hMissing]
    simp only [h.mem_heights, Finset.mem_image, not_exists, not_and]
    constructor
    · rintro ⟨hBelow, hAbove⟩ other hOther hChain
      have hMem : other.height ∈ heightsOf view.nodeKeys.toFinset key.chain := by
        rw [← hChain]
        exact hOther
      have hSame := le_antisymm (not_lt.mp (hAbove _ hMem)) (not_lt.mp (hBelow _ hMem))
      rw [h.mem_heights, ← hSame] at hMissing
      exact hMissing hMem
    · intro hNone
      exact ⟨fun height hMem => absurd rfl (hNone ⟨key.chain, height⟩ hMem),
        fun height hMem => absurd rfl (hNone ⟨key.chain, height⟩ hMem)⟩

namespace Entering

variable {profile : CostProfile} {blocks : Finset ReplayBlockKey} {key : ReplayBlockKey}
  {predecessor successor : Option UInt64}

section Neighbours

variable (h : Entering blocks key predecessor successor)

include h

theorem low_lt :
    ∀ low ∈ predecessor, low < key.height :=
  fun low hLow => ((h.low low).mp hLow).1.2

theorem lt_high :
    ∀ high ∈ successor, key.height < high :=
  fun high hHigh => ((h.high high).mp hHigh).1.2

/-- The neighbours have been next to each other. -/
theorem consecutive (hLow : low ∈ predecessor)
    (hHigh : high ∈ successor) : Consecutive (heightsOf blocks key.chain) low high :=
  .of_nearest h.fresh ((h.low low).mp hLow) ((h.high high).mp hHigh)

/-- The consecutive heights of the chain with the new key. -/
theorem consecutive_insert :
    Consecutive (heightsOf (insert key blocks) key.chain) low high ↔
      (high = key.height ∧ low ∈ predecessor) ∨ (low = key.height ∧ high ∈ successor) ∨
        (Consecutive (heightsOf blocks key.chain) low high ∧
          ¬ (low ∈ predecessor ∧ high ∈ successor)) := by
  have hFresh : key.height ∉ heightsOf blocks key.chain := h.fresh
  rw [heightsOf_insert_self, Consecutive.insert_iff hFresh, ← h.low, ← h.high]
  refine or_congr Iff.rfl (or_congr Iff.rfl (and_congr_right fun hConsecutive => not_congr ?_))
  constructor
  · rintro ⟨hLow, hHigh⟩
    exact ⟨(h.low low).mpr (hConsecutive.low_nearest hLow hHigh),
      (h.high high).mpr (hConsecutive.high_nearest hLow hHigh)⟩
  · rintro ⟨hLow, hHigh⟩
    exact ⟨h.low_lt low hLow, h.lt_high high hHigh⟩

end Neighbours

/-- The new rows end at the new key. -/
theorem new_ends (hRow : row ∈ newRows profile key predecessor successor) :
    row.fromKey = key ∨ row.toKey = key := by
  rcases mem_newRows.mp hRow with ⟨low, -, hMem⟩ | ⟨high, -, hMem⟩
  · rcases ends_of_ancestryRows hMem with hEnds | hEnds
    · exact Or.inr (Prod.mk.inj hEnds).2
    · exact Or.inl (Prod.mk.inj hEnds).1
  · rcases ends_of_ancestryRows hMem with hEnds | hEnds
    · exact Or.inl (Prod.mk.inj hEnds).1
    · exact Or.inr (Prod.mk.inj hEnds).2

/-- An edge between heights that are not both neighbours of the new key is not detached. -/
theorem not_detached (hEnter : Entering blocks key predecessor successor)
    (hRow : row ∈ ancestryRows profile chain low high) (hLt : low < high)
    (hApart : chain = key.chain → ¬ (low ∈ predecessor ∧ high ∈ successor)) :
    ∀ low' ∈ predecessor, ∀ high' ∈ successor,
      row.ends ≠ (⟨key.chain, low'⟩, ⟨key.chain, high'⟩) ∧
        row.ends ≠ (⟨key.chain, high'⟩, ⟨key.chain, low'⟩) := by
  intro low' hLow' high' hHigh'
  have hLt' : low' < high' := (hEnter.low_lt low' hLow').trans (hEnter.lt_high high' hHigh')
  rcases ends_of_ancestryRows hRow with hEnds | hEnds <;> rw [hEnds]
  · constructor
    · intro hSame
      simp only [Prod.mk.injEq, ReplayBlockKey.mk.injEq] at hSame
      obtain ⟨⟨hChain, rfl⟩, -, rfl⟩ := hSame
      exact hApart hChain ⟨hLow', hHigh'⟩
    · intro hSame
      simp only [Prod.mk.injEq, ReplayBlockKey.mk.injEq] at hSame
      obtain ⟨⟨-, rfl⟩, -, rfl⟩ := hSame
      exact lt_asymm hLt hLt'
  · constructor
    · intro hSame
      simp only [Prod.mk.injEq, ReplayBlockKey.mk.injEq] at hSame
      obtain ⟨⟨-, rfl⟩, -, rfl⟩ := hSame
      exact lt_asymm hLt hLt'
    · intro hSame
      simp only [Prod.mk.injEq, ReplayBlockKey.mk.injEq] at hSame
      obtain ⟨⟨hChain, rfl⟩, -, rfl⟩ := hSame
      exact hApart hChain ⟨hLow', hHigh'⟩

end Entering

/-! ## The steps -/

namespace Shape

variable {lower : Lowercase} {profile : CostProfile} {blocks : Finset ReplayBlockKey}
  {dependencies : Finset (ReplayBlockKey × ReplayBlockKey)} {view view' : ReplayTrustView}

theorem new (hNew : ReplayTrustView.new profile = .ok view) : Shape lower profile ∅ ∅ view := by
  have hInvariant : view.Invariant lower profile := new_invariant hNew
  simp only [ReplayTrustView.new, check_bind_eq_ok, pure_eq_ok] at hNew
  obtain ⟨-, rfl⟩ := hNew
  constructor
  case invariant => exact hInvariant
  case heap => exact fun _ => trivial
  case counted => rfl
  all_goals simp [GraphEdge, Consecutive, heightsOf]

variable (h : Shape lower profile blocks dependencies view) {key : ReplayBlockKey}
  {predecessor successor : Option UInt64}

include h

theorem mem_heights {height : UInt64} :
    height ∈ (view.heights chain).toList ↔ height ∈ heightsOf blocks chain := by
  rw [← h.invariant.indexed ⟨chain, height⟩, h.nodes]
  rfl

theorem entering (hNew : (view.heights key.chain).contains key.height = false) :
    Entering blocks key ((view.heights key.chain).neighbours key.height none none).1
      ((view.heights key.chain).neighbours key.height none none).2 := by
  have hBlocks : blocks = view.nodeKeys.toFinset := by
    ext other
    rw [← h.nodes, List.mem_toFinset]
  rw [hBlocks]
  exact h.invariant.entering hNew

/-- The rows of the view join blocks. -/
theorem ends_mem (hRow : row ∈ view.adjacency.rows) :
    row.fromKey ∈ blocks ∧ row.toKey ∈ blocks := by
  rw [← h.nodes, ← h.nodes]
  exact h.invariant.joined row hRow

/-- The ends of the new rows are free. -/
theorem new_ends_free (hEnter : Entering blocks key predecessor successor)
    {old : AdjacencyRow} (hRow : row ∈ newRows profile key predecessor successor)
    (hOld : old ∈ view.adjacency.rows) : old.ends ≠ row.ends := by
  intro hEnds
  obtain ⟨hFrom, hTo⟩ := h.ends_mem hOld
  obtain ⟨hFromEq, hToEq⟩ := Prod.mk.inj hEnds
  rcases Entering.new_ends hRow with rfl | rfl
  · exact hEnter.fresh (hFromEq ▸ hFrom)
  · exact hEnter.fresh (hToEq ▸ hTo)

/-- The rows that stay and the new rows are the edges of the graph with the new block. -/
theorem rows_entered (hEnter : Entering blocks key predecessor successor)
    (row : AdjacencyRow) :
    (row ∈ newRows profile key predecessor successor ∨
        (row ∈ view.adjacency.rows ∧ ∀ low ∈ predecessor, ∀ high ∈ successor,
          row.ends ≠ (⟨key.chain, low⟩, ⟨key.chain, high⟩) ∧
            row.ends ≠ (⟨key.chain, high⟩, ⟨key.chain, low⟩))) ↔
      GraphEdge profile (insert key blocks) dependencies row := by
  rw [mem_newRows, h.rows]
  constructor
  · rintro ((⟨low, hLow, hRow⟩ | ⟨high, hHigh, hRow⟩) |
      ⟨⟨chain, low, high, hConsecutive, hRow⟩ | hDependency, hKept⟩)
    · exact Or.inl ⟨key.chain, low, key.height,
        hEnter.consecutive_insert.mpr (Or.inl ⟨rfl, hLow⟩), hRow⟩
    · exact Or.inl ⟨key.chain, key.height, high,
        hEnter.consecutive_insert.mpr (Or.inr (Or.inl ⟨rfl, hHigh⟩)), hRow⟩
    · refine Or.inl ⟨chain, low, high, ?_, hRow⟩
      by_cases hChain : chain = key.chain
      · subst hChain
        refine hEnter.consecutive_insert.mpr (Or.inr (Or.inr ⟨hConsecutive, ?_⟩))
        rintro ⟨hLow, hHigh⟩
        obtain ⟨hUp, hDown⟩ := hKept low hLow high hHigh
        exact (ends_of_ancestryRows hRow).elim hUp hDown
      · rwa [heightsOf_insert_of_ne hChain]
    · exact Or.inr hDependency
  · rintro (⟨chain, low, high, hConsecutive, hRow⟩ | hDependency)
    · by_cases hChain : chain = key.chain
      · subst hChain
        rcases hEnter.consecutive_insert.mp hConsecutive with
          ⟨rfl, hLow⟩ | ⟨rfl, hHigh⟩ | ⟨hOld, hApart⟩
        · exact Or.inl (Or.inl ⟨low, hLow, hRow⟩)
        · exact Or.inl (Or.inr ⟨high, hHigh, hRow⟩)
        · exact Or.inr ⟨Or.inl ⟨key.chain, low, high, hOld, hRow⟩,
            hEnter.not_detached hRow hOld.2.2.1 fun _ => hApart⟩
      · rw [heightsOf_insert_of_ne hChain] at hConsecutive
        exact Or.inr ⟨Or.inl ⟨chain, low, high, hConsecutive, hRow⟩,
          hEnter.not_detached hRow hConsecutive.2.2.1 fun hSame => absurd hSame hChain⟩
    · refine Or.inr ⟨Or.inr hDependency, fun low _ high _ => ⟨fun hEnds => ?_, fun hEnds => ?_⟩⟩
      all_goals
        have hCross := h.crossChain _ hDependency.1
        rw [hEnds] at hCross
        exact hCross rfl

/-- The rows between the neighbours are there to be detached. -/
theorem length_detach (hEnter : Entering blocks key (some low) (some high)) :
    ((view.insertNode key).detach key.chain (some low) (some high)).adjacency.rows.length + 2 =
      view.adjacency.rows.length := by
  have hConsecutive := hEnter.consecutive rfl rfl
  have hUp : ∃ edge, (view.insertNode key).edge ⟨key.chain, low⟩ ⟨key.chain, high⟩ = some edge :=
    ⟨_, edge_eq_some.mpr ((h.rows _).mpr
      (Or.inl ⟨key.chain, low, high, hConsecutive, List.mem_cons_self⟩))⟩
  have hDown : ∃ edge, ((view.insertNode key).deleteEdge ⟨key.chain, low⟩ ⟨key.chain, high⟩).edge
      ⟨key.chain, high⟩ ⟨key.chain, low⟩ = some edge := by
    refine ⟨_, edge_eq_some.mpr (Table.mem_filter_rows.mpr ⟨(h.rows _).mpr
      (Or.inl ⟨key.chain, low, high, hConsecutive, List.mem_cons_of_mem _ List.mem_cons_self⟩), ?_⟩)⟩
    simp [AdjacencyRow.ends, hConsecutive.2.2.1.ne']
  obtain ⟨up, hUp⟩ := hUp
  obtain ⟨down, hDown⟩ := hDown
  have hFirst := length_deleteEdge hUp
  have hSecond := length_deleteEdge hDown
  have hSame : (view.insertNode key).adjacency.rows.length = view.adjacency.rows.length := rfl
  rw [ReplayTrustView.detach]
  omega

/-- Two rows more, unless the new block is the first one of its chain. -/
theorem length_entered (hEnter : Entering blocks key predecessor successor) :
    ((view.insertNode key).detach key.chain predecessor successor).adjacency.rows.length +
        (newRows profile key predecessor successor).length =
      view.adjacency.rows.length + if key.chain ∈ blocks.image (·.chain) then 2 else 0 := by
  have hAlone := hEnter.alone
  cases predecessor with
  | none =>
      cases successor with
      | none =>
          rw [if_neg (hAlone.mp ⟨rfl, rfl⟩)]
          rfl
      | some high =>
          rw [if_pos (by simpa using hAlone)]
          rfl
  | some low =>
      rw [if_pos (by simpa using hAlone)]
      cases successor with
      | none => rfl
      | some high =>
          have hDetach := h.length_detach hEnter
          have hLength : (newRows profile key (some low) (some high)).length = 4 := rfl
          omega

/-- Entering a new key. -/
theorem activateKey (hCanonical : canonicalKey lower key = key)
    (hNew : (view.heights key.chain).contains key.height = false)
    (hActivate : view.activateKey key = .ok view') :
    Shape lower profile (insert key blocks) dependencies view' := by
  have hInvariant := h.invariant.activateKey hCanonical hNew hActivate
  have hNodes := activateKey_nodeKeys hActivate
  have hHeights := activateKey_heights hActivate
  have hEnter := h.entering hNew
  simp only [ReplayTrustView.activateKey, bind_eq_ok, pure_eq_ok] at hActivate
  obtain ⟨pending, hPending, rfl⟩ := hActivate
  generalize (view.heights key.chain).neighbours key.height none none = around at *
  rw [h.invariant.profile_eq] at hPending
  obtain ⟨rfl, hFitsLow, hFitsHigh⟩ :=
    pendingEdges_eq_rows hEnter.low_lt hEnter.lt_high hPending
  have hDistinct := @newRows_distinct profile key around.1 around.2 hEnter.low_lt hEnter.lt_high
  have hFree : ∀ row ∈ newRows profile key around.1 around.2,
      ∀ old ∈ ((view.insertNode key).detach key.chain around.1 around.2).adjacency.rows,
        old.ends ≠ row.ends :=
    fun row hRow old hOld => h.new_ends_free hEnter hRow (mem_detach.mp hOld).1
  constructor
  case invariant => exact hInvariant
  case heap =>
    intro chain
    rw [hHeights]
    by_cases hChain : chain = key.chain
    · subst hChain
      rw [Function.update_self]
      exact KeyTree.Heap.insert heightRank_injective heightPriorityLess_iff
        (h.invariant.ordered key.chain) (h.heap key.chain)
    · rw [Function.update_of_ne hChain]
      exact h.heap chain
  case nodes =>
    intro other
    rw [hNodes, List.mem_append, List.mem_singleton, h.nodes, Finset.mem_insert, or_comm]
  case crossChain => exact h.crossChain
  case rows =>
    intro row
    rw [mem_foldl_setEdge hDistinct, ← h.rows_entered hEnter]
    have hKept := @mem_detach row key.chain (view.insertNode key) around.1 around.2
    refine or_congr_right ⟨fun hMem => hKept.mp hMem.1, fun hMem => ?_⟩
    refine ⟨hKept.mpr hMem, fun hEnds => ?_⟩
    obtain ⟨other, hOther, hSame⟩ := List.mem_map.mp hEnds
    exact h.new_ends_free hEnter hOther hMem.1 hSame.symm
  case fits =>
    intro chain low high hConsecutive
    by_cases hChain : chain = key.chain
    · subst hChain
      rcases hEnter.consecutive_insert.mp hConsecutive with
        ⟨rfl, hLow⟩ | ⟨rfl, hHigh⟩ | ⟨hOld, -⟩
      · exact hFitsLow low hLow
      · exact hFitsHigh high hHigh
      · exact h.fits key.chain low high hOld
    · rw [heightsOf_insert_of_ne hChain] at hConsecutive
      exact h.fits chain low high hConsecutive
  case count =>
    have hCount := h.count
    have hLength := h.length_entered hEnter
    rw [length_foldl_setEdge hDistinct hFree, hLength, Finset.image_insert,
      Finset.card_insert_of_notMem hEnter.fresh]
    by_cases hChain : key.chain ∈ blocks.image (·.chain)
    · rw [if_pos hChain, Finset.insert_eq_of_mem hChain]
      omega
    · rw [if_neg hChain, Finset.card_insert_of_notMem hChain]
      omega
  case counted =>
    have hInserted : (view.insertNode key).Counted := h.counted
    exact (hInserted.detach _ _ _).foldl_setEdge _

theorem activate {block : ReplayBlock}
    (hActivate : view.activate lower block = .ok view') :
    Shape lower profile (insert (block.key lower) blocks) dependencies view' := by
  obtain ⟨-, ⟨hContains, rfl⟩ | ⟨hNew, hKey⟩⟩ := activate_eq_ok.mp hActivate
  · have hMem : block.key lower ∈ blocks := by
      rw [KeyTree.contains_iff (h.invariant.ordered _), h.mem_heights] at hContains
      exact hContains
    rwa [Finset.insert_eq_of_mem hMem]
  · exact h.activateKey (canonicalKey_key lower block) hNew hKey

/-- Setting the edge of a dependency between two blocks of different chains. -/
theorem setDependency
    {fromKey toKey : ReplayBlockKey} (hFrom : fromKey ∈ blocks) (hTo : toKey ∈ blocks)
    (hChains : fromKey.chain ≠ toKey.chain) :
    Shape lower profile blocks (insert (fromKey, toKey) dependencies)
      (view.setEdge ⟨fromKey, toKey, ⟨.verifiedDependency, profile.pathStepCost⟩⟩) := by
  have hIntra : ∀ row ∈ view.adjacency.rows, row.ends = (fromKey, toKey) →
      (fromKey, toKey) ∈ dependencies := by
    intro row hRow hEnds
    rcases (h.rows row).mp hRow with ⟨chain, low, high, -, hAncestry⟩ | ⟨hMem, -⟩
    · rcases ends_of_ancestryRows hAncestry with hPair | hPair
      all_goals
        obtain ⟨rfl, rfl⟩ := Prod.mk.inj (hEnds.symm.trans hPair)
        exact absurd rfl hChains
    · rwa [← hEnds]
  constructor
  case invariant =>
    refine h.invariant.setEdge ((h.nodes _).mpr hFrom) ((h.nodes _).mpr hTo) ?_
    exact rfl
  case heap => exact h.heap
  case nodes => exact h.nodes
  case crossChain =>
    intro pair hPair
    rcases Finset.mem_insert.mp hPair with rfl | hPair
    · exact hChains
    · exact h.crossChain pair hPair
  case rows =>
    intro row
    rw [mem_setEdge, h.rows]
    constructor
    · rintro (rfl | ⟨hAncestry | ⟨hMem, hEdge⟩, -⟩)
      · exact Or.inr ⟨Finset.mem_insert_self _ _, rfl⟩
      · exact Or.inl hAncestry
      · exact Or.inr ⟨Finset.mem_insert_of_mem hMem, hEdge⟩
    · rintro (hAncestry | ⟨hMem, hEdge⟩)
      · refine Or.inr ⟨Or.inl hAncestry, fun hEnds => ?_⟩
        obtain ⟨chain, low, high, -, hRow⟩ := hAncestry
        rcases ends_of_ancestryRows hRow with hPair | hPair
        all_goals
          obtain ⟨rfl, rfl⟩ := Prod.mk.inj (hEnds.symm.trans hPair)
          exact absurd rfl hChains
      · by_cases hEnds : row.ends = (fromKey, toKey)
        · left
          obtain ⟨rfl, rfl⟩ := Prod.mk.inj hEnds
          cases row
          simp_all
        · exact Or.inr ⟨Or.inr ⟨(Finset.mem_insert.mp hMem).resolve_left hEnds, hEdge⟩, hEnds⟩
  case fits => exact h.fits
  case count =>
    have hCount := h.count
    by_cases hKnown : (fromKey, toKey) ∈ dependencies
    · have hRow := (h.rows ⟨fromKey, toKey, ⟨.verifiedDependency, profile.pathStepCost⟩⟩).mpr
        (Or.inr ⟨hKnown, rfl⟩)
      rw [Finset.insert_eq_of_mem hKnown, ← hCount]
      congr 1
      exact Table.length_upsert_of_some (Table.find?_key hRow)
    · have hLength : (view.setEdge ⟨fromKey, toKey, ⟨.verifiedDependency,
          profile.pathStepCost⟩⟩).adjacency.rows.length = view.adjacency.rows.length + 1 :=
        Table.length_upsert_of_none (Table.find?_eq_none.mpr fun row hRow hEnds =>
          hKnown (hIntra row hRow hEnds))
      rw [Finset.card_insert_of_notMem hKnown, hLength]
      omega
  case counted => exact h.counted.setEdge _

theorem addVerifiedDependency {fromBlock toBlock : ReplayBlock}
    (hChains : (fromBlock.key lower).chain ≠ (toBlock.key lower).chain)
    (hAdd : view.addVerifiedDependency lower fromBlock toBlock = .ok view') :
    Shape lower profile (insert (toBlock.key lower) (insert (fromBlock.key lower) blocks))
      (insert (fromBlock.key lower, toBlock.key lower) dependencies) view' := by
  obtain ⟨first, second, hFirst, hSecond, -, rfl⟩ := addVerifiedDependency_eq_ok.mp hAdd
  have hShape := (h.activate hFirst).activate hSecond
  have hSet := hShape.setDependency (by simp) (by simp) hChains
  rw [hShape.invariant.profile_eq]
  exact ⟨{ hSet.invariant with }, hSet.heap, hSet.nodes, hSet.crossChain, hSet.rows, hSet.fits,
    hSet.count, hSet.counted⟩

end Shape

namespace ShapeToy

/-- Unit costs. -/
def profile : CostProfile := ⟨"toy", 1, 1, 1⟩

/-- A block of a chain. -/
def block (chain : String) (height : UInt64) : ReplayBlock := ⟨chain, height, height⟩

end ShapeToy

/-! ## Runs of calls -/

/-- The number of a node. -/
def nodeID (view : ReplayTrustView) (key : ReplayBlockKey) : ℕ :=
  (view.nodeIDs key).getD 0

section Numbers

variable {view : ReplayTrustView} {key other : ReplayBlockKey}

theorem Numbered.nodeIDs_eq (h : view.Numbered) (hKey : key ∈ view.nodeKeys) :
    view.nodeIDs key = some (view.nodeID key) ∧ view.nodeKeys[view.nodeID key]? = some key := by
  obtain ⟨id, hID⟩ := List.getElem?_of_mem hKey
  rw [nodeID, (h key id).mpr hID]
  exact ⟨rfl, hID⟩

theorem Numbered.nodeID_lt (h : view.Numbered) (hKey : key ∈ view.nodeKeys) :
    view.nodeID key < view.nodeKeys.length :=
  (List.getElem?_eq_some_iff.mp (h.nodeIDs_eq hKey).2).1

theorem Numbered.nodeID_inj (h : view.Numbered) (hKey : key ∈ view.nodeKeys)
    (hOther : other ∈ view.nodeKeys) : view.nodeID key = view.nodeID other ↔ key = other := by
  refine ⟨fun hSame => ?_, congrArg view.nodeID⟩
  have hNode := (h.nodeIDs_eq hKey).2
  rw [hSame, (h.nodeIDs_eq hOther).2] at hNode
  exact (Option.some.inj hNode).symm

/-- The numbers are given to the nodes, and each up to their count to one of them. -/
theorem Numbered.nodeID_bijOn (h : view.Numbered) :
    (∀ key, (view.nodeIDs key).isSome ↔ key ∈ view.nodeKeys) ∧
      Set.BijOn view.nodeID {key | key ∈ view.nodeKeys} (Set.Iio view.nodeKeys.length) := by
  refine ⟨fun key => ⟨fun hSome => ?_, fun hKey => ?_⟩, fun key hKey => h.nodeID_lt hKey,
    fun key hKey other hOther hSame => (h.nodeID_inj hKey hOther).mp hSame, fun number hNumber => ?_⟩
  · obtain ⟨id, hID⟩ := Option.isSome_iff_exists.mp hSome
    exact List.mem_of_getElem? ((h key id).mp hID)
  · rw [(h.nodeIDs_eq hKey).1]
    rfl
  · refine ⟨view.nodeKeys[number], List.getElem_mem _, ?_⟩
    rw [nodeID, (h _ number).mpr (List.getElem?_eq_getElem hNumber), Option.getD_some]

end Numbers

/-- A call of one of the two methods that change a view. -/
inductive ViewCall
  | activate (block : ReplayBlock)
  | addVerifiedDependency (fromBlock toBlock : ReplayBlock)

namespace ViewCall

variable (lower : Lowercase)

/-- What a call does to the view. -/
def run (view : ReplayTrustView) : ViewCall → Except ReplayError ReplayTrustView
  | activate block => view.activate lower block
  | addVerifiedDependency fromBlock toBlock => view.addVerifiedDependency lower fromBlock toBlock

/-- The blocks a call activates. -/
def blocks : ViewCall → List ReplayBlockKey
  | activate block => [block.key lower]
  | addVerifiedDependency fromBlock toBlock => [fromBlock.key lower, toBlock.key lower]

/-- The dependency a call adds. -/
def dependency : ViewCall → List (ReplayBlockKey × ReplayBlockKey)
  | activate _ => []
  | addVerifiedDependency fromBlock toBlock => [(fromBlock.key lower, toBlock.key lower)]

/-- The dependency of a call joins different chains. -/
def CrossChain (call : ViewCall) : Prop :=
  ∀ pair ∈ call.dependency lower, pair.1.chain ≠ pair.2.chain

end ViewCall

variable {lower : Lowercase} {profile : CostProfile}

/-- A sequence of calls that all succeed. -/
def runCalls (lower : Lowercase) (view : ReplayTrustView) (calls : List ViewCall) :
    Except ReplayError ReplayTrustView :=
  calls.foldlM (ViewCall.run lower) view

/-- The blocks that some calls activate. -/
def activated (lower : Lowercase) (calls : List ViewCall) : Finset ReplayBlockKey :=
  (calls.flatMap (ViewCall.blocks lower)).toFinset

/-- The different dependencies that some calls add. -/
def dependencies (lower : Lowercase) (calls : List ViewCall) :
    Finset (ReplayBlockKey × ReplayBlockKey) :=
  (calls.flatMap (ViewCall.dependency lower)).toFinset

variable {pairs : Finset (ReplayBlockKey × ReplayBlockKey)}

theorem Shape.call {blocks : Finset ReplayBlockKey} {view view' : ReplayTrustView}
    (h : Shape lower profile blocks pairs view) {call : ViewCall} (hCross : call.CrossChain lower)
    (hRun : call.run lower view = .ok view') :
    Shape lower profile (blocks ∪ (call.blocks lower).toFinset)
      (pairs ∪ (call.dependency lower).toFinset) view' := by
  cases call with
  | activate block =>
      have hShape := h.activate hRun
      have hBlocks : blocks ∪ ((ViewCall.activate block).blocks lower).toFinset =
          insert (block.key lower) blocks := by
        ext key
        simp [ViewCall.blocks, or_comm]
      have hPairs : pairs ∪ ((ViewCall.activate block).dependency lower).toFinset = pairs := by
        simp [ViewCall.dependency]
      rwa [hBlocks, hPairs]
  | addVerifiedDependency fromBlock toBlock =>
      have hChains : (fromBlock.key lower).chain ≠ (toBlock.key lower).chain :=
        hCross (fromBlock.key lower, toBlock.key lower) List.mem_cons_self
      have hShape := h.addVerifiedDependency hChains hRun
      have hBlocks : blocks ∪ ((ViewCall.addVerifiedDependency fromBlock toBlock).blocks
          lower).toFinset = insert (toBlock.key lower) (insert (fromBlock.key lower) blocks) := by
        ext key
        simp only [ViewCall.blocks, Finset.mem_union, List.mem_toFinset, List.mem_cons,
          List.not_mem_nil, or_false, Finset.mem_insert]
        rw [or_comm, or_assoc, or_left_comm]
      have hPairs : pairs ∪ ((ViewCall.addVerifiedDependency fromBlock toBlock).dependency
          lower).toFinset = insert (fromBlock.key lower, toBlock.key lower) pairs := by
        ext pair
        simp [ViewCall.dependency, or_comm]
      rwa [hBlocks, hPairs]

/-- Calls whose dependencies join different chains extend the graph by their blocks and
dependencies. -/
theorem Shape.runCalls {blocks : Finset ReplayBlockKey} {view view' : ReplayTrustView}
    (h : Shape lower profile blocks pairs view) {calls : List ViewCall}
    (hCross : ∀ call ∈ calls, call.CrossChain lower)
    (hRun : ReplayTrustView.runCalls lower view calls = .ok view') :
    Shape lower profile (blocks ∪ activated lower calls) (pairs ∪ dependencies lower calls)
      view' := by
  induction calls generalizing blocks pairs view with
  | nil =>
      obtain rfl : view = view' := Except.ok.inj hRun
      simpa [activated, dependencies] using h
  | cons call calls ih =>
      rw [ReplayTrustView.runCalls, List.foldlM_cons] at hRun
      obtain ⟨middle, hCall, hRest⟩ := bind_eq_ok.mp hRun
      have hShape := ih (h.call (hCross call List.mem_cons_self) hCall)
        (fun other hOther => hCross other (List.mem_cons_of_mem _ hOther)) hRest
      have hBlocks : activated lower (call :: calls) =
          (call.blocks lower).toFinset ∪ activated lower calls := by
        simp [activated, List.toFinset_append]
      have hPairs : dependencies lower (call :: calls) =
          (call.dependency lower).toFinset ∪ dependencies lower calls := by
        simp [dependencies, List.toFinset_append]
      rwa [hBlocks, hPairs, ← Finset.union_assoc, ← Finset.union_assoc]

/-- The number of pairs of consecutive heights: the blocks that are not the first of their chain. -/
theorem sum_card_chains (blocks : Finset ReplayBlockKey) :
    ∑ chain ∈ blocks.image (·.chain), ((blocks.filter (·.chain = chain)).card - 1) +
      (blocks.image (·.chain)).card = blocks.card := by
  have hPositive : ∀ chain ∈ blocks.image (·.chain),
      (blocks.filter (·.chain = chain)).card - 1 + 1 = (blocks.filter (·.chain = chain)).card := by
    intro chain hChain
    obtain ⟨key, hKey, rfl⟩ := Finset.mem_image.mp hChain
    have hMem : key ∈ blocks.filter (·.chain = key.chain) := Finset.mem_filter.mpr ⟨hKey, rfl⟩
    exact Nat.sub_add_cancel (Finset.card_pos.mpr ⟨key, hMem⟩)
  calc
    _ = ∑ chain ∈ blocks.image (·.chain), ((blocks.filter (·.chain = chain)).card - 1 + 1) := by
      rw [Finset.sum_add_distrib, Finset.card_eq_sum_ones]
    _ = ∑ chain ∈ blocks.image (·.chain), (blocks.filter (·.chain = chain)).card :=
      Finset.sum_congr rfl hPositive
    _ = blocks.card := (Finset.card_eq_sum_card_image _ _).symm

/-- The same nodes, indexes, edges and counters; the nodes may have other numbers. -/
structure SameGraph (view view' : ReplayTrustView) : Prop where
  nodes : ∀ key, key ∈ view.nodeKeys ↔ key ∈ view'.nodeKeys
  heights : view.heights = view'.heights
  edges : ∀ fromKey toKey, view.edge fromKey toKey = view'.edge fromKey toKey
  nodeCount : view.nodeCount = view'.nodeCount
  edgeCount : view.edgeCount = view'.edgeCount

theorem Shape.length_rows {blocks : Finset ReplayBlockKey} {view : ReplayTrustView}
    (h : Shape lower profile blocks pairs view) :
    view.adjacency.rows.length =
      2 * ∑ chain ∈ blocks.image (·.chain), ((blocks.filter (·.chain = chain)).card - 1) +
        pairs.card := by
  have hCount := h.count
  have hSum := sum_card_chains blocks
  omega

theorem Shape.sameGraph {blocks : Finset ReplayBlockKey} {view view' : ReplayTrustView}
    (h : Shape lower profile blocks pairs view) (h' : Shape lower profile blocks pairs view') :
    SameGraph view view' := by
  have hNodes : ∀ key, key ∈ view.nodeKeys ↔ key ∈ view'.nodeKeys :=
    fun key => (h.nodes key).trans (h'.nodes key).symm
  constructor
  case nodes => exact hNodes
  case heights =>
    funext chain
    apply KeyTree.Heap.unique heightRank_injective (h.invariant.ordered chain) (h.heap chain)
      (h'.invariant.ordered chain) (h'.heap chain)
    intro height
    rw [h.mem_heights, h'.mem_heights]
  case edges =>
    intro fromKey toKey
    apply Option.ext
    intro edge
    rw [edge_eq_some, edge_eq_some, h.rows, h'.rows]
  case nodeCount =>
    rw [nodeCount, nodeCount,
      ((List.perm_ext_iff_of_nodup h.invariant.nodup h'.invariant.nodup).mpr hNodes).length_eq]
  case edgeCount => rw [h.counted, h'.counted, h.length_rows, h'.length_rows]

/-- The last call puts a block between two others. -/
def ShapeToy.calls : List ViewCall :=
  [.activate (block "a" 1), .addVerifiedDependency (block "b" 7) (block "a" 5),
    .activate (block "a" 3)]

/-- Whatever calls succeed, as long as dependencies join different chains: the edges are those of the
graph of the activated blocks and the dependencies, with the weights as they are meant; the counter
is the number of these edges; the map of the numbers has the activated blocks and gives them the
numbers up to their count, each once; and the order of the calls does not matter. -/
theorem replayGraph_characterised {empty view : ReplayTrustView} {calls : List ViewCall}
    (hNew : new profile = .ok empty) (hCross : ∀ call ∈ calls, call.CrossChain lower)
    (hRun : runCalls lower empty calls = .ok view) :
    (∀ fromKey toKey edge, view.edge fromKey toKey = some edge ↔
        GraphEdge profile (activated lower calls) (dependencies lower calls)
          ⟨fromKey, toKey, edge⟩) ∧
      (∀ chain low high, Consecutive (heightsOf (activated lower calls) chain) low high →
        Fits profile low high) ∧
      view.edgeCount = UInt64.ofNat (2 * ∑ chain ∈ (activated lower calls).image (·.chain),
          (((activated lower calls).filter (·.chain = chain)).card - 1) +
            (dependencies lower calls).card) ∧
      (∀ key, (view.nodeIDs key).isSome ↔ key ∈ activated lower calls) ∧
      Set.BijOn (fun key => (view.nodeIDs key).getD 0) {key | key ∈ activated lower calls}
        (Set.Iio (activated lower calls).card) ∧
      ∀ calls' view', calls'.Perm calls → runCalls lower empty calls' = .ok view' →
        SameGraph view view' := by
  have hShape : Shape lower profile (activated lower calls) (dependencies lower calls) view := by
    simpa using (Shape.new hNew).runCalls hCross hRun
  have hCount : (activated lower calls).card = view.nodeKeys.length := by
    rw [← List.toFinset_card_of_nodup hShape.invariant.nodup]
    exact congrArg _ (Finset.ext fun key => by rw [List.mem_toFinset, hShape.nodes])
  obtain ⟨hNumbered, hBij⟩ := hShape.invariant.numbered.nodeID_bijOn
  simp only [hShape.nodes] at hNumbered hBij
  refine ⟨?_, hShape.fits, ?_, hNumbered, hCount ▸ hBij, ?_⟩
  · intro fromKey toKey edge
    rw [edge_eq_some, hShape.rows]
  · rw [hShape.counted, hShape.length_rows]
  · intro calls' view' hPerm hRun'
    have hShape' := (Shape.new hNew).runCalls
      (fun call hCall => hCross call (hPerm.subset hCall)) hRun'
    have hBlocks : activated lower calls' = activated lower calls :=
      List.toFinset_eq_of_perm _ _ (hPerm.flatMap_right _)
    have hPairs : dependencies lower calls' = dependencies lower calls :=
      List.toFinset_eq_of_perm _ _ (hPerm.flatMap_right _)
    rw [Finset.empty_union, Finset.empty_union, hBlocks, hPairs] at hShape'
    exact hShape.sameGraph hShape'

/-- The reversed calls leave the same graph. -/
theorem replayGraph_characterised_toy :
    ∃ empty view view', new ShapeToy.profile = .ok empty ∧
      runCalls .plain empty ShapeToy.calls = .ok view ∧
      runCalls .plain empty ShapeToy.calls.reverse = .ok view' ∧ SameGraph view view' := by
  have hRuns : ((new ShapeToy.profile).bind fun empty =>
      (runCalls .plain empty ShapeToy.calls).bind fun _ =>
        runCalls .plain empty ShapeToy.calls.reverse).isOk = true := by
    decide +kernel
  obtain ⟨view', hLast⟩ := exists_ok_of_isOk hRuns
  obtain ⟨empty, hNew, hRest⟩ := bind_eq_ok.mp hLast
  obtain ⟨view, hRun, hRun'⟩ := bind_eq_ok.mp hRest
  have hCross : ∀ call ∈ ShapeToy.calls, call.CrossChain .plain := by
    simp only [ShapeToy.calls, List.forall_mem_cons, ViewCall.CrossChain, ViewCall.dependency,
      List.not_mem_nil, false_imp_iff, implies_true, and_true, true_and]
    decide +kernel
  obtain ⟨-, -, -, -, -, hOrder⟩ := replayGraph_characterised hNew hCross hRun
  exact ⟨empty, view, view', hNew, hRun, hRun', hOrder _ _ (List.reverse_perm _) hRun'⟩

end ReplayTrustView

end TrustMap.Mapnode.Replay
