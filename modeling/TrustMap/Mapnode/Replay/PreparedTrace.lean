import Mathlib.Order.Bounds.Basic
import TrustMap.Mapnode.Replay.Pruning

/-!
A prepared trace, and the check of its heights before a run. The check bounds the distance of any two
heights of a chain, and with it the cost of every edge within a chain and of every direct
verification.
-/

namespace TrustMap.Mapnode.Replay

open Checks ReplayTrustView

/-! ## The trace -/

/-- A map from chains to heights. -/
abbrev HeightMap := Table (fun entry : String × UInt64 => entry.1)

/-- `updateMinimum`. -/
def updateMinimum (values : HeightMap) (chain : String) (candidate : UInt64) : HeightMap :=
  match values.find? chain with
  | none => values.upsert (chain, candidate)
  | some entry => if candidate < entry.2 then values.upsert (chain, candidate) else values

/-- `InitHeights` of the events, as `PrepareTrace` computes it. -/
def initHeightsOf (events : List ReplayEvent) : HeightMap :=
  events.foldl (fun values event =>
    updateMinimum (updateMinimum values event.source.chain event.source.originalHeight)
      event.destination.chain event.destination.originalHeight) .empty

/-- The two blocks of an event. -/
def ReplayEvent.blocks (event : ReplayEvent) : List ReplayBlock := [event.source, event.destination]

/-- `PreparedTrace`, as far as the coordinator and the check read it. The chains are canonical and not
empty, and a slice has fewer than 2 ^ 63 elements. -/
structure PreparedTrace (lower : Lowercase) where
  events : List ReplayEvent
  initHeights : HeightMap
  minimal : initHeights = initHeightsOf events
  canonical : ∀ event ∈ events, ∀ block ∈ event.blocks,
    canonicalChain lower block.chain = block.chain ∧ block.chain ≠ ""
  short : events.length < 2 ^ 63

/-! ## Initial heights -/

/-- The height of a chain in a map. -/
def lowestIn (values : HeightMap) (chain : String) : Option UInt64 :=
  (values.find? chain).map (·.2)

/-- The heights of a chain among some blocks. -/
def heightsOf (blocks : List ReplayBlock) (chain : String) : Set UInt64 :=
  {x | ∃ block ∈ blocks, block.chain = chain ∧ block.originalHeight = x}

/-- The map has the lowest height of every chain of some blocks. -/
structure Minima (blocks : List ReplayBlock) (values : HeightMap) : Prop where
  absent : ∀ chain, lowestIn values chain = none → heightsOf blocks chain = ∅
  least : ∀ chain height, lowestIn values chain = some height → IsLeast (heightsOf blocks chain) height

section Minima

variable {blocks : List ReplayBlock} {values : HeightMap}

theorem lowestIn_upsert (values : HeightMap) (chain name : String) (height : UInt64) :
    lowestIn (values.upsert (chain, height)) name =
      if name = chain then some height else lowestIn values name := by
  rw [lowestIn, lowestIn, Table.find?_upsert]
  split
  · rfl
  · rfl

theorem lowestIn_updateMinimum (values : HeightMap) (chain name : String) (candidate : UInt64) :
    lowestIn (updateMinimum values chain candidate) name =
      if name = chain then some ((lowestIn values chain).elim candidate fun known =>
        if candidate < known then candidate else known)
      else lowestIn values name := by
  rw [updateMinimum]
  cases hFind : values.find? chain with
  | none =>
      rw [lowestIn_upsert, show lowestIn values chain = none by rw [lowestIn, hFind]; rfl]
      rfl
  | some entry =>
      have hKnown : lowestIn values chain = some entry.2 := by
        rw [lowestIn, hFind]
        rfl
      rw [hKnown, Option.elim_some]
      dsimp only
      split
      next => rw [lowestIn_upsert]
      next =>
        split
        next hName => rw [hName, hKnown]
        next => rfl

theorem heightsOf_snoc (blocks : List ReplayBlock) (block : ReplayBlock) (chain : String) :
    heightsOf (blocks ++ [block]) chain = if chain = block.chain
      then insert block.originalHeight (heightsOf blocks chain) else heightsOf blocks chain := by
  ext height
  by_cases hChain : chain = block.chain
  · simp [heightsOf, hChain, or_and_right, exists_or, eq_comm, or_comm]
  · simp [heightsOf, hChain, or_and_right, exists_or, Ne.symm hChain]

theorem Minima.update (h : Minima blocks values) (block : ReplayBlock) :
    Minima (blocks ++ [block]) (updateMinimum values block.chain block.originalHeight) := by
  constructor
  · intro chain hNone
    rw [lowestIn_updateMinimum] at hNone
    rw [heightsOf_snoc]
    split at hNone
    · cases hNone
    next hChain => rw [if_neg hChain, h.absent chain hNone]
  · intro chain height hSome
    rw [lowestIn_updateMinimum] at hSome
    rw [heightsOf_snoc]
    split at hSome
    next hChain =>
      rw [if_pos hChain, hChain]
      cases hKnown : lowestIn values block.chain with
      | none =>
          rw [hKnown] at hSome
          rw [h.absent _ hKnown, ← Option.some.inj hSome, insert_empty_eq]
          exact isLeast_singleton
      | some known =>
          rw [hKnown, Option.elim_some, ← min_def_lt] at hSome
          rw [← Option.some.inj hSome]
          exact (h.least _ known hKnown).insert _
    next hChain =>
      rw [if_neg hChain]
      exact h.least chain height hSome

theorem initHeightsOf_minima (events : List ReplayEvent) :
    Minima (events.flatMap ReplayEvent.blocks) (initHeightsOf events) := by
  have hFold : ∀ (events : List ReplayEvent) (blocks : List ReplayBlock) (values : HeightMap),
      Minima blocks values → Minima (blocks ++ events.flatMap ReplayEvent.blocks)
        (events.foldl (fun values event =>
          updateMinimum (updateMinimum values event.source.chain event.source.originalHeight)
            event.destination.chain event.destination.originalHeight) values) := by
    intro events
    induction events with
    | nil =>
        intro blocks values h
        rwa [List.flatMap_nil, List.append_nil]
    | cons event events ih =>
        intro blocks values h
        have hNext := ih _ _ ((h.update event.source).update event.destination)
        rw [List.append_assoc, List.append_assoc] at hNext
        exact hNext
  exact hFold events [] .empty ⟨fun _ _ => by simp [heightsOf], fun _ _ hSome => nomatch hSome⟩

/-- The map has a height for a chain exactly if it is the least one of the chain. -/
theorem Minima.isLeast_iff (h : Minima blocks values) {chain : String} {height : UInt64} :
    lowestIn values chain = some height ↔ IsLeast (heightsOf blocks chain) height := by
  refine ⟨h.least chain height, fun hHeight => ?_⟩
  cases hKnown : lowestIn values chain with
  | none =>
      have hMem := hHeight.1
      rw [h.absent chain hKnown] at hMem
      cases hMem
  | some known => rw [(h.least chain known hKnown).unique hHeight]

/-- A chain with a block has a lowest height. -/
theorem Minima.exists_lowest (h : Minima blocks values) {block : ReplayBlock}
    (hMem : block ∈ blocks) : ∃ base, lowestIn values block.chain = some base := by
  rw [← Option.ne_none_iff_exists']
  intro hNone
  have hEmpty := h.absent _ hNone
  exact (Set.ext_iff.mp hEmpty block.originalHeight).mp ⟨block, hMem, rfl, rfl⟩

end Minima

/-! ## The check -/

/-- `heightRange`, with its chain. -/
structure HeightRange where
  chain : String
  minimum : UInt64
  maximum : UInt64

/-- The map of the ranges. -/
abbrev HeightRanges := Table HeightRange.chain

/-- `observe`. -/
def observe (ranges : HeightRanges) (chain : String) (height : UInt64) : HeightRanges :=
  match ranges.find? chain with
  | none => ranges.upsert ⟨chain, height, height⟩
  | some range => ranges.upsert ⟨chain,
      if height < range.minimum then height else range.minimum,
      if range.maximum < height then height else range.maximum⟩

/-- The chains and heights that `ValidatePreparedTrace` observes, in its order. -/
def observations {lower : Lowercase} (trace : PreparedTrace lower) : List (String × UInt64) :=
  trace.events.flatMap (fun event => event.blocks.map fun block =>
    (block.chain, block.originalHeight)) ++ trace.initHeights.rows

/-- The checks of `ValidatePreparedTrace` for the range of a chain. -/
def checkRange (profile : CostProfile) (range : HeightRange) : Except ReplayError Unit := do
  let _ ← checkedCost (range.maximum - range.minimum) profile.directStepCost
  let pathSegment ← checkedCost (range.maximum - range.minimum) profile.pathStepCost
  let _ ← checkedAdd pathSegment profile.trustRootUpdateCost
  return ()

/-- The loop over the ranges. -/
def checkRanges (profile : CostProfile) : List HeightRange → Except ReplayError Unit
  | [] => .ok ()
  | range :: ranges => do
      checkRange profile range
      checkRanges profile ranges

/-- `ValidatePreparedTrace`. -/
def validatePreparedTrace {lower : Lowercase} (profile : CostProfile) (trace : PreparedTrace lower) :
    Except ReplayError Unit := do
  profile.validate
  let ranges := (observations trace).foldl (fun ranges seen => observe ranges seen.1 seen.2) .empty
  checkRanges profile ranges.rows
  let _ ← checkedAdd profile.pathStepCost profile.trustRootUpdateCost
  return ()

/-! ## What the check says -/

/-- A height lies in the range of its chain. -/
def Covers (ranges : HeightRanges) (chain : String) (height : UInt64) : Prop :=
  ∃ range, ranges.find? chain = some range ∧ range.minimum ≤ height ∧ height ≤ range.maximum

theorem lower_end_le (height minimum : UInt64) :
    (if height < minimum then height else minimum) ≤ height ∧
      (if height < minimum then height else minimum) ≤ minimum := by
  rw [← min_def_lt]
  exact ⟨min_le_left _ _, min_le_right _ _⟩

theorem le_upper_end (height maximum : UInt64) :
    height ≤ (if maximum < height then height else maximum) ∧
      maximum ≤ if maximum < height then height else maximum := by
  rw [← max_def_lt]
  exact ⟨le_max_right _ _, le_max_left _ _⟩

theorem covers_observe (ranges : HeightRanges) (chain : String) (height : UInt64) :
    Covers (observe ranges chain height) chain height := by
  unfold observe
  split
  · exact ⟨_, by rw [Table.find?_upsert, if_pos rfl], le_refl height, le_refl height⟩
  · exact ⟨_, by rw [Table.find?_upsert, if_pos rfl], (lower_end_le _ _).1, (le_upper_end _ _).1⟩

theorem Covers.observe {ranges : HeightRanges} {chain : String} {height : UInt64}
    (h : Covers ranges chain height) (chain' : String) (height' : UInt64) :
    Covers (observe ranges chain' height') chain height := by
  obtain ⟨range, hFind, hMin, hMax⟩ := h
  unfold Replay.observe
  by_cases hChain : chain' = chain
  · subst hChain
    rw [hFind]
    exact ⟨_, by rw [Table.find?_upsert, if_pos rfl], (lower_end_le _ _).2.trans hMin,
      hMax.trans (le_upper_end _ _).2⟩
  · refine ⟨range, ?_, hMin, hMax⟩
    split
    · rw [Table.find?_upsert, if_neg (Ne.symm hChain), hFind]
    · rw [Table.find?_upsert, if_neg (Ne.symm hChain), hFind]

theorem covers_foldl {seen : List (String × UInt64)} {ranges : HeightRanges} {chain : String}
    {height : UInt64} (h : Covers ranges chain height ∨ (chain, height) ∈ seen) :
    Covers (seen.foldl (fun ranges seen => observe ranges seen.1 seen.2) ranges) chain height := by
  induction seen generalizing ranges with
  | nil => exact h.resolve_right (by simp)
  | cons head tail ih =>
      refine ih ?_
      rcases h with hCovers | hMem
      · exact .inl (hCovers.observe _ _)
      · rcases List.mem_cons.mp hMem with rfl | hMem
        · exact .inl (covers_observe _ _ _)
        · exact .inr hMem

/-- The costs of any distance within a chain that the check allows. -/
structure Spans (profile : CostProfile) (seen : String → UInt64 → Prop) : Prop where
  direct : ∀ {chain low high}, seen chain low → seen chain high →
    (high.toNat - low.toNat) * profile.directStepCost.toNat < 2 ^ 64
  path : ∀ {chain low high}, seen chain low → seen chain high →
    (high.toNat - low.toNat) * profile.pathStepCost.toNat < 2 ^ 64

theorem checkRanges_eq_ok {profile : CostProfile} {ranges : List HeightRange} :
    checkRanges profile ranges = .ok () ↔ ∀ range ∈ ranges, checkRange profile range = .ok () := by
  induction ranges with
  | nil => simp [checkRanges]
  | cons range ranges ih => simp [checkRanges, ih]

theorem checkRange_eq_ok {profile : CostProfile} {range : HeightRange}
    (h : checkRange profile range = .ok ()) :
    (range.maximum - range.minimum).toNat * profile.directStepCost.toNat < 2 ^ 64 ∧
      (range.maximum - range.minimum).toNat * profile.pathStepCost.toNat < 2 ^ 64 := by
  obtain ⟨direct, hDirect, h⟩ := bind_eq_ok.mp h
  obtain ⟨path, hPath, -⟩ := bind_eq_ok.mp h
  rw [checkedCost_eq_ok] at hDirect hPath
  exact ⟨hDirect ▸ direct.toNat_lt, hPath ▸ path.toNat_lt⟩

/-- A chain has a height in the trace. -/
def Seen {lower : Lowercase} (trace : PreparedTrace lower) (chain : String) (height : UInt64) : Prop :=
  (chain, height) ∈ observations trace

theorem spans_of_validate {lower : Lowercase} {profile : CostProfile} {trace : PreparedTrace lower}
    (h : validatePreparedTrace profile trace = .ok ()) : Spans profile (Seen trace) := by
  rw [validatePreparedTrace, check_bind_eq_ok, check_bind_eq_ok, checkRanges_eq_ok] at h
  obtain ⟨-, hRanges, -⟩ := h
  have hWithin : ∀ {chain low high}, Seen trace chain low → Seen trace chain high →
      ∃ range, checkRange profile range = .ok () ∧
        high.toNat - low.toNat ≤ (range.maximum - range.minimum).toNat := by
    intro chain low high hLow hHigh
    obtain ⟨range, hFind, hMin, -⟩ := covers_foldl (.inr hLow)
    obtain ⟨range', hFind', -, hMax⟩ := covers_foldl (.inr hHigh)
    obtain rfl := Option.some.inj (hFind.symm.trans hFind')
    refine ⟨range, hRanges range (Table.find?_eq_some.mp hFind).1, ?_⟩
    have hMinNat := UInt64.le_iff_toNat_le.mp hMin
    have hMaxNat := UInt64.le_iff_toNat_le.mp hMax
    rcases le_or_gt range.minimum range.maximum with hLe | hGt
    · rw [UInt64.toNat_sub_of_le _ _ hLe]
      omega
    · have := UInt64.lt_iff_toNat_lt.mp hGt
      omega
  constructor
  · intro chain low high hLow hHigh
    obtain ⟨range, hCheck, hLe⟩ := hWithin hLow hHigh
    exact lt_of_le_of_lt (Nat.mul_le_mul_right _ hLe) (checkRange_eq_ok hCheck).1
  · intro chain low high hLow hHigh
    obtain ⟨range, hCheck, hLe⟩ := hWithin hLow hHigh
    exact lt_of_le_of_lt (Nat.mul_le_mul_right _ hLe) (checkRange_eq_ok hCheck).2

end TrustMap.Mapnode.Replay
