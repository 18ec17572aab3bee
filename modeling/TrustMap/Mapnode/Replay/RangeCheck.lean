import TrustMap.Mapnode.Replay.PreparedTrace

/-!
What the range check of a prepared trace leaves open. The edges, the direct estimates and the totals
of a run fit 64 bits; the search also adds an edge to the cost of a prefix, and the check does not
bound this sum. It fits if the largest direct cost and the largest edge do together.
-/

namespace TrustMap.Mapnode.Replay

open Checks ReplayTrustView

/-! ## Initial heights -/

section InitHeights

variable {lower : Lowercase}

/-- The initial heights are those of the chains of the events. -/
theorem mem_initHeightsOf {events : List ReplayEvent} {name : String} :
    (∃ entry ∈ (initHeightsOf events).rows, entry.1 = name) ↔
      ∃ event ∈ events, ∃ block ∈ event.blocks, block.chain = name := by
  have hMinima := initHeightsOf_minima events
  constructor
  · rintro ⟨entry, hMem, rfl⟩
    obtain ⟨⟨block, hBlock, hChain, -⟩, -⟩ := hMinima.least entry.1 entry.2
      (by rw [lowestIn, Table.find?_eq_some.mpr ⟨hMem, rfl⟩]; rfl)
    obtain ⟨event, hEvent, hIn⟩ := List.mem_flatMap.mp hBlock
    exact ⟨event, hEvent, block, hIn, hChain⟩
  · rintro ⟨event, hEvent, block, hIn, rfl⟩
    obtain ⟨base, hBase⟩ := hMinima.exists_lowest (List.mem_flatMap.mpr ⟨event, hEvent, hIn⟩)
    obtain ⟨entry, hFind, -⟩ := Option.map_eq_some_iff.mp hBase
    exact ⟨entry, Table.find?_eq_some.mp hFind⟩

/-- A chain with an entry has the height of an entry. -/
theorem initialHeight_mem {entries : List (String × UInt64)} {chain : String}
    (hEntry : ∃ entry ∈ entries, canonicalChain lower entry.1 = canonicalChain lower chain) :
    ∃ entry ∈ entries, canonicalChain lower entry.1 = canonicalChain lower chain ∧
      ReplayCoordinator.initialHeight lower entries chain = entry.2 := by
  induction entries using List.reverseRecOn with
  | nil => simp at hEntry
  | append_singleton entries last ih =>
      have hLast : ReplayCoordinator.initialHeight lower (entries ++ [last]) chain =
          if canonicalChain lower chain = canonicalChain lower last.1 then last.2
          else ReplayCoordinator.initialHeight lower entries chain := by
        simp [ReplayCoordinator.initialHeight, ReplayBaselines.new, List.foldl_append,
          Function.update_apply]
      rw [hLast]
      split
      · rename_i hSame
        exact ⟨last, by simp, hSame.symm, rfl⟩
      · rename_i hOther
        obtain ⟨entry, hMem, hChain⟩ := hEntry
        rcases List.mem_append.mp hMem with hMem | hMem
        · obtain ⟨entry, hMem, hSame, hHeight⟩ := ih ⟨entry, hMem, hChain⟩
          exact ⟨entry, List.mem_append_left _ hMem, hSame, hHeight⟩
        · obtain rfl := List.mem_singleton.mp hMem
          exact (hOther hChain.symm).elim

variable {trace : PreparedTrace lower} {event : ReplayEvent} {block : ReplayBlock}

theorem seen_block (hEvent : event ∈ trace.events) (hBlock : block ∈ event.blocks) :
    Seen trace block.chain block.originalHeight :=
  List.mem_append_left _ (List.mem_flatMap.mpr ⟨event, hEvent, List.mem_map.mpr ⟨block, hBlock, rfl⟩⟩)

/-- The initial height of the chain of a block is one of its heights. -/
theorem seen_initialHeight (hEvent : event ∈ trace.events) (hBlock : block ∈ event.blocks) :
    Seen trace block.chain
      (ReplayCoordinator.initialHeight lower trace.initHeights.rows block.chain) := by
  obtain ⟨entry, hMem, hName⟩ := mem_initHeightsOf.mpr ⟨event, hEvent, block, hBlock, rfl⟩
  rw [← trace.minimal] at hMem
  obtain ⟨other, hOther, hChain, hHeight⟩ :=
    @initialHeight_mem lower trace.initHeights.rows block.chain ⟨entry, hMem, by rw [hName]⟩
  obtain ⟨event', hEvent', block', hBlock', hName'⟩ :=
    mem_initHeightsOf.mp ⟨other, trace.minimal ▸ hOther, rfl⟩
  rw [← hName', (trace.canonical event' hEvent' block' hBlock').1, hName',
    (trace.canonical event hEvent block hBlock).1] at hChain
  refine List.mem_append_right _ ?_
  rw [hHeight, ← hChain]
  exact hOther

end InitHeights

/-! ## What fits -/

section Fits

variable {lower : Lowercase} {profile : CostProfile} {seen : String → UInt64 → Prop}
  {view : ReplayTrustView} {block : ReplayBlock}

theorem checkedCost_of_lt {delta step : UInt64} (h : delta.toNat * step.toNat < 2 ^ 64) :
    ∃ cost, checkedCost delta step = .ok cost :=
  ⟨UInt64.ofNat (delta.toNat * step.toNat), by
    rw [checkedCost_eq_ok, UInt64.toNat_ofNat', Nat.mod_eq_of_lt h]⟩

theorem Spans.appendPair_ok (h : Spans profile seen) {chain : String} {low high : UInt64}
    (hLow : seen chain low) (hHigh : seen chain high) (hLe : low ≤ high) :
    ∃ rows, appendPair profile chain low high = .ok rows := by
  have hDelta := UInt64.toNat_sub_of_le _ _ hLe
  obtain ⟨up, hUp⟩ := checkedCost_of_lt (hDelta ▸ h.direct hLow hHigh)
  obtain ⟨down, hDown⟩ := checkedCost_of_lt (hDelta ▸ h.path hLow hHigh)
  exact ⟨_, by rw [appendPair, hUp, ok_bind, hDown, ok_bind]; rfl⟩

/-- All nodes of a view are blocks of the trace. -/
def NodesSeen (seen : String → UInt64 → Prop) (view : ReplayTrustView) : Prop :=
  ∀ key ∈ view.nodeKeys, seen key.chain key.height

/-- The activation of a block of the trace succeeds. -/
theorem Spans.activate_ok (h : Spans profile seen) (hView : view.Invariant lower profile)
    (hNodes : NodesSeen seen view) (hChain : (block.key lower).chain ≠ "")
    (hBlock : seen (block.key lower).chain (block.key lower).height) :
    ∃ view', view.activate lower block = .ok view' ∧ NodesSeen seen view' ∧
      view'.crossEdgesAdded = view.crossEdgesAdded := by
  cases hContains : (view.heights (block.key lower).chain).contains (block.key lower).height with
  | true => exact ⟨view, activate_eq_ok.mpr ⟨hChain, .inl ⟨hContains, rfl⟩⟩, hNodes, rfl⟩
  | false =>
      have hActivate : ∃ view', view.activateKey (block.key lower) = .ok view' := by
        generalize block.key lower = key at hBlock hContains
        have hAround := @KeyTree.mem_of_neighbours _ _ key.height (view.heights key.chain) none none
        have hNear : ∀ height ∈ (view.heights key.chain).toList, seen key.chain height :=
          fun height hMem => hNodes ⟨key.chain, height⟩ ((hView.indexed _).mpr hMem)
        have hPending : ∃ rows, pendingEdges view.profile key
            ((view.heights key.chain).neighbours key.height none none).1
            ((view.heights key.chain).neighbours key.height none none).2 = .ok rows := by
          generalize (view.heights key.chain).neighbours key.height none none = around at hAround
          obtain ⟨below, above⟩ := around
          have hBelow : ∃ rows, below.elim (pure []) (fun low =>
              appendPair view.profile key.chain low key.height) = .ok rows := by
            cases below with
            | none => exact ⟨[], rfl⟩
            | some low =>
                obtain ⟨hMem, hLess⟩ := (hAround.1 low rfl).resolve_left (by simp)
                rw [hView.profile_eq]
                exact h.appendPair_ok (hNear low hMem) hBlock (le_of_lt hLess)
          have hAbove : ∃ rows, above.elim (pure []) (fun high =>
              appendPair view.profile key.chain key.height high) = .ok rows := by
            cases above with
            | none => exact ⟨[], rfl⟩
            | some high =>
                obtain ⟨hMem, hLess⟩ := (hAround.2 high rfl).resolve_left (by simp)
                rw [hView.profile_eq]
                exact h.appendPair_ok hBlock (hNear high hMem) (le_of_lt hLess)
          obtain ⟨first, hFirst⟩ := hBelow
          obtain ⟨second, hSecond⟩ := hAbove
          exact ⟨_, by rw [pendingEdges, hFirst, ok_bind, hSecond, ok_bind]; rfl⟩
        obtain ⟨rows, hRows⟩ := hPending
        exact ⟨_, by rw [activateKey, hRows, ok_bind]; rfl⟩
      obtain ⟨view', hKey⟩ := hActivate
      refine ⟨view', activate_eq_ok.mpr ⟨hChain, .inr ⟨hContains, hKey⟩⟩, fun key hMem => ?_,
        (activateKey_profile hKey).2⟩
      rw [activateKey_nodeKeys hKey, List.mem_append, List.mem_singleton] at hMem
      rcases hMem with hMem | rfl
      · exact hNodes key hMem
      · exact hBlock

/-- The direct estimate of a block of the trace succeeds. -/
theorem Spans.estimateFrom_ok (h : Spans profile seen) {chain : String} {baseline height : UInt64}
    (hBaseline : seen chain baseline) (hHeight : seen chain height) (period : Option UInt64) :
    ∃ estimate, estimateFrom profile period baseline height = .ok estimate := by
  unfold estimateFrom
  split
  · rename_i hUp
    obtain ⟨hLater, hBelow⟩ := @checkpointStart_directStart period baseline height hUp
    have hDelta := UInt64.toNat_sub_of_le _ _ hBelow
    have hSmall : (height - (checkpointStart baseline height period).directStart).toNat *
        profile.directStepCost.toNat < 2 ^ 64 := by
      refine lt_of_le_of_lt (Nat.mul_le_mul_right _ ?_) (h.direct hBaseline hHeight)
      have := UInt64.le_iff_toNat_le.mp hLater
      omega
    obtain ⟨cost, hCost⟩ := checkedCost_of_lt hSmall
    refine ⟨{ checkpointStart baseline height period with
      directBlocks := height - (checkpointStart baseline height period).directStart, cost := cost }, ?_⟩
    dsimp only
    rw [hCost, ok_bind]
    rfl
  · rename_i hDown
    have hDelta := UInt64.toNat_sub_of_le _ _ (le_of_lt (not_le.mp hDown))
    obtain ⟨cost, hCost⟩ := checkedCost_of_lt (hDelta ▸ h.path hHeight hBaseline)
    exact ⟨_, by rw [hCost, ok_bind]; rfl⟩

end Fits

namespace ReplayCoordinator

/-! ## The search -/

section Search

variable {lower : Lowercase} {c c' : ReplayCoordinator} {event : ReplayEvent}
  {view : ReplayTrustView} {estimate : ReplayDirectEstimate}

/-- A path that the search returns costs at most the bound, so the total of a path fits. -/
theorem planFound_ok {path : ReplayPath}
    (hCost : c.profile.trustRootUpdateCost < estimate.cost)
    (hPath : path.cost.toNat ≤ (estimate.cost - c.profile.trustRootUpdateCost).toNat) :
    ∃ result, c.planFound event estimate (some path) = .ok result := by
  have hLess := UInt64.lt_iff_toNat_lt.mp hCost
  rw [UInt64.toNat_sub_of_le _ _ (le_of_lt hCost)] at hPath
  have hSum : path.cost.toNat + c.profile.trustRootUpdateCost.toNat < 2 ^ 64 := by
    have := estimate.cost.toNat_lt
    omega
  have hAdd : checkedAdd path.cost c.profile.trustRootUpdateCost =
      .ok (UInt64.ofNat (path.cost.toNat + c.profile.trustRootUpdateCost.toNat)) := by
    rw [checkedAdd_eq_ok, UInt64.toNat_ofNat', Nat.mod_eq_of_lt hSum]
  exact ⟨_, by rw [planFound, hAdd, ok_bind]; rfl⟩

/-- Planning fails only where the search leaves 64 bits. -/
theorem planEvent_cases (hView : view.Invariant lower c.profile)
    (hEnds : c.setting.usesTrustMap = true → event.destination.key lower ∈ view.nodeKeys ∧
      event.source.key lower ∈ view.nodeKeys) :
    (∃ result, c.planEvent lower event view estimate = .ok result) ∨
      (c.planEvent lower event view estimate = .error .costOverflow ∧
        c.setting.usesTrustMap = true ∧ c.profile.trustRootUpdateCost < estimate.cost ∧
        view.Overflowing (searchBounds lower c.profile
          (estimate.cost - c.profile.trustRootUpdateCost) (event.source.key lower).chain
          (event.source.key lower).height) (event.destination.key lower)) := by
  cases hUses : c.setting.usesTrustMap with
  | false =>
      refine .inl ⟨c.directDecision event estimate, ?_⟩
      rw [planEvent, hUses]
      rfl
  | true =>
      obtain ⟨hStart, hGoal⟩ := hEnds hUses
      rcases le_or_gt estimate.cost c.profile.trustRootUpdateCost with hCost | hCost
      · exact .inl ⟨_, planEvent_of_le hUses hCost⟩
      · rw [planEvent_of_lt hUses hCost]
        by_cases hSame : event.destination.key lower = event.source.key lower
        · rw [search_self hSame, ok_bind]
          exact .inl (planFound_ok hCost (by rw [UInt64.toNat_zero]; exact Nat.zero_le _))
        · obtain ⟨path, hResult, hShortest⟩ | ⟨hResult, -⟩ | ⟨hResult, hOver⟩ :=
            shortestPath_cases hStart hGoal hView hSame
              (show c.search lower event view estimate.cost = _ from rfl) rfl
          · rw [hResult, ok_bind]
            refine .inl (planFound_ok hCost ?_)
            rw [hShortest.cost]
            exact hShortest.allowed.weight
          · rw [hResult, ok_bind]
            exact .inl ⟨_, rfl⟩
          · rw [hResult]
            exact .inr ⟨rfl, rfl, hCost, hOver⟩

end Search

/-! ## Whole runs -/

section Runs

variable {lower : Lowercase} {profile : CostProfile} {trace : PreparedTrace lower}
  {c c' : ReplayCoordinator} {event : ReplayEvent} {view final : ReplayTrustView}

/-- The weights that edges between blocks of the trace can have. -/
def EdgeWeight (profile : CostProfile) (trace : PreparedTrace lower) (weight : ℕ) : Prop :=
  weight = profile.pathStepCost.toNat ∨
    ∃ chain low high, Seen trace chain low ∧ Seen trace chain high ∧
      (weight = (high.toNat - low.toNat) * profile.directStepCost.toNat ∨
        weight = (high.toNat - low.toNat) * profile.pathStepCost.toNat)

/-- The cost of verifying an event directly from any height of its source chain, less the update of
the trust root, leaves room for the weight of any edge. -/
def SearchesFit (profile : CostProfile) (trace : PreparedTrace lower) : Prop :=
  ∀ event ∈ trace.events, ∀ baseline weight, Seen trace event.source.chain baseline →
    EdgeWeight profile trace weight →
      (event.source.originalHeight.toNat - baseline.toNat) * profile.directStepCost.toNat +
        (baseline.toNat - event.source.originalHeight.toNat) * profile.pathStepCost.toNat +
        weight < 2 ^ 64 + profile.trustRootUpdateCost.toNat

/-- An edge between blocks of the trace has such a weight. -/
theorem edgeWeight_of_mem (hView : view.Invariant lower profile)
    (hNodes : NodesSeen (Seen trace) view) {row : AdjacencyRow} (hRow : row ∈ view.adjacency.rows) :
    EdgeWeight profile trace row.edge.weight.toNat := by
  obtain ⟨hFrom, hTo⟩ := hView.joined row hRow
  have hPriced := hView.priced row hRow
  unfold Priced at hPriced
  split at hPriced
  · exact .inl (congrArg UInt64.toNat hPriced)
  · obtain ⟨hChain, -, hWeight⟩ := hPriced
    exact .inr ⟨_, _, _, hNodes _ hFrom, hChain ▸ hNodes _ hTo, .inl hWeight⟩
  · obtain ⟨hChain, -, hWeight⟩ := hPriced
    exact .inr ⟨_, _, _, hChain ▸ hNodes _ hTo, hNodes _ hFrom, .inr hWeight⟩

/-- A coordinator within a run over a trace, after a number of events. -/
structure InTrace (trace : PreparedTrace lower) (profile : CostProfile) (done : ℕ)
    (c : ReplayCoordinator) : Prop where
  invariant : c.Invariant lower
  profile : c.profile = profile
  nodes : NodesSeen (Seen trace) c.view
  counted : c.view.crossEdgesAdded.toNat ≤ done
  baselines : ∀ event ∈ trace.events, Seen trace event.source.chain (c.baseline lower event)

theorem seen_key {block : ReplayBlock} (hEvent : event ∈ trace.events) (hBlock : block ∈ event.blocks) :
    (block.key lower).chain ≠ "" ∧
      Seen trace (block.key lower).chain (block.key lower).height := by
  obtain ⟨hCanonical, hNonempty⟩ := trace.canonical event hEvent block hBlock
  rw [ReplayBlock.key, hCanonical]
  exact ⟨hNonempty, seen_block hEvent hBlock⟩

/-- Both blocks of an event can be activated. -/
theorem activate_both (hSpans : Spans profile (Seen trace)) (hView : view.Invariant lower profile)
    (hNodes : NodesSeen (Seen trace) view) (hEvent : event ∈ trace.events) :
    ∃ first second, view.activate lower event.destination = .ok first ∧
      first.activate lower event.source = .ok second ∧ NodesSeen (Seen trace) second ∧
      second.crossEdgesAdded = view.crossEdgesAdded := by
  obtain ⟨hChain, hSeen⟩ := @seen_key lower trace event event.destination hEvent
    (by simp [ReplayEvent.blocks])
  obtain ⟨hChain', hSeen'⟩ := @seen_key lower trace event event.source hEvent
    (by simp [ReplayEvent.blocks])
  obtain ⟨first, hFirst, hNodes, hCount⟩ := hSpans.activate_ok hView hNodes hChain hSeen
  obtain ⟨second, hSecond, hNodes', hCount'⟩ :=
    hSpans.activate_ok (hView.activate hFirst).1 hNodes hChain' hSeen'
  exact ⟨first, second, hFirst, hSecond, hNodes', hCount'.trans hCount⟩

theorem InTrace.activateEnds (hSpans : Spans profile (Seen trace)) {done : ℕ}
    (h : InTrace trace profile done c) (hEvent : event ∈ trace.events) :
    ∃ view, c.activateEnds lower event = .ok view ∧ NodesSeen (Seen trace) view ∧
      view.crossEdgesAdded = c.view.crossEdgesAdded := by
  unfold ReplayCoordinator.activateEnds
  split
  · obtain ⟨first, second, hFirst, hSecond, hSeen⟩ :=
      activate_both hSpans (h.profile ▸ h.invariant.view) h.nodes hEvent
    exact ⟨second, by rw [hFirst, ok_bind, hSecond], hSeen⟩
  · exact ⟨c.view, rfl, h.nodes, rfl⟩

/-- Adding an event succeeds as long as the counter has room. -/
theorem addEvent_ok (hSpans : Spans profile (Seen trace)) {done : ℕ}
    (hView : view.Invariant lower profile) (hNodes : NodesSeen (Seen trace) view)
    (hCount : view.crossEdgesAdded.toNat ≤ done) (hDone : done < 2 ^ 63)
    (hEvent : event ∈ trace.events) :
    ∃ final, c.addEvent lower event view = .ok final ∧ NodesSeen (Seen trace) final ∧
      final.crossEdgesAdded.toNat ≤ done + 1 := by
  unfold ReplayCoordinator.addEvent
  split
  · obtain ⟨first, second, hFirst, hSecond, hNodes', hSame⟩ :=
      activate_both hSpans hView hNodes hEvent
    rw [← hSame] at hCount
    have hRoom : second.crossEdgesAdded ≠ maxUint64 := by
      intro hFull
      have hMax : maxUint64.toNat = 2 ^ 64 - 1 := rfl
      rw [hFull, hMax] at hCount
      omega
    refine ⟨_, addVerifiedDependency_eq_ok.mpr ⟨first, second, hFirst, hSecond, hRoom, rfl⟩, hNodes', ?_⟩
    show (second.crossEdgesAdded + 1).toNat ≤ done + 1
    rw [UInt64.toNat_add, UInt64.toNat_one]
    exact (Nat.mod_le _ _).trans (Nat.succ_le_succ hCount)
  · exact ⟨view, rfl, hNodes, Nat.le_succ_of_le hCount⟩

/-- The baselines stay heights of the trace. -/
theorem InTrace.baselines_advanced {done : ℕ} (h : InTrace trace profile done c)
    (hEvent : event ∈ trace.events) :
    ∀ other ∈ trace.events, Seen trace other.source.chain
      ((c.advanced lower event final).baseline lower other) := by
  intro other hOther
  rw [baseline, value_advanced]
  split
  · rename_i hPair
    have hSource : ∀ event : ReplayEvent, event.source ∈ event.blocks := fun _ => List.mem_cons_self
    have hChain := (Prod.mk.inj hPair).2
    rw [(trace.canonical event hEvent _ (hSource event)).1,
      (trace.canonical other hOther _ (hSource other)).1] at hChain
    rcases max_choice (c.baselines.value lower other.destination.chain other.source.chain)
      event.source.originalHeight with hMax | hMax
    · rw [hMax]
      exact h.baselines other hOther
    · rw [hMax, ← hChain]
      exact seen_block hEvent (hSource event)
  · exact h.baselines other hOther

/-- The cutoff of a search leaves room for every edge. -/
theorem not_overflowing_of_fit (hFit : SearchesFit profile trace)
    (hView : view.Invariant lower profile) (hNodes : NodesSeen (Seen trace) view)
    (hEvent : event ∈ trace.events) {baseline : UInt64} {period : Option UInt64}
    {estimate : ReplayDirectEstimate} (hBaseline : Seen trace event.source.chain baseline)
    (hEstimate : estimateFrom profile period baseline event.source.originalHeight = .ok estimate)
    (hCost : profile.trustRootUpdateCost < estimate.cost) {bounds : SearchBounds}
    (hCutoff : bounds.cutoff = estimate.cost - profile.trustRootUpdateCost)
    {start : ReplayBlockKey} : ¬ view.Overflowing bounds start := by
  rintro ⟨_, _, _, hAllowed, row, hRow, -, hOver⟩
  have hSum := hFit event hEvent baseline _ hBaseline (edgeWeight_of_mem hView hNodes hRow)
  have hWeight := hAllowed.weight
  rw [hCutoff, UInt64.toNat_sub_of_le _ _ (le_of_lt hCost)] at hWeight
  have hUpdate := UInt64.lt_iff_toNat_lt.mp hCost
  have hDirect : estimate.cost.toNat ≤
      (event.source.originalHeight.toNat - baseline.toNat) * profile.directStepCost.toNat +
        (baseline.toNat - event.source.originalHeight.toNat) * profile.pathStepCost.toNat := by
    rcases estimateFrom_eq_ok hEstimate with ⟨hUp, hEq⟩ | ⟨-, hEq⟩
    · rw [hEq]
      refine le_trans (Nat.mul_le_mul_right _ ?_) (Nat.le_add_right _ _)
      have := UInt64.le_iff_toNat_le.mp (@checkpointStart_directStart period _ _ hUp).1
      omega
    · rw [hEq]
      exact Nat.le_add_left _ _
  omega

/-- An event of the trace is processed, or its search leaves 64 bits. -/
theorem InTrace.process_cases (hSpans : Spans profile (Seen trace)) {done : ℕ}
    (h : InTrace trace profile done c) (hDone : done < 2 ^ 63) (hEvent : event ∈ trace.events) :
    (∃ decision next, c.process lower event = .ok (decision, next) ∧
        next.setting = c.setting ∧ InTrace trace profile (done + 1) next) ∨
      (c.process lower event = .error .costOverflow ∧ c.setting.usesTrustMap = true ∧
        ¬ SearchesFit profile trace) := by
  obtain ⟨view, hView, hNodes, hSame⟩ := h.activateEnds hSpans hEvent
  obtain ⟨hInvariant, -, hEnds⟩ := h.invariant.activateEnds hView
  have hBaseline := h.baselines event hEvent
  obtain ⟨estimate, hEstimate⟩ := hSpans.estimateFrom_ok hBaseline
    (seen_block hEvent (by simp [ReplayEvent.blocks])) (c.period lower event)
  obtain ⟨final, hFinal, hNodes', hCount⟩ := @addEvent_ok lower profile trace c event view hSpans done
    (h.profile ▸ hInvariant) hNodes (hSame ▸ h.counted) hDone hEvent
  obtain rfl := h.profile
  rcases @planEvent_cases lower c event view estimate hInvariant hEnds with
    ⟨result, hPlan⟩ | ⟨hPlan, hUses, hCost, hOver⟩
  · have hProcess := process_eq_ok.mpr
      ⟨view, estimate, result, final, hView, hEstimate, hPlan, hFinal, rfl, rfl⟩
    exact .inl ⟨_, _, hProcess, rfl, h.invariant.process hProcess, rfl, hNodes', hCount,
      h.baselines_advanced hEvent⟩
  · refine .inr ⟨?_, hUses, fun hFit =>
      not_overflowing_of_fit hFit hInvariant hNodes hEvent hBaseline hEstimate hCost rfl hOver⟩
    rw [process, hView, ok_bind, estimate_eq, ← baseline, hEstimate]
    show c.planEvent lower event view estimate >>= _ = _
    rw [hPlan]
    rfl

/-- The same for the events still to come. -/
theorem InTrace.processAll_cases (hSpans : Spans profile (Seen trace)) {events : List ReplayEvent}
    {done : ℕ} (h : InTrace trace profile done c) (hDone : done + events.length ≤ 2 ^ 63)
    (hEvents : ∀ event ∈ events, event ∈ trace.events) :
    (∃ result, c.processAll lower events = .ok result) ∨
      (c.processAll lower events = .error .costOverflow ∧ c.setting.usesTrustMap = true ∧
        ¬ SearchesFit profile trace) := by
  induction events generalizing c done with
  | nil => exact .inl ⟨_, rfl⟩
  | cons event events ih =>
      rw [List.forall_mem_cons] at hEvents
      rw [List.length_cons] at hDone
      rw [processAll]
      rcases h.process_cases hSpans (by omega) hEvents.1 with
        ⟨decision, next, hProcess, hSetting, hNext⟩ | ⟨hProcess, hUses, hFit⟩
      · rw [hProcess, ok_bind]
        dsimp only
        rcases ih hNext (by omega) hEvents.2 with ⟨result, hRest⟩ | ⟨hRest, hUses, hFit⟩
        · exact .inl ⟨_, by rw [hRest]; rfl⟩
        · exact .inr ⟨by rw [hRest]; rfl, hSetting ▸ hUses, hFit⟩
      · exact .inr ⟨by rw [hProcess]; rfl, hUses, hFit⟩

/-- A new coordinator is within the run. -/
theorem inTrace_new (hProfile : profile.validate = .ok ()) (setting : Setting)
    (policy : CheckpointPolicy) :
    ∃ c, new lower setting trace.initHeights.rows profile policy = .ok c ∧ c.setting = setting ∧
      InTrace trace profile 0 c := by
  have hView : ∃ view, ReplayTrustView.new profile = .ok view ∧ view.nodeKeys = [] ∧
      view.crossEdgesAdded = 0 := by
    rw [ReplayTrustView.new, hProfile]
    exact ⟨_, rfl, rfl, rfl⟩
  obtain ⟨view, hView, hEmpty, hZero⟩ := hView
  have hNew : new lower setting trace.initHeights.rows profile policy =
      .ok ⟨setting, profile, policy, view, .new lower trace.initHeights.rows⟩ := by
    rw [new, hView]
    rfl
  refine ⟨_, hNew, rfl, new_invariant hNew, rfl, fun key hMem => ?_, ?_, fun event hEvent => ?_⟩
  · rw [hEmpty] at hMem
    cases hMem
  · rw [hZero, UInt64.toNat_zero]
  · exact seen_initialHeight hEvent List.mem_cons_self

end Runs

namespace Toy

/-- Steps within a chain cost more than 2 ^ 63 upwards, and every other step 2 ^ 63. -/
def wideProfile : CostProfile := ⟨"wide", 0xc000000000000000, 0x8000000000000000, 1⟩

/-- The last event could only be reached by a way that costs 2 ^ 64. -/
def wideEvents : List ReplayEvent :=
  [⟨"e0", 1, 0, ⟨"t", 1, 0⟩, ⟨"z", 1, 0⟩, 0, [], 1, 0⟩,
    ⟨"e1", 2, 1, ⟨"c", 1, 0⟩, ⟨"b", 1, 0⟩, 1, [], 1, 0⟩,
    ⟨"e2", 3, 2, ⟨"b", 1, 0⟩, ⟨"a", 1, 0⟩, 2, [], 1, 0⟩,
    ⟨"e3", 4, 3, ⟨"t", 2, 1⟩, ⟨"a", 1, 0⟩, 3, [], 1, 0⟩]

/-- The trace of these events. -/
def wideTrace : PreparedTrace .plain where
  events := wideEvents
  initHeights := initHeightsOf wideEvents
  minimal := rfl
  canonical := by decide +kernel
  short := by decide

/-- A step up costs 10, and every other step 1. -/
def narrowProfile : CostProfile := ⟨"narrow", 10, 1, 2⟩

/-- The last event can be reached over chain z. -/
def narrowEvents : List ReplayEvent :=
  [⟨"e0", 1, 0, ⟨"t", 1, 0⟩, ⟨"z", 1, 0⟩, 0, [], 1, 0⟩,
    ⟨"e1", 2, 1, ⟨"t", 5, 0⟩, ⟨"z", 1, 0⟩, 1, [], 1, 0⟩,
    ⟨"e2", 3, 2, ⟨"z", 1, 0⟩, ⟨"a", 1, 0⟩, 2, [], 1, 0⟩,
    ⟨"e3", 4, 3, ⟨"t", 5, 0⟩, ⟨"a", 1, 0⟩, 3, [], 1, 0⟩]

/-- The trace of these events. -/
def narrowTrace : PreparedTrace .plain where
  events := narrowEvents
  initHeights := initHeightsOf narrowEvents
  minimal := rfl
  canonical := by decide +kernel
  short := by decide

theorem narrow_searchesFit : SearchesFit narrowProfile narrowTrace := by
  have hSmall : ∀ chain height, Seen narrowTrace chain height → height.toNat ≤ 5 := by
    have hAll : ∀ entry ∈ observations narrowTrace, entry.2.toNat ≤ 5 := by decide +kernel
    exact fun chain height hSeen => hAll (chain, height) hSeen
  intro event hEvent baseline weight hBaseline hWeight
  have hHeight := hSmall _ _ (seen_block hEvent (List.mem_cons_self (a := event.source)))
  have hLow := hSmall _ _ hBaseline
  have hCosts : narrowProfile.directStepCost.toNat = 10 ∧ narrowProfile.pathStepCost.toNat = 1 ∧
      narrowProfile.trustRootUpdateCost.toNat = 2 := ⟨rfl, rfl, rfl⟩
  rw [EdgeWeight, hCosts.1, hCosts.2.1] at hWeight
  rw [hCosts.1, hCosts.2.1, hCosts.2.2]
  obtain rfl | ⟨chain, low, high, -, hHigh, rfl | rfl⟩ := hWeight
  · omega
  · have := hSmall _ _ hHigh
    omega
  · have := hSmall _ _ hHigh
    omega

end Toy

/-- A trace that the check accepts, whose last event fails in the search. -/
theorem wide_search_overflows :
    validatePreparedTrace Toy.wideProfile Toy.wideTrace = .ok () ∧
      (processFresh .plain .b2 Toy.wideTrace.initHeights.rows Toy.wideProfile ⟨.empty⟩
        Toy.wideTrace.events).map (·.1) = .error .costOverflow := by
  decide +kernel

/-- After the range check a run can only fail in a search, so never without a TrustMap, and it does not
fail if the costs of the trace leave room for the sums of the search. -/
theorem range_check_suffices {lower : Lowercase} {profile : CostProfile}
    {trace : PreparedTrace lower} (hValid : validatePreparedTrace profile trace = .ok ())
    (setting : Setting) (policy : CheckpointPolicy) :
    let run := processFresh lower setting trace.initHeights.rows profile policy trace.events
    (∀ e, run = .error e → e = .costOverflow ∧ setting.usesTrustMap = true) ∧
      (SearchesFit profile trace → ∃ result, run = .ok result) := by
  intro run
  have hProfile : profile.validate = .ok () := by
    rw [validatePreparedTrace, check_bind_eq_ok] at hValid
    exact hValid.1
  obtain ⟨c, hNew, rfl, hIn⟩ := @inTrace_new lower profile trace hProfile setting policy
  have hRun : run = c.processAll lower trace.events := by
    show processFresh lower c.setting trace.initHeights.rows profile policy trace.events = _
    rw [processFresh, hNew, ok_bind]
  have hShort := trace.short
  rw [hRun]
  rcases hIn.processAll_cases (spans_of_validate hValid) (by omega) (fun _ h => h) with
    ⟨result, hOk⟩ | ⟨hError, hUses, hNot⟩
  · rw [hOk]
    refine ⟨fun e hE => ?_, fun _ => ⟨result, rfl⟩⟩
    cases hE
  · rw [hError]
    exact ⟨fun e hE => ⟨(Except.error.inj hE).symm, hUses⟩, fun hFit => (hNot hFit).elim⟩

/-- The search for the last event finds a path. -/
theorem range_check_suffices_toy :
    validatePreparedTrace Toy.narrowProfile Toy.narrowTrace = .ok () ∧
      SearchesFit Toy.narrowProfile Toy.narrowTrace ∧
      ∃ decisions c, processFresh .plain .b3 Toy.narrowTrace.initHeights.rows Toy.narrowProfile ⟨.empty⟩
        Toy.narrowTrace.events = .ok (decisions, c) ∧
        decisions.map (·.pathFound) = [false, false, false, true] := by
  have hValid : validatePreparedTrace Toy.narrowProfile Toy.narrowTrace = .ok () := by decide +kernel
  have hFit := Toy.narrow_searchesFit
  obtain ⟨⟨decisions, c⟩, hRun⟩ := (range_check_suffices hValid .b3 ⟨.empty⟩).2 hFit
  have hPaths : (processFresh .plain .b3 Toy.narrowTrace.initHeights.rows Toy.narrowProfile ⟨.empty⟩
      Toy.narrowTrace.events).map (·.1.map (·.pathFound)) = .ok [false, false, false, true] := by
    decide +kernel
  rw [hRun] at hPaths
  exact ⟨hValid, hFit, decisions, c, hRun, Except.ok.inj hPaths⟩

end ReplayCoordinator

end TrustMap.Mapnode.Replay
