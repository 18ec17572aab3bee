import TrustMap.Mapnode.Replay.GraphShape
import TrustMap.Mapnode.Replay.PreparedTrace

/-!
How long the edges of processed events stay in the graph. The edge of an event shares its place in
`adjacency` with the edges between blocks of one chain. An activation between two neighbours removes
what stands in their places, whatever its kind, so that the edge of an event within a chain is lost
when a first block comes between its ends; all other edges stay.
-/

namespace TrustMap.Mapnode.Replay

open Checks ReplayTrustView

namespace ReplayTrustView

/-- A block strictly between two others of its chain. -/
def Between (a b key : ReplayBlockKey) : Prop :=
  a.chain = key.chain ∧ b.chain = key.chain ∧
    ((a.height < key.height ∧ key.height < b.height) ∨
      (b.height < key.height ∧ key.height < a.height))

instance (a b key : ReplayBlockKey) : Decidable (Between a b key) := by
  unfold Between
  infer_instance

theorem not_between_left (a b : ReplayBlockKey) : ¬ Between a b a := by
  rintro ⟨-, -, ⟨hLt, -⟩ | ⟨-, hLt⟩⟩ <;> exact lt_irrefl _ hLt

theorem not_between_right (a b : ReplayBlockKey) : ¬ Between a b b := by
  rintro ⟨-, -, ⟨-, hLt⟩ | ⟨hLt, -⟩⟩ <;> exact lt_irrefl _ hLt

section Activation

variable {lower : Lowercase} {profile : CostProfile} {view view' : ReplayTrustView}
  {a b key : ReplayBlockKey} {edge : ReplayEdge}

/-- The neighbours of a new key are the ends of an edge exactly if the key comes between them and
no block did before. -/
theorem Entering.detached_iff {predecessor successor : Option UInt64}
    (hEnter : Entering view.nodeKeys.toFinset key predecessor successor)
    (ha : a ∈ view.nodeKeys) (hb : b ∈ view.nodeKeys) :
    (∃ low ∈ predecessor, ∃ high ∈ successor,
        (a, b) = (⟨key.chain, low⟩, ⟨key.chain, high⟩) ∨
          (a, b) = (⟨key.chain, high⟩, ⟨key.chain, low⟩)) ↔
      Between a b key ∧ ∀ node ∈ view.nodeKeys, ¬ Between a b node := by
  have hNode : ∀ height, height ∈ heightsOf view.nodeKeys.toFinset key.chain ↔
      (⟨key.chain, height⟩ : ReplayBlockKey) ∈ view.nodeKeys :=
    fun height => List.mem_toFinset
  constructor
  · rintro ⟨low, hLow, high, hHigh, hEnds⟩
    have hApart := (hEnter.consecutive hLow hHigh).2.2.2
    have hLt := hEnter.low_lt low hLow
    have hGt := hEnter.lt_high high hHigh
    rcases hEnds with hEnds | hEnds <;> obtain ⟨rfl, rfl⟩ := Prod.mk.inj hEnds
    · refine ⟨⟨rfl, rfl, Or.inl ⟨hLt, hGt⟩⟩, ?_⟩
      rintro ⟨chain, height⟩ hMem ⟨rfl, -, hInside | hInside⟩
      · exact hApart height ((hNode height).mpr hMem) hInside
      · exact lt_asymm (hInside.1.trans hInside.2) (hLt.trans hGt)
    · refine ⟨⟨rfl, rfl, Or.inr ⟨hLt, hGt⟩⟩, ?_⟩
      rintro ⟨chain, height⟩ hMem ⟨rfl, -, hInside | hInside⟩
      · exact lt_asymm (hInside.1.trans hInside.2) (hLt.trans hGt)
      · exact hApart height ((hNode height).mpr hMem) hInside
  · rintro ⟨⟨hChainA, hChainB, hInside⟩, hNone⟩
    obtain ⟨chainA, heightA⟩ := a
    obtain ⟨chainB, heightB⟩ := b
    obtain rfl : chainA = key.chain := hChainA
    obtain rfl : chainB = key.chain := hChainB
    rcases hInside with ⟨hLt, hGt⟩ | ⟨hLt, hGt⟩
    · have hConsecutive : Consecutive (heightsOf view.nodeKeys.toFinset key.chain) heightA heightB :=
        ⟨(hNode _).mpr ha, (hNode _).mpr hb, hLt.trans hGt, fun height hMem hBoth =>
          hNone ⟨key.chain, height⟩ ((hNode height).mp hMem) ⟨rfl, rfl, Or.inl hBoth⟩⟩
      exact ⟨heightA, (hEnter.low _).mpr (hConsecutive.low_nearest hLt hGt), heightB,
        (hEnter.high _).mpr (hConsecutive.high_nearest hLt hGt), Or.inl rfl⟩
    · have hConsecutive : Consecutive (heightsOf view.nodeKeys.toFinset key.chain) heightB heightA :=
        ⟨(hNode _).mpr hb, (hNode _).mpr ha, hLt.trans hGt, fun height hMem hBoth =>
          hNone ⟨key.chain, height⟩ ((hNode height).mp hMem) ⟨rfl, rfl, Or.inr hBoth⟩⟩
      exact ⟨heightB, (hEnter.low _).mpr (hConsecutive.low_nearest hLt hGt), heightA,
        (hEnter.high _).mpr (hConsecutive.high_nearest hLt hGt), Or.inr rfl⟩

/-- Which edges between blocks stay when a new key is entered. -/
theorem Invariant.mem_activateKey (h : view.Invariant lower profile)
    (hNew : (view.heights key.chain).contains key.height = false)
    (hActivate : view.activateKey key = .ok view') (ha : a ∈ view.nodeKeys)
    (hb : b ∈ view.nodeKeys) :
    (⟨a, b, edge⟩ : AdjacencyRow) ∈ view'.adjacency.rows ↔
      (⟨a, b, edge⟩ : AdjacencyRow) ∈ view.adjacency.rows ∧
        ¬ (Between a b key ∧ ∀ node ∈ view.nodeKeys, ¬ Between a b node) := by
  have hEnter := h.entering hNew
  simp only [ReplayTrustView.activateKey, bind_eq_ok, pure_eq_ok] at hActivate
  obtain ⟨pending, hPending, rfl⟩ := hActivate
  generalize (view.heights key.chain).neighbours key.height none none = around at *
  obtain ⟨rfl, -, -⟩ := pendingEdges_eq_rows hEnter.low_lt hEnter.lt_high hPending
  have hFresh : key ∉ view.nodeKeys := fun hMem => hEnter.fresh (List.mem_toFinset.mpr hMem)
  have hNewEnds : ∀ row ∈ newRows view.profile key around.1 around.2, row.ends ≠ (a, b) := by
    intro row hRow hEnds
    obtain ⟨rfl, rfl⟩ := Prod.mk.inj hEnds
    rcases Entering.new_ends hRow with hKey | hKey
    · exact hFresh (hKey ▸ ha)
    · exact hFresh (hKey ▸ hb)
  have hKept := @mem_detach ⟨a, b, edge⟩ key.chain (view.insertNode key) around.1 around.2
  rw [mem_foldl_setEdge (newRows_distinct hEnter.low_lt hEnter.lt_high), hKept,
    ← hEnter.detached_iff ha hb]
  constructor
  · rintro (hRow | ⟨⟨hMem, hApart⟩, -⟩)
    · exact absurd rfl (hNewEnds _ hRow)
    · refine ⟨hMem, ?_⟩
      rintro ⟨low, hLow, high, hHigh, hEnds⟩
      exact hEnds.elim (hApart low hLow high hHigh).1 (hApart low hLow high hHigh).2
  · rintro ⟨hMem, hApart⟩
    refine Or.inr ⟨⟨hMem, fun low hLow high hHigh => ⟨fun hEnds => ?_, fun hEnds => ?_⟩⟩, ?_⟩
    · exact hApart ⟨low, hLow, high, hHigh, Or.inl hEnds⟩
    · exact hApart ⟨low, hLow, high, hHigh, Or.inr hEnds⟩
    · intro hEnds
      obtain ⟨row, hRow, hSame⟩ := List.mem_map.mp hEnds
      exact hNewEnds row hRow hSame

theorem Invariant.mem_nodeKeys_activate (h : view.Invariant lower profile) {block : ReplayBlock}
    (hActivate : view.activate lower block = .ok view') {node : ReplayBlockKey} :
    node ∈ view'.nodeKeys ↔ node ∈ view.nodeKeys ∨ node = block.key lower := by
  obtain ⟨-, ⟨hContains, rfl⟩ | ⟨-, hKey⟩⟩ := activate_eq_ok.mp hActivate
  · rw [KeyTree.contains_iff (h.ordered _), ← h.indexed] at hContains
    constructor
    · exact Or.inl
    · rintro (hMem | rfl)
      · exact hMem
      · exact hContains
  · rw [activateKey_nodeKeys hKey, List.mem_append, List.mem_singleton]

/-- Which edges between blocks stay when a block is activated. -/
theorem Invariant.mem_activate (h : view.Invariant lower profile) {block : ReplayBlock}
    (hActivate : view.activate lower block = .ok view') (ha : a ∈ view.nodeKeys)
    (hb : b ∈ view.nodeKeys) :
    (⟨a, b, edge⟩ : AdjacencyRow) ∈ view'.adjacency.rows ↔
      (⟨a, b, edge⟩ : AdjacencyRow) ∈ view.adjacency.rows ∧
        ¬ (Between a b (block.key lower) ∧ ∀ node ∈ view.nodeKeys, ¬ Between a b node) := by
  obtain ⟨-, ⟨hContains, rfl⟩ | ⟨hNew, hKey⟩⟩ := activate_eq_ok.mp hActivate
  · rw [KeyTree.contains_iff (h.ordered _), ← h.indexed] at hContains
    rw [iff_self_and]
    rintro - ⟨hBetween, hNone⟩
    exact hNone _ hContains hBetween
  · exact h.mem_activateKey hNew hKey ha hb

/-- A block that is a node already is not entered again. -/
theorem Invariant.activate_of_mem (h : view.Invariant lower profile) {block : ReplayBlock}
    (hMem : block.key lower ∈ view.nodeKeys) (hActivate : view.activate lower block = .ok view') :
    view' = view := by
  obtain ⟨-, ⟨-, hSame⟩ | ⟨hNew, -⟩⟩ := activate_eq_ok.mp hActivate
  · exact hSame
  · rw [h.indexed, ← KeyTree.contains_iff (h.ordered _), hNew] at hMem
    cases hMem

end Activation

end ReplayTrustView

namespace ReplayCoordinator

variable {lower : Lowercase} {c c' : ReplayCoordinator} {event : ReplayEvent}
  {decision : ReplayDecision}

/-- The edge of a processed event. -/
def dependencyEdge (c : ReplayCoordinator) : ReplayEdge :=
  ⟨.verifiedDependency, c.profile.pathStepCost⟩

section Process

variable (h : c.Invariant lower) (hUses : c.setting.usesTrustMap = true)
  (hProcess : c.process lower event = .ok (decision, c'))

include h hUses hProcess

/-- What `Process` does to the graph: both ends are activated and the edge is set. -/
theorem Invariant.process_view :
    c'.setting = c.setting ∧ c'.profile = c.profile ∧
      ∃ first second, c.view.activate lower event.destination = .ok first ∧
        first.activate lower event.source = .ok second ∧
        c'.view.nodeKeys = second.nodeKeys ∧
        c'.view.adjacency = (second.setEdge ⟨event.destination.key lower, event.source.key lower,
          c.dependencyEdge⟩).adjacency := by
  obtain ⟨view, estimate, result, final, hEnds, -, -, hFinal, -, rfl⟩ := process_eq_ok.mp hProcess
  obtain ⟨hView, -, hActive⟩ := h.activateEnds hEnds
  obtain ⟨hDestination, hSource⟩ := hActive hUses
  rw [ReplayCoordinator.activateEnds, if_pos hUses] at hEnds
  obtain ⟨first, hFirst, hSecond⟩ := bind_eq_ok.mp hEnds
  rw [addEvent, if_pos hUses] at hFinal
  obtain ⟨third, fourth, hThird, hFourth, -, rfl⟩ := addVerifiedDependency_eq_ok.mp hFinal
  obtain rfl := hView.activate_of_mem hDestination hThird
  obtain rfl := hView.activate_of_mem hSource hFourth
  refine ⟨rfl, rfl, first, _, hFirst, hSecond, rfl, ?_⟩
  rw [hView.profile_eq]
  rfl

theorem Invariant.mem_nodeKeys_process {node : ReplayBlockKey} :
    node ∈ c'.view.nodeKeys ↔ node ∈ c.view.nodeKeys ∨ node = event.destination.key lower ∨
      node = event.source.key lower := by
  obtain ⟨-, -, first, second, hFirst, hSecond, hNodes, -⟩ := h.process_view hUses hProcess
  rw [hNodes, ((h.view.activate hFirst).1).mem_nodeKeys_activate hSecond,
    h.view.mem_nodeKeys_activate hFirst, or_assoc]

/-- The edge of an earlier event after another one: it has been set again, or it was there and the new
blocks are not the first ones between its ends. -/
theorem Invariant.mem_process {a b : ReplayBlockKey}
    (ha : a ∈ c.view.nodeKeys) (hb : b ∈ c.view.nodeKeys) :
    (⟨a, b, c.dependencyEdge⟩ : AdjacencyRow) ∈ c'.view.adjacency.rows ↔
      (a = event.destination.key lower ∧ b = event.source.key lower) ∨
        ((⟨a, b, c.dependencyEdge⟩ : AdjacencyRow) ∈ c.view.adjacency.rows ∧
          ¬ ((Between a b (event.destination.key lower) ∨ Between a b (event.source.key lower)) ∧
            ∀ node ∈ c.view.nodeKeys, ¬ Between a b node)) := by
  obtain ⟨-, -, first, second, hFirst, hSecond, -, hRows⟩ := h.process_view hUses hProcess
  obtain ⟨hInvariant, -, hKept⟩ := h.view.activate hFirst
  have hNodes : ∀ node, node ∈ first.nodeKeys ↔
      node ∈ c.view.nodeKeys ∨ node = event.destination.key lower :=
    fun node => h.view.mem_nodeKeys_activate hFirst
  rw [hRows, mem_setEdge, hInvariant.mem_activate hSecond (hKept a ha) (hKept b hb),
    h.view.mem_activate hFirst ha hb]
  simp only [AdjacencyRow.mk.injEq, and_true, AdjacencyRow.ends, ne_eq, Prod.mk.injEq]
  by_cases hSame : a = event.destination.key lower ∧ b = event.source.key lower
  · simp [hSame]
  · simp only [hSame, false_or, not_false_eq_true, and_true, and_assoc]
    refine and_congr_right fun _ => ?_
    constructor
    · rintro ⟨hDestination, hSource⟩ ⟨hEither, hNone⟩
      have hOutside : ¬ Between a b (event.destination.key lower) :=
        fun hBetween => hDestination ⟨hBetween, hNone⟩
      refine hSource ⟨hEither.resolve_left hOutside, fun node hNode => ?_⟩
      rcases (hNodes node).mp hNode with hOld | rfl
      · exact hNone node hOld
      · exact hOutside
    · intro hKeep
      refine ⟨fun hLost => hKeep ⟨Or.inl hLost.1, hLost.2⟩, fun hLost => hKeep ⟨Or.inr hLost.1, ?_⟩⟩
      exact fun node hNode => hLost.2 node ((hNodes node).mpr (Or.inl hNode))

end Process

/-! ## Runs -/

/-- The blocks of some events. -/
def touched (lower : Lowercase) (events : List ReplayEvent) : List ReplayBlockKey :=
  events.flatMap fun event => [event.destination.key lower, event.source.key lower]

theorem touched_append (before after : List ReplayEvent) :
    touched lower (before ++ after) = touched lower before ++ touched lower after :=
  List.flatMap_append

/-- The edges of the events are in the graph. -/
def Remembers (lower : Lowercase) (c : ReplayCoordinator) (events : List ReplayEvent) : Prop :=
  ∀ event ∈ events, c.view.edge (event.destination.key lower) (event.source.key lower) =
    some c.dependencyEdge

/-- A block of a later event comes between the ends of an event only if a block of an earlier event
did already. -/
def Guarded (lower : Lowercase) (events : List ReplayEvent) : Prop :=
  ∀ before event after, events = before ++ event :: after → ∀ key ∈ touched lower after,
    Between (event.destination.key lower) (event.source.key lower) key →
      ∃ earlier ∈ touched lower before,
        Between (event.destination.key lower) (event.source.key lower) earlier

/-- A run from an empty graph. -/
structure Traced (lower : Lowercase) (c : ReplayCoordinator) (events : List ReplayEvent) : Prop where
  invariant : c.Invariant lower
  uses : c.setting.usesTrustMap = true
  nodes : ∀ node, node ∈ c.view.nodeKeys ↔ node ∈ touched lower events

theorem Traced.new {setting : Setting} {initHeights : List (String × UInt64)}
    {profile : CostProfile} {policy : CheckpointPolicy} (hUses : setting.usesTrustMap = true)
    (hNew : ReplayCoordinator.new lower setting initHeights profile policy = .ok c) :
    Traced lower c [] := by
  refine ⟨new_invariant hNew, ?_, ?_⟩
  all_goals
    simp only [ReplayCoordinator.new, ReplayTrustView.new, bind_eq_ok, pure_eq_ok] at hNew
    obtain ⟨view, ⟨-, -, rfl⟩, rfl⟩ := hNew
  · exact hUses
  · simp [touched]

theorem Traced.ends_mem {events : List ReplayEvent} (h : Traced lower c events)
    (hEvent : event ∈ events) : event.destination.key lower ∈ c.view.nodeKeys ∧
      event.source.key lower ∈ c.view.nodeKeys := by
  rw [h.nodes, h.nodes]
  exact ⟨List.mem_flatMap.mpr ⟨event, hEvent, by simp⟩,
    List.mem_flatMap.mpr ⟨event, hEvent, by simp⟩⟩

section TracedProcess

variable {events : List ReplayEvent} (h : Traced lower c events)
  (hProcess : c.process lower event = .ok (decision, c'))

include h hProcess

theorem Traced.process :
    Traced lower c' (events ++ [event]) := by
  refine ⟨h.invariant.process hProcess, ?_, fun node => ?_⟩
  · rw [(h.invariant.process_view h.uses hProcess).1]
    exact h.uses
  · rw [h.invariant.mem_nodeKeys_process h.uses hProcess, h.nodes, touched_append]
    simp [touched]

theorem Traced.dependencyEdge_process :
    c'.dependencyEdge = c.dependencyEdge := by
  rw [dependencyEdge, (h.invariant.process_view h.uses hProcess).2.1]
  rfl

/-- After one more event, an edge that was there has stayed unless the event has brought the first
block between its ends. -/
theorem Traced.edge_process {earlier : ReplayEvent}
    (hEarlier : earlier ∈ events) (hNone : ¬ (earlier.destination.key lower =
      event.destination.key lower ∧ earlier.source.key lower = event.source.key lower)) :
    c'.view.edge (earlier.destination.key lower) (earlier.source.key lower) =
        some c'.dependencyEdge ↔
      c.view.edge (earlier.destination.key lower) (earlier.source.key lower) =
          some c.dependencyEdge ∧
        ¬ ((∃ key ∈ touched lower [event],
            Between (earlier.destination.key lower) (earlier.source.key lower) key) ∧
          ∀ node ∈ touched lower events,
            ¬ Between (earlier.destination.key lower) (earlier.source.key lower) node) := by
  obtain ⟨ha, hb⟩ := h.ends_mem hEarlier
  rw [h.dependencyEdge_process hProcess, edge_eq_some, edge_eq_some,
    h.invariant.mem_process h.uses hProcess ha hb, or_iff_right hNone]
  simp [touched, h.nodes]

theorem Traced.edge_self :
    c'.view.edge (event.destination.key lower) (event.source.key lower) =
      some c'.dependencyEdge := by
  obtain ⟨-, -, first, second, -, -, -, hRows⟩ := h.invariant.process_view h.uses hProcess
  rw [h.dependencyEdge_process hProcess, edge_eq_some, hRows]
  exact mem_setEdge.mpr (Or.inl rfl)

end TracedProcess

theorem Traced.processAll {done events : List ReplayEvent} {decisions : List ReplayDecision}
    (h : Traced lower c done)
    (hProcess : ReplayCoordinator.processAll lower c events = .ok (decisions, c')) :
    Traced lower c' (done ++ events) := by
  induction events generalizing c done decisions with
  | nil =>
      cases hProcess
      simpa using h
  | cons event events ih =>
      obtain ⟨decision, next, rest, hHead, hTail, rfl⟩ := processAll_cons.mp hProcess
      rw [List.append_cons]
      exact ih (h.process hHead) hTail

theorem Guarded.of_append {before after : List ReplayEvent} (h : Guarded lower (before ++ after)) :
    Guarded lower before := by
  intro first event rest hSplit key hKey hBetween
  refine h first event (rest ++ after) (by rw [hSplit]; simp) key ?_ hBetween
  rw [touched_append]
  exact List.mem_append_left _ hKey

/-- Guarded events are all remembered. -/
theorem Traced.remembers {events : List ReplayEvent} {decisions : List ReplayDecision}
    (h : Traced lower c []) (hGuarded : Guarded lower events)
    (hProcess : ReplayCoordinator.processAll lower c events = .ok (decisions, c')) :
    Remembers lower c' events := by
  induction events using List.reverseRecOn generalizing c' decisions with
  | nil => simp [Remembers]
  | append_singleton events event ih =>
      obtain ⟨first, middle, rest, hBefore, hLast, -⟩ := processAll_append.mp hProcess
      obtain ⟨decision, next, _, hEvent, hNil, -⟩ := processAll_cons.mp hLast
      cases hNil
      have hTraced : Traced lower middle events := by simpa using h.processAll hBefore
      have hMiddle := ih hGuarded.of_append hBefore
      intro earlier hEarlier
      rcases List.mem_append.mp hEarlier with hEarlier | hEarlier
      · by_cases hSame : earlier.destination.key lower = event.destination.key lower ∧
            earlier.source.key lower = event.source.key lower
        · rw [hSame.1, hSame.2]
          exact hTraced.edge_self hEvent
        · refine (hTraced.edge_process hEvent hEarlier hSame).mpr ⟨hMiddle earlier hEarlier, ?_⟩
          rintro ⟨⟨key, hKey, hBetween⟩, hNone⟩
          obtain ⟨before, after, rfl⟩ := List.append_of_mem hEarlier
          obtain ⟨guard, hGuard, hInside⟩ := hGuarded before earlier (after ++ [event])
            (by simp) key (by rw [touched_append]; exact List.mem_append_right _ hKey) hBetween
          refine hNone guard ?_ hInside
          rw [touched_append]
          exact List.mem_append_left _ hGuard
      · obtain rfl := List.mem_singleton.mp hEarlier
        exact hTraced.edge_self hEvent

/-- Where everything is remembered all the way, no later event brings the first block between the
ends of an event. -/
theorem Traced.none_between {events before rest middle : List ReplayEvent} {event : ReplayEvent}
    {decisions : List ReplayDecision} (h : Traced lower c [])
    (hRun : ReplayCoordinator.processAll lower c events = .ok (decisions, c'))
    (hAll : ∀ done later decisions last, events = done ++ later →
      ReplayCoordinator.processAll lower c done = .ok (decisions, last) →
      Remembers lower last done)
    (hSplit : events = before ++ event :: (middle ++ rest))
    (hNone : ∀ key ∈ touched lower before ++ touched lower middle,
      ¬ Between (event.destination.key lower) (event.source.key lower) key) :
    ∀ key ∈ touched lower rest,
      ¬ Between (event.destination.key lower) (event.source.key lower) key := by
  induction rest generalizing middle with
  | nil => simp [touched]
  | cons next rest ih =>
      have hNext : ∀ key ∈ touched lower [next],
          ¬ Between (event.destination.key lower) (event.source.key lower) key := by
        have hDone : events = (before ++ event :: middle) ++ (next :: rest) := by simp [hSplit]
        have hMore : events = ((before ++ event :: middle) ++ [next]) ++ rest := by simp [hSplit]
        rw [hMore] at hRun
        obtain ⟨_, last, _, hFirst, -, -⟩ := processAll_append.mp hRun
        obtain ⟨_, last', _, hBefore, hStep, -⟩ := processAll_append.mp hFirst
        obtain ⟨decision, _, _, hEvent, hNil, -⟩ := processAll_cons.mp hStep
        cases hNil
        have hTraced : Traced lower last' (before ++ event :: middle) := by
          simpa using h.processAll hBefore
        have hEarlier : event ∈ before ++ event :: middle := by simp
        have hAfter := hAll _ _ _ _ hMore hFirst event (List.mem_append_left _ hEarlier)
        intro key hKey hBetween
        by_cases hSame : event.destination.key lower = next.destination.key lower ∧
            event.source.key lower = next.source.key lower
        · simp only [touched, List.flatMap_cons, List.flatMap_nil, List.append_nil,
            List.mem_cons, List.not_mem_nil, or_false, ← hSame.1, ← hSame.2] at hKey
          rcases hKey with rfl | rfl
          · exact not_between_left _ _ hBetween
          · exact not_between_right _ _ hBetween
        · refine ((hTraced.edge_process hEvent hEarlier hSame).mp hAfter).2 ⟨⟨key, hKey, hBetween⟩, ?_⟩
          intro node hNode
          have hSplitNode : node ∈ touched lower before ∨ node = event.destination.key lower ∨
              node = event.source.key lower ∨ node ∈ touched lower middle := by
            simpa [touched, or_assoc] using hNode
          rcases hSplitNode with hOld | rfl | rfl | hOld
          · exact hNone node (List.mem_append_left _ hOld)
          · exact not_between_left _ _
          · exact not_between_right _ _
          · exact hNone node (List.mem_append_right _ hOld)
      intro key hKey
      rw [← List.singleton_append, touched_append, List.mem_append] at hKey
      rcases hKey with hKey | hKey
      · exact hNext key hKey
      · refine @ih (middle ++ [next]) (by simp [hSplit]) ?_ key hKey
        intro other hOther
        rw [touched_append, ← List.append_assoc, List.mem_append] at hOther
        rcases hOther with hOther | hOther
        · exact hNone other hOther
        · exact hNext other hOther

namespace DependencyToy

/-- The profile of the toy runs. -/
def profile : CostProfile := ⟨"toy", 10, 1, 2⟩

/-- Height 5 of chain c depends on height 1 of the same chain, and height 1 of chain d on height 3
of chain c. -/
def events : List ReplayEvent :=
  [⟨"e0", 1, 0, ⟨"c", 1, 0⟩, ⟨"c", 5, 4⟩, 0, [], 1, 0⟩,
    ⟨"e1", 2, 1, ⟨"c", 3, 2⟩, ⟨"d", 1, 0⟩, 1, [], 1, 0⟩]

/-- The trace with these events. -/
def trace : PreparedTrace .plain where
  events := events
  initHeights := initHeightsOf events
  minimal := rfl
  canonical := by decide +kernel
  short := by decide

/-- The run of a setting over some events. -/
def run (setting : Setting) (events : List ReplayEvent) :
    Except ReplayError (List ReplayDecision × ReplayCoordinator) := do
  let c ← ReplayCoordinator.new .plain setting [("c", 1), ("d", 1)] profile ⟨.empty⟩
  processAll .plain c events

end DependencyToy

/-- In a run of a setting with the TrustMap the edges of the processed events are in the graph after
every event exactly if no event brings the first block between the ends of an earlier one. -/
theorem dependencies_remembered_iff {setting : Setting} {initHeights : List (String × UInt64)}
    {profile : CostProfile} {policy : CheckpointPolicy} {start last : ReplayCoordinator}
    {events : List ReplayEvent} {decisions : List ReplayDecision}
    (hUses : setting.usesTrustMap = true)
    (hNew : new lower setting initHeights profile policy = .ok start)
    (hRun : processAll lower start events = .ok (decisions, last)) :
    (∀ done later decisions c, events = done ++ later →
        processAll lower start done = .ok (decisions, c) → Remembers lower c done) ↔
      Guarded lower events := by
  have hStart : Traced lower start [] := Traced.new hUses hNew
  constructor
  · intro hAll before event after hSplit key hKey hBetween
    by_contra hNone
    refine @Traced.none_between lower start last events before after [] event decisions hStart hRun hAll
      hSplit ?_ key hKey hBetween
    intro other hOther hInside
    rw [touched, touched, List.flatMap_nil, List.append_nil] at hOther
    exact hNone ⟨other, hOther, hInside⟩
  · intro hGuarded done later decisions' c hSplit hDone
    rw [hSplit] at hGuarded
    exact hStart.remembers hGuarded.of_append hDone

/-- In the other order the events are guarded. -/
theorem dependencies_remembered_toy :
    ∃ start last decisions,
      new .plain .b3 [("c", 1), ("d", 1)] DependencyToy.profile ⟨.empty⟩ = .ok start ∧
      processAll .plain start DependencyToy.events.reverse = .ok (decisions, last) ∧
      Remembers .plain last DependencyToy.events.reverse := by
  have hOk : (DependencyToy.run .b3 DependencyToy.events.reverse).isOk = true := by
    decide +kernel
  obtain ⟨⟨decisions, last⟩, hResult⟩ := exists_ok_of_isOk hOk
  obtain ⟨start, hNew, hRun⟩ := bind_eq_ok.mp hResult
  have hGuarded : Guarded .plain DependencyToy.events.reverse := by
    intro before event after hSplit
    rcases before with _ | ⟨first, before⟩
    · obtain ⟨rfl, rfl⟩ := List.cons.inj hSplit
      decide +kernel
    · have hTail := (List.cons.inj hSplit).2
      rcases before with _ | ⟨second, before⟩
      · obtain rfl : [] = after := (List.cons.inj hTail).2
        simp [touched]
      · have hLength := congrArg List.length (List.cons.inj hTail).2
        simp at hLength
  exact ⟨start, last, decisions, hNew, hRun,
    (dependencies_remembered_iff rfl hNew hRun).mpr hGuarded _ [] _ _ (by simp) hRun⟩

/-- The block at height 3 comes between the ends of the first event, and its edge is gone. -/
theorem dependency_forgotten :
    (∀ setting ∈ [Setting.b2, .b3],
        (DependencyToy.run setting (DependencyToy.trace.events.take 1)).toOption.map
          (fun result => result.2.view.edge ⟨"c", 5⟩ ⟨"c", 1⟩) =
            some (some ⟨.verifiedDependency, DependencyToy.profile.pathStepCost⟩)) ∧
      ∀ setting ∈ [Setting.b2, .b3],
        (DependencyToy.run setting DependencyToy.trace.events).toOption.map
          (fun result => result.2.view.edge ⟨"c", 5⟩ ⟨"c", 1⟩) = some none := by
  decide +kernel

end ReplayCoordinator

end TrustMap.Mapnode.Replay
