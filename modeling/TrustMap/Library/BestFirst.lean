import Mathlib.Data.List.Perm.Basic
import Mathlib.Data.List.Nodup
import Mathlib.Order.Lattice
import Mathlib.Tactic.Common

/-!
Best-first search with stale queue entries, as Dijkstra's algorithm is usually implemented.
A candidate stands for a way to reach its node; longer ways have larger keys, and a smaller key
stays smaller when both are extended by the same edge. The search then finds a candidate for the
goal with the smallest key of all.
-/

universe u v w x

/-- Take an item with the smallest key from a queue. -/
def popLeastBy {α : Type u} {K : Type x} [LinearOrder K] (key : α → K) : List α → Option (α × List α)
  | [] => none
  | item :: queue =>
      match popLeastBy key queue with
      | none => some (item, [])
      | some (least, rest) =>
          if key item ≤ key least then some (item, queue) else some (least, item :: rest)

section Pop

variable {α : Type u} {β : Type v} {K : Type x} [LinearOrder K] {key : α → K} {queue rest : List α}
  {least : α}

theorem popLeastBy_eq_none : popLeastBy key queue = none ↔ queue = [] := by
  cases queue with
  | nil => simp [popLeastBy]
  | cons item queue =>
      rw [popLeastBy]
      split
      · simp
      · split <;> simp

theorem popLeastBy_eq_some (hPop : popLeastBy key queue = some (least, rest)) :
    queue.Perm (least :: rest) ∧ ∀ item ∈ queue, key least ≤ key item := by
  induction queue generalizing least rest with
  | nil => simp [popLeastBy] at hPop
  | cons item queue ih =>
      rw [popLeastBy] at hPop
      split at hPop
      · rename_i hNone
        obtain ⟨rfl, rfl⟩ : item = least ∧ [] = rest := by simpa using hPop
        obtain rfl := popLeastBy_eq_none.mp hNone
        simp
      · rename_i least' rest' hSome
        obtain ⟨hPerm, hLeast⟩ := ih hSome
        split at hPop
        · rename_i hFirst
          obtain ⟨rfl, rfl⟩ : item = least ∧ queue = rest := by simpa using hPop
          refine ⟨List.Perm.refl _, fun other hMem => ?_⟩
          rcases List.mem_cons.mp hMem with rfl | hMem
          · exact le_refl _
          · exact le_trans hFirst (hLeast other hMem)
        · rename_i hLater
          obtain ⟨rfl, rfl⟩ : least' = least ∧ item :: rest' = rest := by simpa using hPop
          refine ⟨(hPerm.cons item).trans (List.Perm.swap _ _ _), fun other hMem => ?_⟩
          rcases List.mem_cons.mp hMem with rfl | hMem
          · exact le_of_lt (not_le.mp hLater)
          · exact hLeast other hMem

/-- Items that are represented with their keys are taken alike. -/
theorem popLeastBy_map {key' : β → K} {f : α → β} (hKey : ∀ item, key' (f item) = key item)
    (queue : List α) :
    popLeastBy key' (queue.map f) =
      (popLeastBy key queue).map fun popped => (f popped.1, popped.2.map f) := by
  induction queue with
  | nil => rfl
  | cons item queue ih =>
      rw [List.map_cons, popLeastBy, popLeastBy, ih]
      cases popLeastBy key queue with
      | none => rfl
      | some popped =>
          simp only [Option.map_some, hKey]
          split <;> rfl

end Pop

/-- A search problem. Extending a candidate by an edge may fail, for example by overflow. -/
structure BestFirst (N : Type u) (E : Type v) (C : Type w) (K : Type x) where
  adjacency : N → List E
  node : C → N
  key : C → K
  extend : C → E → Option C

namespace BestFirst

variable {N : Type u} {E : Type v} {C : Type w} {K : Type x}

/-- The candidates that can be reached from a first one. -/
inductive Reached (p : BestFirst N E C K) (start : C) : C → Prop
  | start : Reached p start start
  | step {c d : C} {e : E} (hReached : Reached p start c) (hEdge : e ∈ p.adjacency (p.node c))
      (hExtend : p.extend c e = some d) : Reached p start d

variable [LinearOrder K]

/-- What makes the search correct. -/
structure Lawful (p : BestFirst N E C K) : Prop where
  node_of_key : ∀ {c d}, p.key c = p.key d → p.node c = p.node d
  node_extend : ∀ {c d c' d' e}, p.extend c e = some c' → p.extend d e = some d' →
    p.node c' = p.node d'
  extend_lt : ∀ {c d e}, p.extend c e = some d → p.key c < p.key d
  extend_mono : ∀ {c d d' e}, p.key c ≤ p.key d → p.extend d e = some d' →
    ∃ c', p.extend c e = some c' ∧ p.key c' ≤ p.key d'

/-- The queue, the best candidate found for each node, and whether an extension has failed. -/
structure State (N : Type u) (C : Type w) where
  queue : List C
  best : N → Option C
  overflowed : Bool

variable {current : C}

section Search

variable [DecidableEq N]

/-- Put a candidate into the queue as the best of its node. -/
def State.push (p : BestFirst N E C K) (s : State N C) (next : C) : State N C where
  queue := next :: s.queue
  best := Function.update s.best (p.node next) (some next)
  overflowed := s.overflowed

omit [LinearOrder K] in
theorem State.push_best (p : BestFirst N E C K) (s : State N C) (next : C) (n : N) :
    (s.push p next).best n = if n = p.node next then some next else s.best n :=
  Function.update_apply ..

/-- Extend the current candidate by an edge and keep the result if it is better than what is known
for its node. -/
def relax (p : BestFirst N E C K) (current : C) (s : State N C) (e : E) : State N C :=
  match p.extend current e with
  | none => { s with overflowed := true }
  | some next =>
      match s.best (p.node next) with
      | none => s.push p next
      | some known => if p.key next < p.key known then s.push p next else s

theorem relax_of_better {p : BestFirst N E C K} {next : C} {s : State N C} {e : E}
    (hExtend : p.extend current e = some next)
    (hBetter : ∀ known, s.best (p.node next) = some known → p.key next < p.key known) :
    p.relax current s e = s.push p next := by
  rw [relax, hExtend]
  dsimp only
  split
  · rfl
  · rename_i known hBest
    exact if_pos (hBetter known hBest)

theorem relax_of_worse {p : BestFirst N E C K} {next known : C} {s : State N C} {e : E}
    (hExtend : p.extend current e = some next) (hBest : s.best (p.node next) = some known)
    (hWorse : ¬ p.key next < p.key known) : p.relax current s e = s := by
  rw [relax, hExtend]
  dsimp only
  rw [hBest]
  exact if_neg hWorse

/-- How a search ends. -/
inductive Outcome (C : Type w)
  | found (candidate : C)
  | exhausted (overflowed : Bool)
  deriving DecidableEq

/-- The search for a goal, with a bound on the number of candidates it takes from the queue.
A candidate that is no longer the best of its node is skipped. -/
def run (p : BestFirst N E C K) (goal : N) : ℕ → State N C → Option (Outcome C)
  | 0, _ => none
  | fuel + 1, s =>
      match popLeastBy p.key s.queue with
      | none => some (.exhausted s.overflowed)
      | some (current, rest) =>
          if (s.best (p.node current)).map p.key = some (p.key current) then
            if p.node current = goal then some (.found current)
            else p.run goal fuel
              ((p.adjacency (p.node current)).foldl (p.relax current) { s with queue := rest })
          else p.run goal fuel { s with queue := rest }

/-- The state before the search. -/
def State.init (p : BestFirst N E C K) (start : C) : State N C where
  queue := [start]
  best := Function.update (fun _ => none) (p.node start) (some start)
  overflowed := false

end Search

/-! ## Correctness -/

/-- Some candidate known for the node has at most the given key. -/
def State.Covers (p : BestFirst N E C K) (s : State N C) (n : N) (k : K) : Prop :=
  ∃ c, s.best n = some c ∧ p.key c ≤ k

/-- What holds in every state of the search, with the nodes whose best candidate has been taken from
the queue: their candidate is the best of all, and all others are in the queue. -/
structure Invariant (p : BestFirst N E C K) (start : C) (settled : List N) (s : State N C) :
    Prop where
  reached : ∀ c ∈ s.queue, p.Reached start c
  best_reached : ∀ n c, s.best n = some c → p.Reached start c ∧ p.node c = n
  queue_covered : ∀ c ∈ s.queue, s.Covers p (p.node c) (p.key c)
  start_covered : s.Covers p (p.node start) (p.key start)
  pending : ∀ n c, s.best n = some c → n ∉ settled → c ∈ s.queue
  optimal : ∀ n ∈ settled, ∃ c, s.best n = some c ∧
    ∀ d, p.Reached start d → p.node d = n → p.key c ≤ p.key d
  stale : ∀ c ∈ s.queue, p.node c ∈ settled →
    ∃ known, s.best (p.node c) = some known ∧ p.key known < p.key c
  distinct : (s.queue.map p.key).Nodup

/-- Every extension of the best candidates of the settled nodes is covered. -/
def Relaxed (p : BestFirst N E C K) (settled : List N) (s : State N C) : Prop :=
  ∀ n ∈ settled, ∀ c, s.best n = some c → ∀ e ∈ p.adjacency n, ∀ d, p.extend c e = some d →
    s.Covers p (p.node d) (p.key d)

variable {p : BestFirst N E C K} {start : C} {settled : List N} {s : State N C} {goal : N}

/-- Whatever can be reached is bounded from below by the queue or by a settled node. -/
theorem frontier (hLawful : p.Lawful) (h : p.Invariant start settled s) (hRelaxed : p.Relaxed settled s)
    {d : C} (hReached : p.Reached start d) :
    (∃ c ∈ s.queue, p.key c ≤ p.key d) ∨ (p.node d ∈ settled ∧ s.Covers p (p.node d) (p.key d)) := by
  have hCovered : ∀ n k, s.Covers p n k →
      (∃ c ∈ s.queue, p.key c ≤ k) ∨ (n ∈ settled ∧ s.Covers p n k) := by
    intro n k hCovers
    by_cases hSettled : n ∈ settled
    · exact Or.inr ⟨hSettled, hCovers⟩
    · obtain ⟨c, hBest, hKey⟩ := hCovers
      exact Or.inl ⟨c, h.pending n c hBest hSettled, hKey⟩
  induction hReached with
  | start => exact hCovered _ _ h.start_covered
  | @step c d e _ hEdge hExtend ih =>
      rcases ih with ⟨q, hMem, hKey⟩ | ⟨hSettled, known, hBest, hKey⟩
      · exact Or.inl ⟨q, hMem, le_of_lt (lt_of_le_of_lt hKey (hLawful.extend_lt hExtend))⟩
      · obtain ⟨d', hExtend', hKey'⟩ := hLawful.extend_mono hKey hExtend
        obtain ⟨k, hBest', hLe⟩ := hRelaxed _ hSettled known hBest e hEdge d' hExtend'
        rw [hLawful.node_extend hExtend' hExtend] at hBest'
        exact hCovered _ _ ⟨k, hBest', le_trans hLe hKey'⟩

/-- A candidate with the smallest key of the queue that is the best of its node is the best of all,
and its node is settled by taking it. -/
theorem Invariant.settle (hLawful : p.Lawful) (h : p.Invariant start settled s)
    (hRelaxed : p.Relaxed settled s) {rest : List C}
    (hPop : popLeastBy p.key s.queue = some (current, rest))
    (hFresh : (s.best (p.node current)).map p.key = some (p.key current)) :
    p.node current ∉ settled ∧
      (∀ d, p.Reached start d → p.node d = p.node current → p.key current ≤ p.key d) ∧
      p.Invariant start (p.node current :: settled) { s with queue := rest } := by
  obtain ⟨hPerm, hLeast⟩ := popLeastBy_eq_some hPop
  obtain ⟨known, hBest, hKnown⟩ := Option.map_eq_some_iff.mp hFresh
  have hCurrent : current ∈ s.queue := hPerm.mem_iff.mpr List.mem_cons_self
  have hRest : ∀ c ∈ rest, c ∈ s.queue := fun c hMem =>
    hPerm.mem_iff.mpr (List.mem_cons_of_mem current hMem)
  have hDistinct : ((current :: rest).map p.key).Nodup := (hPerm.map p.key).nodup_iff.mp h.distinct
  rw [List.map_cons, List.nodup_cons] at hDistinct
  have hNew : p.node current ∉ settled := by
    intro hSettled
    obtain ⟨known', hBest', hLt⟩ := h.stale current hCurrent hSettled
    obtain rfl : known = known' := Option.some.inj (hBest.symm.trans hBest')
    exact absurd hKnown (ne_of_lt hLt)
  have hOptimal : ∀ d, p.Reached start d → p.node d = p.node current → p.key current ≤ p.key d := by
    intro d hReached hNode
    rcases frontier hLawful h hRelaxed hReached with ⟨c, hMem, hKey⟩ | ⟨hSettled, -⟩
    · exact le_trans (hLeast c hMem) hKey
    · exact absurd (hNode ▸ hSettled) hNew
  refine ⟨hNew, hOptimal, fun c hMem => h.reached c (hRest c hMem), h.best_reached,
    fun c hMem => h.queue_covered c (hRest c hMem), h.start_covered, ?_, ?_, ?_, hDistinct.2⟩
  · intro n c hBestN hOpen
    rw [List.mem_cons, not_or] at hOpen
    have hMem := hPerm.mem_iff.mp (h.pending n c hBestN hOpen.2)
    rcases List.mem_cons.mp hMem with rfl | hMem
    · exact absurd (h.best_reached n c hBestN).2.symm hOpen.1
    · exact hMem
  · intro n hMem
    rcases List.mem_cons.mp hMem with rfl | hMem
    · refine ⟨known, hBest, fun d hReached hNode => ?_⟩
      rw [hKnown]
      exact hOptimal d hReached hNode
    · exact h.optimal n hMem
  · intro c hMem hSettled
    rcases List.mem_cons.mp hSettled with hNode | hSettled
    · -- another entry for the same node is worse, as keys in the queue are distinct
      refine ⟨known, hNode ▸ hBest, ?_⟩
      obtain ⟨known', hBest', hLe⟩ := h.queue_covered c (hRest c hMem)
      rw [hNode, hBest] at hBest'
      obtain rfl := Option.some.inj hBest'
      refine lt_of_le_of_ne hLe fun hEq => hDistinct.1 ?_
      rw [← hKnown, hEq]
      exact List.mem_map_of_mem hMem
    · exact h.stale c (hRest c hMem) hSettled

/-- How the search goes on from a state: it knows at least as much, and what is settled stays. -/
structure Onward (p : BestFirst N E C K) (settled : List N) (s s' : State N C) : Prop where
  settled_best : ∀ n ∈ settled, s'.best n = s.best n
  covers : ∀ n k, s.Covers p n k → s'.Covers p n k

theorem Onward.refl : p.Onward settled s s :=
  ⟨fun _ _ => rfl, fun _ _ h => h⟩

theorem Onward.trans {s' s'' : State N C} (h : p.Onward settled s s')
    (h' : p.Onward settled s' s'') : p.Onward settled s s'' :=
  ⟨fun n hMem => (h'.settled_best n hMem).trans (h.settled_best n hMem),
    fun n k hCovers => h'.covers n k (h.covers n k hCovers)⟩

/-- A candidate that is not the best of its node may be dropped. -/
theorem Invariant.skip (h : p.Invariant start settled s) {rest : List C}
    (hPop : popLeastBy p.key s.queue = some (current, rest))
    (hStale : (s.best (p.node current)).map p.key ≠ some (p.key current)) :
    p.Invariant start settled { s with queue := rest } := by
  obtain ⟨hPerm, -⟩ := popLeastBy_eq_some hPop
  have hRest : ∀ c ∈ rest, c ∈ s.queue := fun c hMem =>
    hPerm.mem_iff.mpr (List.mem_cons_of_mem current hMem)
  have hDistinct := (hPerm.map p.key).nodup_iff.mp h.distinct
  refine ⟨fun c hMem => h.reached c (hRest c hMem), h.best_reached,
    fun c hMem => h.queue_covered c (hRest c hMem), h.start_covered, ?_, h.optimal,
    fun c hMem => h.stale c (hRest c hMem), (List.nodup_cons.mp hDistinct).2⟩
  intro n c hBest hOpen
  rcases List.mem_cons.mp (hPerm.mem_iff.mp (h.pending n c hBest hOpen)) with rfl | hMem
  · refine absurd ?_ hStale
    rw [(h.best_reached n c hBest).2, hBest]
    rfl
  · exact hMem

/-- After the edges of the settled candidate have been looked at, all extensions are covered. -/
theorem Relaxed.expand (hLawful : p.Lawful) (hRelaxed : p.Relaxed settled s) {rest : List C}
    {s' : State N C} (hFresh : (s.best (p.node current)).map p.key = some (p.key current))
    (hOnward : p.Onward (p.node current :: settled) { s with queue := rest } s')
    (hCovers : ∀ e ∈ p.adjacency (p.node current), ∀ d, p.extend current e = some d → s'.Covers p (p.node d) (p.key d)) :
    p.Relaxed (p.node current :: settled) s' := by
  intro n hMem c hBest e hEdge d hExtend
  rw [hOnward.settled_best n hMem] at hBest
  rcases List.mem_cons.mp hMem with rfl | hMem
  · obtain ⟨known, hKnown, hKey⟩ := Option.map_eq_some_iff.mp hFresh
    obtain rfl := Option.some.inj (hKnown.symm.trans hBest)
    obtain ⟨d', hExtend', hLe⟩ := hLawful.extend_mono (le_of_eq hKey.symm) hExtend
    obtain ⟨k, hBest', hKey'⟩ := hCovers e hEdge d' hExtend'
    rw [hLawful.node_extend hExtend' hExtend] at hBest'
    exact ⟨k, hBest', le_trans hKey' hLe⟩
  · exact hOnward.covers _ _ (hRelaxed n hMem c hBest e hEdge d hExtend)

variable [DecidableEq N]

theorem Invariant.push (hLawful : p.Lawful) (h : p.Invariant start settled s) {next : C}
    (hReached : p.Reached start next)
    (hBetter : ∀ known, s.best (p.node next) = some known → p.key next < p.key known) :
    p.Invariant start settled (s.push p next) ∧ p.Onward settled s (s.push p next) := by
  have hOpen : p.node next ∉ settled := by
    intro hSettled
    obtain ⟨known, hBest, hOptimal⟩ := h.optimal _ hSettled
    exact absurd (hOptimal next hReached rfl) (not_le.mpr (hBetter known hBest))
  have hSelf : (s.push p next).best (p.node next) = some next := Function.update_self ..
  have hOther : ∀ n, n ≠ p.node next → (s.push p next).best n = s.best n := fun n hNe =>
    Function.update_of_ne hNe ..
  have hSettledNe : ∀ n ∈ settled, n ≠ p.node next := fun n hMem hEq => hOpen (hEq ▸ hMem)
  have hCovers : ∀ n k, s.Covers p n k → (s.push p next).Covers p n k := by
    rintro n k ⟨c, hBest, hKey⟩
    by_cases hNode : n = p.node next
    · subst hNode
      exact ⟨next, hSelf, le_of_lt (lt_of_lt_of_le (hBetter c hBest) hKey)⟩
    · exact ⟨c, (hOther n hNode).trans hBest, hKey⟩
  refine ⟨⟨?_, ?_, ?_, hCovers _ _ h.start_covered, ?_, ?_, ?_, ?_⟩,
    fun n hMem => hOther n (hSettledNe n hMem), hCovers⟩
  · intro c hMem
    rcases List.mem_cons.mp hMem with rfl | hMem
    · exact hReached
    · exact h.reached c hMem
  · intro n c hBest
    by_cases hNode : n = p.node next
    · subst hNode
      obtain rfl := Option.some.inj (hSelf.symm.trans hBest)
      exact ⟨hReached, rfl⟩
    · exact h.best_reached n c ((hOther n hNode).symm.trans hBest)
  · intro c hMem
    rcases List.mem_cons.mp hMem with rfl | hMem
    · exact ⟨c, hSelf, le_refl _⟩
    · exact hCovers _ _ (h.queue_covered c hMem)
  · intro n c hBest hUnsettled
    by_cases hNode : n = p.node next
    · subst hNode
      obtain rfl := Option.some.inj (hSelf.symm.trans hBest)
      exact List.mem_cons_self
    · exact List.mem_cons_of_mem _ (h.pending n c ((hOther n hNode).symm.trans hBest) hUnsettled)
  · intro n hMem
    rw [hOther n (hSettledNe n hMem)]
    exact h.optimal n hMem
  · intro c hMem hSettled
    rw [hOther _ (hSettledNe _ hSettled)]
    rcases List.mem_cons.mp hMem with rfl | hMem
    · exact absurd hSettled hOpen
    · exact h.stale c hMem hSettled
  · refine List.nodup_cons.mpr ⟨fun hMem => ?_, h.distinct⟩
    obtain ⟨c, hQueue, hKey⟩ := List.mem_map.mp hMem
    obtain ⟨known, hBest, hLe⟩ := h.queue_covered c hQueue
    rw [hLawful.node_of_key hKey] at hBest
    exact absurd (hKey ▸ hLe) (not_le.mpr (hBetter known hBest))

theorem Invariant.relax (hLawful : p.Lawful) (h : p.Invariant start settled s)
    (hReached : p.Reached start current) {e : E} (hEdge : e ∈ p.adjacency (p.node current)) :
    p.Invariant start settled (p.relax current s e) ∧ p.Onward settled s (p.relax current s e) ∧
      (∀ d, p.extend current e = some d → (p.relax current s e).Covers p (p.node d) (p.key d)) ∧
      (p.relax current s e).queue.length ≤ s.queue.length + 1 := by
  unfold BestFirst.relax
  cases hExtend : p.extend current e with
  | none =>
      refine ⟨⟨h.reached, h.best_reached, h.queue_covered, h.start_covered, h.pending, h.optimal,
        h.stale, h.distinct⟩, ⟨fun _ _ => rfl, fun _ _ hCovers => hCovers⟩, by simp, Nat.le_succ _⟩
  | some next =>
      dsimp only
      have hNext : p.Reached start next := .step hReached hEdge hExtend
      have hPush : (∀ known, s.best (p.node next) = some known → p.key next < p.key known) →
          p.Invariant start settled (s.push p next) ∧ p.Onward settled s (s.push p next) ∧
          (∀ d, some next = some d → (s.push p next).Covers p (p.node d) (p.key d)) ∧
          (s.push p next).queue.length ≤ s.queue.length + 1 := by
        intro hBetter
        obtain ⟨hInvariant, hOnward⟩ := h.push hLawful hNext hBetter
        refine ⟨hInvariant, hOnward, ?_, Nat.le_refl _⟩
        rintro d ⟨⟩
        exact ⟨next, Function.update_self .., le_refl _⟩
      split
      · rename_i hBest
        exact hPush (by simp [hBest])
      · rename_i known hBest
        by_cases hLt : p.key next < p.key known
        · rw [if_pos hLt]
          exact hPush (by simpa [hBest] using hLt)
        · rw [if_neg hLt]
          refine ⟨h, .refl, ?_, Nat.le_succ _⟩
          rintro d ⟨⟩
          exact ⟨known, hBest, not_lt.mp hLt⟩

theorem Invariant.expand (hLawful : p.Lawful) (hReached : p.Reached start current) {edges : List E}
    (hEdges : ∀ e ∈ edges, e ∈ p.adjacency (p.node current)) (h : p.Invariant start settled s) :
    p.Invariant start settled (edges.foldl (p.relax current) s) ∧
      p.Onward settled s (edges.foldl (p.relax current) s) ∧
      (∀ e ∈ edges, ∀ d, p.extend current e = some d →
        (edges.foldl (p.relax current) s).Covers p (p.node d) (p.key d)) ∧
      (edges.foldl (p.relax current) s).queue.length ≤ s.queue.length + edges.length := by
  induction edges generalizing s with
  | nil => exact ⟨h, .refl, by simp, Nat.le_refl _⟩
  | cons e edges ih =>
      obtain ⟨hFirst, hOnward, hCovers, hLength⟩ := h.relax hLawful hReached (hEdges e List.mem_cons_self)
      obtain ⟨hRest, hOnward', hCovers', hLength'⟩ :=
        ih (fun e' hMem => hEdges e' (List.mem_cons_of_mem e hMem)) hFirst
      rw [List.foldl_cons, List.length_cons]
      refine ⟨hRest, hOnward.trans hOnward', ?_, by omega⟩
      intro e' hMem d hExtend
      rcases List.mem_cons.mp hMem with rfl | hMem
      · exact hOnward'.covers _ _ (hCovers d hExtend)
      · exact hCovers' e' hMem d hExtend

/-! ## Termination -/

/-- The edges out of each node are among finitely many. -/
structure Bounded (p : BestFirst N E C K) (edges : List E) (source : E → N) : Prop where
  length : ∀ n, (p.adjacency n).length ≤ edges.countP fun e => source e = n

/-- The edges out of nodes that are not settled. -/
def unsettled (edges : List E) (source : E → N) (settled : List N) : ℕ :=
  edges.countP fun e => source e ∉ settled

omit [LinearOrder K] in
theorem unsettled_cons {edges : List E} {source : E → N} (hBounded : p.Bounded edges source) {n : N}
    (hNew : n ∉ settled) :
    (p.adjacency n).length + unsettled edges source (n :: settled) ≤
      unsettled edges source settled := by
  have hSplit : ∀ edges : List E, edges.countP (fun e => source e = n) +
      unsettled edges source (n :: settled) = unsettled edges source settled := by
    intro edges
    unfold unsettled
    induction edges with
    | nil => rfl
    | cons e edges ih =>
        by_cases hSource : source e = n
        · simp [hSource, hNew] at ih ⊢
          omega
        · simp [List.countP_cons, hSource] at ih ⊢
          omega
  have hEdges := hSplit edges
  have hLength := hBounded.length n
  omega

theorem invariant_init : p.Invariant start [] (.init p start) := by
  have hSelf : (State.init p start).best (p.node start) = some start := by simp [State.init]
  have hBest : ∀ n c, (State.init p start).best n = some c → n = p.node start ∧ c = start := by
    intro n c hSome
    by_cases hNode : n = p.node start
    · subst hNode
      exact ⟨rfl, Option.some.inj (hSome.symm.trans hSelf)⟩
    · simp [State.init, Function.update_of_ne hNode] at hSome
  refine ⟨?_, ?_, ?_, ⟨start, hSelf, le_refl _⟩, ?_, by simp, by simp, by simp [State.init]⟩
  · intro c hMem
    rw [List.mem_singleton.mp hMem]
    exact .start
  · intro n c hSome
    obtain ⟨rfl, rfl⟩ := hBest n c hSome
    exact ⟨.start, rfl⟩
  · intro c hMem
    rw [List.mem_singleton.mp hMem]
    exact ⟨start, hSelf, le_refl _⟩
  · intro n c hSome _
    obtain ⟨-, rfl⟩ := hBest n c hSome
    exact List.mem_singleton.mpr rfl

omit [LinearOrder K] in
theorem fuel_init {edges : List E} {source : E → N} {fuel : ℕ} (hFuel : edges.length + 1 < fuel) :
    (State.init p start).queue.length + unsettled edges source [] < fuel := by
  have hUnsettled : unsettled edges source [] ≤ edges.length := List.countP_le_length
  simp only [State.init, List.length_singleton]
  omega

end BestFirst
