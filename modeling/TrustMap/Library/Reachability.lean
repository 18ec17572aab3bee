import Mathlib.Data.List.Perm.Subperm
import Mathlib.Tactic.Common

/-!
Directed multigraphs given by a list of edges, their paths, and breadth-first search. The search
takes the edges out of a node from an adjacency function, in whatever order it gives them.
-/

universe u v

/-- A directed multigraph: edges between nodes. -/
structure Digraph.Edges (N : Type u) (E : Type v) where
  edges : List E
  source : E → N
  target : E → N

namespace Digraph.Edges

variable {N : Type u} {E : Type v}

/-- A sequence of edges, each of which starts where the one before it ends. -/
def IsPath (g : Edges N E) : N → List E → N → Prop
  | a, [], b => a = b
  | a, e :: path, b => e ∈ g.edges ∧ g.source e = a ∧ g.IsPath (g.target e) path b

@[simp] theorem isPath_nil {g : Edges N E} {a b : N} : g.IsPath a [] b ↔ a = b :=
  Iff.rfl

variable {path : List E}

theorem isPath_cons {g : Edges N E} {a b : N} {e : E} :
    g.IsPath a (e :: path) b ↔ e ∈ g.edges ∧ g.source e = a ∧ g.IsPath (g.target e) path b :=
  Iff.rfl

theorem isPath_append {g : Edges N E} {a b : N} {path' : List E} :
    g.IsPath a (path ++ path') b ↔ ∃ c, g.IsPath a path c ∧ g.IsPath c path' b := by
  induction path generalizing a with
  | nil => simp
  | cons e path ih =>
      rw [List.cons_append, isPath_cons, ih]
      constructor
      · rintro ⟨hMem, hSource, c, hPath, hPath'⟩
        exact ⟨c, ⟨hMem, hSource, hPath⟩, hPath'⟩
      · rintro ⟨c, ⟨hMem, hSource, hPath⟩, hPath'⟩
        exact ⟨hMem, hSource, c, hPath, hPath'⟩

theorem isPath_snoc {g : Edges N E} {a b : N} {e : E} :
    g.IsPath a (path ++ [e]) b ↔ g.IsPath a path (g.source e) ∧ e ∈ g.edges ∧ g.target e = b := by
  rw [isPath_append]
  constructor
  · rintro ⟨c, hPath, hMem, rfl, hTarget⟩
    exact ⟨hPath, hMem, hTarget⟩
  · rintro ⟨hPath, hMem, hTarget⟩
    exact ⟨_, hPath, hMem, rfl, hTarget⟩

theorem IsPath.subset {g : Edges N E} {a b : N} (hPath : g.IsPath a path b) :
    ∀ e ∈ path, e ∈ g.edges := by
  induction path generalizing a with
  | nil => simp
  | cons e path ih =>
      intro e' hMem
      rcases List.mem_cons.mp hMem with rfl | hMem
      · exact hPath.1
      · exact ih hPath.2.2 e' hMem

/-- A path that comes back to the source of one of its edges can be cut short: there is one between
the same nodes that uses no edge twice. -/
theorem IsPath.exists_nodup [DecidableEq E] {g : Edges N E} {a b : N} (hPath : g.IsPath a path b) :
    ∃ path', g.IsPath a path' b ∧ path'.Nodup ∧ ∀ e ∈ path', e ∈ path := by
  induction path generalizing a with
  | nil => exact ⟨[], hPath, List.nodup_nil, fun _ hMem => hMem⟩
  | cons e path ih =>
      obtain ⟨hMem, hSource, hRest⟩ := hPath
      obtain ⟨path', hPath', hNodup, hSubset⟩ := ih hRest
      by_cases hAgain : e ∈ path'
      · -- the shortened rest passes `e` again: start there
        obtain ⟨before, after, rfl⟩ := List.append_of_mem hAgain
        obtain ⟨c, -, hAfter⟩ := isPath_append.mp hPath'
        refine ⟨e :: after, ⟨hMem, hSource, hAfter.2.2⟩, (List.nodup_append.mp hNodup).2.1, ?_⟩
        intro e' hMem'
        rcases List.mem_cons.mp hMem' with rfl | hMem'
        · exact List.mem_cons_self
        · exact List.mem_cons_of_mem _ (hSubset e' (by simp [hMem']))
      · refine ⟨e :: path', ⟨hMem, hSource, hPath'⟩, List.nodup_cons.mpr ⟨hAgain, hNodup⟩, ?_⟩
        intro e' hMem'
        rcases List.mem_cons.mp hMem' with rfl | hMem'
        · exact List.mem_cons_self
        · exact List.mem_cons_of_mem _ (hSubset e' hMem')

theorem IsPath.exists_length_le [DecidableEq E] {g : Edges N E} {a b : N}
    (hPath : g.IsPath a path b) :
    ∃ path', g.IsPath a path' b ∧ path'.length ≤ g.edges.length ∧ path'.length ≤ path.length := by
  obtain ⟨path', hPath', hNodup, hSubset⟩ := hPath.exists_nodup
  exact ⟨path', hPath', (List.subperm_of_subset hNodup hPath'.subset).length_le,
    (List.subperm_of_subset hNodup hSubset).length_le⟩

/-! ## Breadth-first search -/

section BreadthFirst

variable [DecidableEq N]

/-- The nodes seen so far and the queue, after looking at one more edge. -/
def discover (g : Edges N E) (state : List N × List N) (e : E) : List N × List N :=
  if g.target e ∈ state.1 then state else (g.target e :: state.1, state.2 ++ [g.target e])

/-- Breadth-first search for a goal, with a bound on the number of nodes it takes from the queue. -/
def search (g : Edges N E) (adjacency : N → List E) (goal : N) : ℕ → List N × List N → Bool
  | 0, _ => false
  | _ + 1, (_, []) => false
  | fuel + 1, (seen, current :: queue) =>
      if current = goal then true
      else g.search adjacency goal fuel ((adjacency current).foldl g.discover (seen, queue))

/-- The adjacency function lists the edges out of each node. -/
def Lists (g : Edges N E) (adjacency : N → List E) : Prop :=
  ∀ a e, e ∈ adjacency a ↔ e ∈ g.edges ∧ g.source e = a

/-- What the search keeps: the nodes seen are reachable, and those that have left the queue are not
the goal and have all their successors seen. -/
structure Explored (g : Edges N E) (start goal : N) (state : List N × List N) : Prop where
  start_mem : start ∈ state.1
  sound : ∀ n ∈ state.1, ∃ path, g.IsPath start path n
  queued : ∀ n ∈ state.2, n ∈ state.1
  finished : ∀ n ∈ state.1, n ∉ state.2 →
    n ≠ goal ∧ ∀ e ∈ g.edges, g.source e = n → g.target e ∈ state.1

/-- The edges to nodes that have not been seen. -/
def unseen (g : Edges N E) (seen : List N) : ℕ :=
  g.edges.countP fun e => g.target e ∉ seen

variable {g : Edges N E} {adjacency : N → List E} {start goal : N}

theorem unseen_cons_lt {seen : List N} {e : E} (hMem : e ∈ g.edges) (hNew : g.target e ∉ seen) :
    g.unseen (g.target e :: seen) < g.unseen seen := by
  have hMono : ∀ edges : List E, edges.countP (fun e' => g.target e' ∉ g.target e :: seen) ≤
      edges.countP fun e' => g.target e' ∉ seen := by
    intro edges
    apply List.countP_mono_left
    intro e' _ hUnseen
    simp only [List.mem_cons, not_or, decide_eq_true_eq] at hUnseen
    simpa using hUnseen.2
  obtain ⟨before, after, hSplit⟩ := List.append_of_mem hMem
  have hBefore := hMono before
  have hAfter := hMono after
  unfold unseen
  rw [hSplit, List.countP_append, List.countP_append, List.countP_cons_of_neg (by simp),
    List.countP_cons_of_pos (by simpa using hNew)]
  omega

/-- The state after looking at some edges: what was seen or queued stays so, the targets are seen,
and what is new is in the queue. -/
structure Extends (g : Edges N E) (edges : List E) (state state' : List N × List N) : Prop where
  seen : ∀ n ∈ state.1, n ∈ state'.1
  queue : ∀ n ∈ state.2, n ∈ state'.2
  target : ∀ e ∈ edges, g.target e ∈ state'.1
  fresh : ∀ n ∈ state'.1, n ∈ state.1 ∨ n ∈ state'.2 ∧ ∃ e ∈ edges, g.target e = n
  known : ∀ n ∈ state'.2, n ∈ state.2 ∨ n ∈ state'.1
  bound : state'.2.length + g.unseen state'.1 ≤ state.2.length + g.unseen state.1

theorem extends_foldl {edges : List E} (hEdges : ∀ e ∈ edges, e ∈ g.edges)
    (state : List N × List N) : g.Extends edges state (edges.foldl g.discover state) := by
  induction edges generalizing state with
  | nil =>
      exact ⟨fun _ h => h, fun _ h => h, by simp, fun _ h => Or.inl h, fun _ h => Or.inl h, Nat.le_refl _⟩
  | cons e edges ih =>
      have hRest := ih (fun e' hMem => hEdges e' (List.mem_cons_of_mem e hMem)) (g.discover state e)
      rw [List.foldl_cons]
      by_cases hSeen : g.target e ∈ state.1
      · rw [discover, if_pos hSeen] at hRest ⊢
        refine ⟨hRest.seen, hRest.queue, ?_, ?_, hRest.known, hRest.bound⟩
        · intro e' hMem
          rcases List.mem_cons.mp hMem with rfl | hMem
          · exact hRest.seen _ hSeen
          · exact hRest.target e' hMem
        · intro n hMem
          rcases hRest.fresh n hMem with hOld | ⟨hQueue, e', hMem', hTarget⟩
          · exact Or.inl hOld
          · exact Or.inr ⟨hQueue, e', List.mem_cons_of_mem e hMem', hTarget⟩
      · rw [discover, if_neg hSeen] at hRest ⊢
        have hNew := unseen_cons_lt (hEdges e List.mem_cons_self) hSeen
        refine ⟨fun n h => hRest.seen n (List.mem_cons_of_mem _ h),
          fun n h => hRest.queue n (List.mem_append_left _ h), ?_, ?_, ?_, ?_⟩
        · intro e' hMem
          rcases List.mem_cons.mp hMem with rfl | hMem
          · exact hRest.seen _ List.mem_cons_self
          · exact hRest.target e' hMem
        · intro n hMem
          rcases hRest.fresh n hMem with hOld | ⟨hQueue, e', hMem', hTarget⟩
          · rcases List.mem_cons.mp hOld with rfl | hOld
            · exact Or.inr ⟨hRest.queue _ (by simp), e, List.mem_cons_self, rfl⟩
            · exact Or.inl hOld
          · exact Or.inr ⟨hQueue, e', List.mem_cons_of_mem e hMem', hTarget⟩
        · intro n hMem
          rcases hRest.known n hMem with hOld | hNow
          · rcases List.mem_append.mp hOld with hOld | hOld
            · exact Or.inl hOld
            · rw [List.mem_singleton] at hOld
              exact Or.inr (hRest.seen n (hOld ▸ List.mem_cons_self))
          · exact Or.inr hNow
        · have hBound := hRest.bound
          simp only [List.length_append, List.length_singleton] at hBound
          omega

/-- Taking a node that is not the goal from the queue keeps the invariant. -/
theorem Explored.step (hLists : g.Lists adjacency) {seen queue : List N} {current : N}
    (h : g.Explored start goal (seen, current :: queue)) (hCurrent : current ≠ goal) :
    g.Explored start goal ((adjacency current).foldl g.discover (seen, queue)) := by
  have hNext := extends_foldl (fun e hMem => ((hLists current e).mp hMem).1) (seen, queue)
  have hSeen : current ∈ seen := h.queued current List.mem_cons_self
  refine ⟨hNext.seen _ h.start_mem, ?_, ?_, ?_⟩
  · intro n hMem
    rcases hNext.fresh n hMem with hOld | ⟨-, e, hEdge, rfl⟩
    · exact h.sound n hOld
    · obtain ⟨path, hPath⟩ := h.sound current hSeen
      obtain ⟨hMem', hSource⟩ := (hLists current e).mp hEdge
      exact ⟨path ++ [e], isPath_snoc.mpr ⟨hSource ▸ hPath, hMem', rfl⟩⟩
  · intro n hMem
    rcases hNext.known n hMem with hOld | hNow
    · exact hNext.seen n (h.queued n (List.mem_cons_of_mem current hOld))
    · exact hNow
  · intro n hMem hLeft
    rcases hNext.fresh n hMem with hOld | ⟨hQueue, -⟩
    · by_cases hIs : n = current
      · subst hIs
        refine ⟨hCurrent, fun e hEdge hSource => ?_⟩
        exact hNext.target e ((hLists n e).mpr ⟨hEdge, hSource⟩)
      · have hQueue : n ∉ current :: queue := by
          intro hIn
          rcases List.mem_cons.mp hIn with hIn | hIn
          · exact hIs hIn
          · exact hLeft (hNext.queue n hIn)
        obtain ⟨hGoal, hClosed⟩ := h.finished n hOld hQueue
        exact ⟨hGoal, fun e hEdge hSource => hNext.seen _ (hClosed e hEdge hSource)⟩
    · exact absurd hQueue hLeft

omit [DecidableEq N] in
/-- With an empty queue everything reachable has been seen, and none of it is the goal. -/
theorem Explored.not_reachable {seen : List N} (h : g.Explored start goal (seen, [])) :
    ¬ g.IsPath start path goal := by
  have hClosed : ∀ path n, n ∈ seen → ∀ b, g.IsPath n path b → b ∈ seen := by
    intro path
    induction path with
    | nil =>
        intro n hMem b hPath
        exact hPath ▸ hMem
    | cons e path ih =>
        intro n hMem b hPath
        obtain ⟨hEdge, hSource, hRest⟩ := hPath
        exact ih _ ((h.finished n hMem (by simp)).2 e hEdge hSource) b hRest
  intro hPath
  exact (h.finished goal (hClosed path start h.start_mem goal hPath) (by simp)).1 rfl

theorem search_eq_true_iff (hLists : g.Lists adjacency) {fuel : ℕ} {state : List N × List N}
    (h : g.Explored start goal state) (hFuel : state.2.length + g.unseen state.1 ≤ fuel) :
    g.search adjacency goal fuel state = true ↔ ∃ path, g.IsPath start path goal := by
  induction fuel generalizing state with
  | zero =>
      obtain ⟨seen, queue⟩ := state
      obtain rfl : queue = [] := List.eq_nil_of_length_eq_zero (Nat.eq_zero_of_add_eq_zero_right
        (Nat.le_zero.mp hFuel))
      simp [search, h.not_reachable]
  | succ fuel ih =>
      obtain ⟨seen, queue⟩ := state
      cases queue with
      | nil => simp [search, h.not_reachable]
      | cons current queue =>
          by_cases hCurrent : current = goal
          · subst hCurrent
            simpa [search] using h.sound current (h.queued current List.mem_cons_self)
          · rw [search, if_neg hCurrent]
            apply ih (h.step hLists hCurrent)
            have hBound := (extends_foldl (fun e hMem => ((hLists current e).mp hMem).1)
              (seen, queue)).bound
            simp only [List.length_cons] at hFuel hBound
            omega

/-- Breadth-first search decides whether there is a path, once it may take one node more than there
are edges from its queue. -/
theorem search_start (hLists : g.Lists adjacency) {fuel : ℕ} (hFuel : g.edges.length < fuel) :
    g.search adjacency goal fuel ([start], [start]) = true ↔ ∃ path, g.IsPath start path goal := by
  apply search_eq_true_iff hLists
  · refine ⟨by simp, ?_, by simp, by simp⟩
    intro n hMem
    exact ⟨[], (List.mem_singleton.mp hMem).symm⟩
  · have hUnseen : g.unseen [start] ≤ g.edges.length := List.countP_le_length
    simp only [List.length_singleton]
    omega

end BreadthFirst

end Digraph.Edges
