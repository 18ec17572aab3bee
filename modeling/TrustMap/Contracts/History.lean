import TrustMap.Contracts.TrustMapGateway

/-!
The abstract model of a Gateway: a history of block trees. Every block in which a new
dependency is recorded has one tree, whose first leaf anchors the root before it and whose
other leaves are the dependencies of that block in order. The history of a Gateway is read off
its logs; `Committed` says that the storage commits to it.
-/

namespace TrustMap.Contracts.TrustMapGateway

open PathProofVerifier TrustRootCommitment

/-- The tree of one block: the root it anchors and the recorded dependencies, each as source
TrustRoot and source block hash. -/
structure BlockTree where
  block : ℕ
  priorRoot : Bytes32
  dependencies : List (Bytes32 × Bytes32)
  deriving DecidableEq, Repr

/-- The preimages of the leaves: the anchor, then the dependencies. -/
def BlockTree.preimages (env : Deployment) (t : BlockTree) : List (Bytes32 × Bytes32) :=
  (t.priorRoot, env.blockhash (t.block - 1)) :: t.dependencies

/-- The leaves of the tree. -/
def BlockTree.leaves (env : Deployment) (t : BlockTree) : List Bytes32 :=
  (t.preimages env).map fun preimage => paperLeaf env.keccak preimage.1 preimage.2

/-- The root of the full tree over the padded leaves. -/
def BlockTree.root (env : Deployment) (t : BlockTree) : Bytes32 :=
  Merkle.root (hashPair env.keccak) 0 env.depth.levels (t.leaves env)

@[simp] theorem BlockTree.leaves_length (env : Deployment) (t : BlockTree) :
    (t.leaves env).length = t.dependencies.length + 1 := by
  simp [BlockTree.leaves, BlockTree.preimages]

theorem BlockTree.leaves_append (env : Deployment) (t : BlockTree)
    (dependency : Bytes32 × Bytes32) :
    BlockTree.leaves env { t with dependencies := t.dependencies ++ [dependency] } =
      t.leaves env ++ [paperLeaf env.keccak dependency.1 dependency.2] := by
  simp [BlockTree.leaves, BlockTree.preimages]

/-- The root of a history, newest tree first. -/
def historyRoot (env : Deployment) (initialTrustRoot : Bytes32) : List BlockTree → Bytes32
  | [] => initialTrustRoot
  | t :: _ => t.root env

/-- The leaves of the newest tree. -/
def activeLeaves (env : Deployment) : List BlockTree → List Bytes32
  | [] => []
  | t :: _ => t.leaves env

/-- The block of the newest tree, zero when there is none. -/
def activeBlock : List BlockTree → ℕ
  | [] => 0
  | t :: _ => t.block

/-- The trees of a history are chained: each anchors the root of the one before it, in an
earlier block. -/
inductive WellFormed (env : Deployment) (initialTrustRoot : Bytes32) : List BlockTree → Prop
  | nil : WellFormed env initialTrustRoot []
  | cons {t : BlockTree} {rest : List BlockTree}
      (anchored : t.priorRoot = historyRoot env initialTrustRoot rest)
      (later : activeBlock rest < t.block)
      (fits : (t.leaves env).length ≤ 2 ^ env.depth.levels)
      (older : WellFormed env initialTrustRoot rest) :
      WellFormed env initialTrustRoot (t :: rest)

variable {env : Deployment} {initialTrustRoot : Bytes32}

/-- No tree is of a block after the active one. -/
theorem WellFormed.block_le {h : List BlockTree} (hWF : WellFormed env initialTrustRoot h) :
    ∀ t ∈ h, t.block ≤ activeBlock h := by
  induction hWF with
  | nil => simp
  | @cons t rest _ later _ _ ih =>
      intro t' hMem
      rcases List.mem_cons.mp hMem with rfl | hRest
      · exact le_rfl
      · exact (ih t' hRest).trans later.le

theorem WellFormed.block_pos {h : List BlockTree} (hWF : WellFormed env initialTrustRoot h) :
    ∀ t ∈ h, 0 < t.block := by
  induction hWF with
  | nil => simp
  | @cons t rest _ later _ _ ih =>
      intro t' hMem
      rcases List.mem_cons.mp hMem with rfl | hRest
      · exact Nat.zero_lt_of_lt later
      · exact ih t' hRest

/-- Every tree of the history holds a dependency. -/
def Populated (h : List BlockTree) : Prop :=
  ∀ t ∈ h, t.dependencies ≠ []

/-- The events the history is read from. -/
def isTreeEvent : GatewayEvent → Bool
  | .trustRootUpdated .. => true
  | .dependencyRecorded .. => true
  | _ => false

/-- One log entry read into a history: an anchor opens a tree, a recorded dependency joins
the newest tree. -/
def readEntry (h : List BlockTree) (entry : LogEntry) : List BlockTree :=
  match entry.event with
  | .trustRootUpdated _ _ _ oldTrustRoot _ true => ⟨entry.blockNumber, oldTrustRoot, []⟩ :: h
  | .dependencyRecorded _ _ _ _ sourceBlockHash sourceTrustRoot _ =>
      match h with
      | [] => [⟨entry.blockNumber, 0, [(sourceTrustRoot, sourceBlockHash)]⟩]
      | t :: rest =>
          { t with dependencies := t.dependencies ++ [(sourceTrustRoot, sourceBlockHash)] } ::
            rest
  | _ => h

/-- The history of a log, newest tree first. -/
def historyOf (logs : List LogEntry) : List BlockTree :=
  logs.foldl readEntry []

/-- The dependency of a log entry. -/
def LogEntry.dependency (entry : LogEntry) : Option (Bytes32 × Bytes32) :=
  match entry.event with
  | .dependencyRecorded _ _ _ _ sourceBlockHash sourceTrustRoot _ =>
      some (sourceTrustRoot, sourceBlockHash)
  | _ => none

/-- The dependencies newly recorded in a block, in order. -/
def recordedIn (block : ℕ) (logs : List LogEntry) : List (Bytes32 × Bytes32) :=
  (logs.filter fun entry => entry.blockNumber = block).filterMap LogEntry.dependency

/-- All dependencies recorded so far, in order. -/
def recorded (logs : List LogEntry) : List (Bytes32 × Bytes32) :=
  logs.filterMap LogEntry.dependency

theorem recordedIn_eq_nil_of_recorded {logs : List LogEntry} (h : recorded logs = [])
    (block : ℕ) : recordedIn block logs = [] :=
  List.filterMap_eq_nil_iff.mpr fun entry hEntry =>
    List.filterMap_eq_nil_iff.mp h entry (List.mem_filter.mp hEntry).1

theorem readEntry_of_not_tree {h : List BlockTree} {entry : LogEntry}
    (hEvent : isTreeEvent entry.event = false) : readEntry h entry = h := by
  unfold readEntry
  cases hCase : entry.event <;> simp_all [isTreeEvent]

theorem dependency_of_not_tree {entry : LogEntry} (hEvent : isTreeEvent entry.event = false) :
    entry.dependency = none := by
  unfold LogEntry.dependency
  cases hCase : entry.event <;> simp_all [isTreeEvent]

theorem historyOf_append (logs more : List LogEntry) :
    historyOf (logs ++ more) = more.foldl readEntry (historyOf logs) :=
  List.foldl_append

theorem recordedIn_append (block : ℕ) (logs more : List LogEntry) :
    recordedIn block (logs ++ more) = recordedIn block logs ++ recordedIn block more := by
  simp [recordedIn]

/-- Entries of other events add no tree. -/
theorem historyOf_append_of_not_tree {logs more : List LogEntry}
    (h : ∀ entry ∈ more, isTreeEvent entry.event = false) :
    historyOf (logs ++ more) = historyOf logs := by
  rw [historyOf_append]
  induction more with
  | nil => rfl
  | cons entry more ih =>
      rw [List.foldl_cons, readEntry_of_not_tree (h entry List.mem_cons_self)]
      exact ih fun e he => h e (List.mem_cons_of_mem _ he)

theorem recordedIn_append_of_not_tree {block : ℕ} {logs more : List LogEntry}
    (h : ∀ entry ∈ more, isTreeEvent entry.event = false) :
    recordedIn block (logs ++ more) = recordedIn block logs := by
  have hNone : recordedIn block more = [] :=
    List.filterMap_eq_nil_iff.mpr fun entry hEntry =>
      dependency_of_not_tree (h entry (List.mem_filter.mp hEntry).1)
  rw [recordedIn_append, hNone, List.append_nil]

/-- The storage commits to the history of its logs. -/
structure Committed (env : Deployment) (initialTrustRoot : Bytes32) (g : Gateway) : Prop where
  wellFormed : WellFormed env initialTrustRoot (historyOf g.logs)
  tree : TreeOf env.keccak env.depth (activeLeaves env (historyOf g.logs)) g.toCommitment
  root : g.currentTrustRoot = historyRoot env initialTrustRoot (historyOf g.logs)
  active : g.activeTreeBlock = activeBlock (historyOf g.logs)
  dependencies : ∀ t ∈ historyOf g.logs, recordedIn t.block g.logs = t.dependencies
  opened : ∀ block, recordedIn block g.logs ≠ [] → ∃ t ∈ historyOf g.logs, t.block = block
  updateRoots : ∀ t ∈ historyOf g.logs, g.trustRootByUpdateBlock t.block = t.root env
  updated : ∀ block, g.hasTrustRootUpdateAtBlock block = true ↔
    ∃ t ∈ historyOf g.logs, t.block = block
  untouched : ∀ block, g.hasTrustRootUpdateAtBlock block = false →
    g.trustRootByUpdateBlock block = 0

variable {g : Gateway}

/-- Without a tree there is no dependency. -/
theorem Committed.recorded_eq_nil (h : Committed env initialTrustRoot g)
    (hHistory : historyOf g.logs = []) : recorded g.logs = [] := by
  refine List.filterMap_eq_nil_iff.mpr fun entry hEntry => ?_
  by_contra hSome
  have hIn : recordedIn entry.blockNumber g.logs ≠ [] := fun hNil =>
    hSome (List.filterMap_eq_nil_iff.mp hNil entry (List.mem_filter.mpr ⟨hEntry, by simp⟩))
  obtain ⟨t, hMem, -⟩ := h.opened _ hIn
  simp [hHistory] at hMem

/-- A new Gateway is committed to an empty history. -/
theorem initial_committed (env : Deployment) (initialTrustRoot : Bytes32) :
    Committed env initialTrustRoot (initial env.keccak env.depth initialTrustRoot) where
  wellFormed := .nil
  tree := initial_treeOf env.keccak env.depth initialTrustRoot
  root := rfl
  active := rfl
  dependencies := by simp [initial, historyOf]
  opened := by simp [initial, recordedIn]
  updateRoots := by simp [initial, historyOf]
  updated := by simp [initial, historyOf, TrustRootCommitment.initial]
  untouched _ _ := rfl

/-- A step in a block adds log entries of that block and touches the update records of no other
block. -/
structure Extends (blockNumber : ℕ) (g g' : Gateway) : Prop where
  logs : ∃ more : List LogEntry, g'.logs = g.logs ++ more ∧
    ∀ entry ∈ more, entry.blockNumber = blockNumber
  updateRoots : ∀ block ≠ blockNumber,
    g'.trustRootByUpdateBlock block = g.trustRootByUpdateBlock block
  updated : ∀ block ≠ blockNumber,
    g'.hasTrustRootUpdateAtBlock block = g.hasTrustRootUpdateAtBlock block

variable {blockNumber : ℕ} {g' : Gateway}

theorem Extends.trans {g'' : Gateway} (h : Extends blockNumber g g')
    (h' : Extends blockNumber g' g'') : Extends blockNumber g g'' := by
  obtain ⟨more, hLogs, hMore⟩ := h.logs
  obtain ⟨more', hLogs', hMore'⟩ := h'.logs
  refine ⟨⟨more ++ more', by rw [hLogs', hLogs, List.append_assoc], fun entry hEntry => ?_⟩,
    fun block hNe => (h'.updateRoots block hNe).trans (h.updateRoots block hNe),
    fun block hNe => (h'.updated block hNe).trans (h.updated block hNe)⟩
  rcases List.mem_append.mp hEntry with hEntry | hEntry
  · exact hMore entry hEntry
  · exact hMore' entry hEntry

/-- A step in a block that leaves the commitment alone and logs no tree event. -/
structure Quiet (blockNumber : ℕ) (g g' : Gateway) : Prop where
  commitment : g'.toCommitment = g.toCommitment
  logs : ∃ more : List LogEntry, g'.logs = g.logs ++ more ∧
    ∀ entry ∈ more, entry.blockNumber = blockNumber ∧ isTreeEvent entry.event = false

theorem Quiet.trans {g'' : Gateway} (h : Quiet blockNumber g g') (h' : Quiet blockNumber g' g'') :
    Quiet blockNumber g g'' := by
  obtain ⟨hCommitment, more, hLogs, hMore⟩ := h
  obtain ⟨hCommitment', more', hLogs', hMore'⟩ := h'
  refine ⟨hCommitment'.trans hCommitment, more ++ more', by rw [hLogs', hLogs, List.append_assoc],
    fun entry hEntry => ?_⟩
  rcases List.mem_append.mp hEntry with hEntry | hEntry
  · exact hMore entry hEntry
  · exact hMore' entry hEntry

theorem Quiet.extends (h : Quiet blockNumber g g') : Extends blockNumber g g' := by
  obtain ⟨more, hLogs, hMore⟩ := h.logs
  exact ⟨⟨more, hLogs, fun entry hEntry => (hMore entry hEntry).1⟩,
    fun block _ => by rw [h.commitment], fun block _ => by rw [h.commitment]⟩

theorem Quiet.history (h : Quiet blockNumber g g') : historyOf g'.logs = historyOf g.logs := by
  obtain ⟨more, hLogs, hMore⟩ := h.logs
  rw [hLogs, historyOf_append_of_not_tree fun entry hEntry => (hMore entry hEntry).2]

theorem Quiet.recordedIn (h : Quiet blockNumber g g') (block : ℕ) :
    recordedIn block g'.logs = recordedIn block g.logs := by
  obtain ⟨more, hLogs, hMore⟩ := h.logs
  rw [hLogs, recordedIn_append_of_not_tree fun entry hEntry => (hMore entry hEntry).2]

/-- A quiet step keeps what is committed. -/
theorem Quiet.committed (hQuiet : Quiet blockNumber g g') (h : Committed env initialTrustRoot g) :
    Committed env initialTrustRoot g' where
  wellFormed := by rw [hQuiet.history]; exact h.wellFormed
  tree := by rw [hQuiet.history, hQuiet.commitment]; exact h.tree
  root := by rw [hQuiet.history, hQuiet.commitment]; exact h.root
  active := by rw [hQuiet.history, hQuiet.commitment]; exact h.active
  dependencies := by simpa only [hQuiet.history, hQuiet.recordedIn] using h.dependencies
  opened := by simpa only [hQuiet.history, hQuiet.recordedIn] using h.opened
  updateRoots := by simpa only [hQuiet.history, hQuiet.commitment] using h.updateRoots
  updated := by simpa only [hQuiet.history, hQuiet.commitment] using h.updated
  untouched := by simpa only [hQuiet.commitment] using h.untouched

end TrustMap.Contracts.TrustMapGateway
