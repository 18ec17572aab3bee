import TrustMap.Contracts.Chain
import TrustMap.Contracts.GatewayCalls

/-!
Invariants of a chain over whole runs. `GatewayStep` collects what a successful Gateway call
can do to the storage, between two external calls; an invariant of these steps and of the end of
a block holds at every point of every run, for the current storage and for every storage a
revert may restore. `Consistent` is the invariant of the commitment.
-/

namespace TrustMap.Contracts.Chain

open TrustMapGateway PathProofVerifier TrustRootCommitment

/-- The effect of a successful Gateway call; a direct verification has one step on each side of
its external call. -/
inductive GatewayStep (env : Deployment) (number : ℕ) (g g' : Gateway) : Prop
  | requested {sender : Address} {sourceChainId sourceHeight : Uint256}
      {sourceBlockHash requestId : Bytes32}
      (ok : requestVerification env number sender sourceChainId sourceHeight sourceBlockHash g =
        .ok (requestId, g'))
  | begun {requestId : Bytes32} (ok : beginRequest requestId g = .ok g')
  | direct {requestId sourceTrustRoot key : Bytes32} {newDependency : Bool}
      (ok : directVerified env number requestId sourceTrustRoot g = .ok (key, newDependency, g'))
  | path {requestId baseTrustRoot key : Bytes32} {blockHashes : List Bytes32}
      {witnesses : List Witness} {newDependency : Bool}
      (ok : verifyPathAndRecord env number requestId baseTrustRoot blockHashes witnesses g =
        .ok (key, newDependency, g'))

/-- Everything an action can do to a chain. An idle action was not possible or its call reverted;
a reverted frame gives back the storage it saved. -/
inductive Transition (env : Deployment) (c : State) : Action → State → Prop
  | idle {action : Action} : Transition env c action c
  | nextBlock (stack : c.stack = []) :
      Transition env c .nextBlock
        ⟨c.number + 1, c.gateway, c.stack, Function.update c.endOf c.number c.gateway⟩
  | enter : Transition env c .enter ⟨c.number, c.gateway, .code c.gateway :: c.stack, c.endOf⟩
  | leave {saved : Gateway} {rest : List Frame} (stack : c.stack = .code saved :: rest) :
      Transition env c .leave ⟨c.number, c.gateway, rest, c.endOf⟩
  | reverted {action : Action} {frame : Frame} {rest : List Frame}
      (stack : c.stack = frame :: rest) :
      Transition env c action ⟨c.number, frame.saved, rest, c.endOf⟩
  | requested {sender : Address} {sourceChainId sourceHeight : Uint256}
      {sourceBlockHash requestId : Bytes32} {g : Gateway}
      (ok : requestVerification env c.number sender sourceChainId sourceHeight sourceBlockHash
        c.gateway = .ok (requestId, g)) :
      Transition env c (.requestVerification sender sourceChainId sourceHeight sourceBlockHash)
        ⟨c.number, g, c.stack, c.endOf⟩
  | path {requestId baseTrustRoot key : Bytes32} {blockHashes : List Bytes32}
      {witnesses : List Witness} {newDependency : Bool} {g : Gateway}
      (ok : verifyPathAndRecord env c.number requestId baseTrustRoot blockHashes witnesses
        c.gateway = .ok (key, newDependency, g)) :
      Transition env c (.verifyPathAndRecord requestId baseTrustRoot blockHashes witnesses)
        ⟨c.number, g, c.stack, c.endOf⟩
  | begun {requestId : Bytes32} {proof : Bytes} {g : Gateway}
      (ok : beginRequest requestId c.gateway = .ok g) :
      Transition env c (.verifyDirectAndRecord requestId proof)
        ⟨c.number, g, .verify c.gateway requestId proof :: c.stack, c.endOf⟩
  | direct {requestId sourceTrustRoot key : Bytes32} {proof : Bytes} {saved : Gateway}
      {rest : List Frame} {newDependency : Bool} {g : Gateway}
      (stack : c.stack = .verify saved requestId proof :: rest)
      (ok : directVerified env c.number requestId sourceTrustRoot c.gateway =
        .ok (key, newDependency, g)) :
      Transition env c (.verifierReturns sourceTrustRoot) ⟨c.number, g, rest, c.endOf⟩

theorem step_transition (env : Deployment) (c : State) (action : Action) :
    Transition env c action (step env c action) := by
  cases action with
  | nextBlock =>
      simp only [step]
      split
      · rename_i hStack
        exact .nextBlock hStack
      · exact .idle
  | enter => exact .enter
  | leave =>
      simp only [step]
      split
      · rename_i hStack
        exact .leave hStack
      · exact .idle
  | abort =>
      simp only [step]
      split
      · rename_i hStack
        exact .reverted hStack
      · exact .idle
  | requestVerification sender sourceChainId sourceHeight sourceBlockHash =>
      simp only [step]
      split
      · exact .idle
      · rename_i hOk
        exact .requested hOk
  | verifyPathAndRecord requestId baseTrustRoot blockHashes witnesses =>
      simp only [step]
      split
      · exact .idle
      · rename_i hOk
        exact .path hOk
  | verifyDirectAndRecord requestId proof =>
      simp only [step]
      split
      · exact .idle
      · rename_i hOk
        exact .begun hOk
  | verifierReturns sourceTrustRoot =>
      simp only [step]
      split
      · rename_i hStack
        split
        · exact .reverted hStack
        · rename_i hOk
          exact .direct hStack hOk
      · exact .idle
  | verifierReverts =>
      simp only [step]
      split
      · rename_i hStack
        exact .reverted hStack
      · exact .idle

/-- A property of the current storage and of every storage a revert may restore. -/
structure Throughout (P : Gateway → Prop) (c : State) : Prop where
  current : P c.gateway
  saved : ∀ frame ∈ c.stack, P frame.saved

/-- An action saves no storage but the current one. -/
theorem Transition.saved {env : Deployment} {P : Gateway → Prop} {c c' : State}
    {action : Action} (hTransition : Transition env c action c') (h : Throughout P c) :
    ∀ frame ∈ c'.stack, P frame.saved := by
  have hRest : ∀ {frame rest}, c.stack = frame :: rest → ∀ f ∈ rest, P f.saved :=
    fun hStack f hf => h.saved f (by rw [hStack]; exact List.mem_cons_of_mem _ hf)
  have hPush : ∀ frame : Frame, frame.saved = c.gateway → ∀ f ∈ frame :: c.stack, P f.saved := by
    intro frame hSaved f hf
    rcases List.mem_cons.mp hf with rfl | hf
    · rw [hSaved]
      exact h.current
    · exact h.saved f hf
  cases hTransition with
  | idle | nextBlock stack | requested ok | path ok => exact h.saved
  | enter | begun ok => exact hPush _ rfl
  | leave stack | reverted stack | direct stack ok => exact hRest stack

/-- The storage after an action is an old one or the effect of a successful call. -/
theorem Transition.current {env : Deployment} {P : Gateway → Prop} {c c' : State}
    {action : Action} (hTransition : Transition env c action c') (h : Throughout P c) :
    P c'.gateway ∨ GatewayStep env c.number c.gateway c'.gateway := by
  cases hTransition with
  | idle | nextBlock stack | enter | leave stack => exact .inl h.current
  | reverted stack => exact .inl (h.saved _ (by rw [stack]; exact List.mem_cons_self))
  | requested ok => exact .inr (.requested ok)
  | path ok => exact .inr (.path ok)
  | begun ok => exact .inr (.begun ok)
  | direct stack ok => exact .inr (.direct ok)

/-- Only the end of a block, between transactions, moves the block number. -/
theorem Transition.block {env : Deployment} {c c' : State} {action : Action}
    (h : Transition env c action c') :
    (c'.number = c.number ∧ c'.endOf = c.endOf) ∨
      (c.stack = [] ∧ c' =
        ⟨c.number + 1, c.gateway, c.stack, Function.update c.endOf c.number c.gateway⟩) := by
  cases h with
  | nextBlock stack => exact .inr ⟨stack, rfl⟩
  | _ => exact .inl ⟨rfl, rfl⟩

/-- The induction over runs: the property may depend on the block number and on the storage at
the end of each completed block. -/
theorem run_throughout {env : Deployment} {P : ℕ → (ℕ → Gateway) → Gateway → Prop} {c : State}
    (hInit : Throughout (P c.number c.endOf) c)
    (hStep : ∀ number endOf g g', P number endOf g → GatewayStep env number g g' →
      P number endOf g')
    (hNext : ∀ number endOf g, P number endOf g →
      P (number + 1) (Function.update endOf number g) g)
    (actions : List Action) :
    Throughout (P (run env c actions).number (run env c actions).endOf)
      (run env c actions) := by
  refine run_induction (P := fun c => Throughout (P c.number c.endOf) c) hInit ?_ actions
  intro c action h
  have hTransition := step_transition env c action
  rcases hTransition.block with ⟨hNumber, hEnd⟩ | ⟨hStack, hNew⟩
  · rw [hNumber, hEnd]
    refine ⟨?_, hTransition.saved h⟩
    rcases hTransition.current h with hOld | hNew
    · exact hOld
    · exact hStep _ _ _ _ h.current hNew
  · rw [hNew]
    exact ⟨hNext _ _ _ h.current, by simp [hStack]⟩

section

variable {env : Deployment} {number : ℕ} {g g' : Gateway}

/-- Every Gateway step is quiet, except for the recording of a dependency in between. -/
theorem GatewayStep.cases (h : GatewayStep env number g g') :
    Quiet number g g' ∨ ∃ requestId sourceTrustRoot key newDependency before after,
      Quiet number g before ∧
      recordDependency env number requestId sourceTrustRoot key before =
        .ok (newDependency, after) ∧
      Quiet number after g' := by
  cases h with
  | requested ok => exact .inl (requestVerification_quiet ok)
  | begun ok => exact .inl (beginRequest_quiet ok)
  | direct ok =>
      obtain ⟨event, rfl, -, hRecord⟩ := directVerified_ok ok
      obtain ⟨-, recorded, hDependency, rfl⟩ := recordAndResolve_ok hRecord
      exact .inr ⟨_, _, _, _, _, recorded, emit_quiet g number rfl, hDependency,
        resolve_quiet recorded number _ _ _⟩
  | path ok =>
      obtain ⟨begun, event, hBegin, -, -, rfl, -, hRecord⟩ := verifyPathAndRecord_ok ok
      obtain ⟨-, recorded, hDependency, rfl⟩ := recordAndResolve_ok hRecord
      exact .inr ⟨_, _, _, _, _, recorded,
        (beginRequest_quiet hBegin).trans (emit_quiet begun number rfl), hDependency,
        resolve_quiet recorded number _ _ _⟩

end

/-- The logs and update records of a Gateway in the middle of block `number`, related to the
storage at the end of each completed block: nothing of a completed block changes later. -/
structure Archived (number : ℕ) (endOf : ℕ → Gateway) (g : Gateway) : Prop where
  logs_le : ∀ entry ∈ g.logs, entry.blockNumber ≤ number
  logs_at : ∀ block < number,
    (endOf block).logs = g.logs.filter fun entry => entry.blockNumber ≤ block
  updateRoots : ∀ block < number,
    g.trustRootByUpdateBlock block = (endOf block).trustRootByUpdateBlock block
  updated : ∀ block < number,
    g.hasTrustRootUpdateAtBlock block = (endOf block).hasTrustRootUpdateAtBlock block

theorem Archived.extends {number : ℕ} {endOf : ℕ → Gateway} {g g' : Gateway}
    (h : Archived number endOf g) (hExtends : Extends number g g') :
    Archived number endOf g' := by
  obtain ⟨more, hLogs, hMore⟩ := hExtends.logs
  refine ⟨fun entry hEntry => ?_, fun block hBlock => ?_, fun block hBlock => ?_,
    fun block hBlock => ?_⟩
  · rw [hLogs] at hEntry
    rcases List.mem_append.mp hEntry with hEntry | hEntry
    · exact h.logs_le entry hEntry
    · exact (hMore entry hEntry).le
  · have hNone : (more.filter fun entry => entry.blockNumber ≤ block) = [] :=
      List.filter_eq_nil_iff.mpr fun entry hEntry => by
        simp [hMore entry hEntry, hBlock]
    rw [hLogs, List.filter_append, hNone, List.append_nil, h.logs_at block hBlock]
  · rw [hExtends.updateRoots block hBlock.ne, h.updateRoots block hBlock]
  · rw [hExtends.updated block hBlock.ne, h.updated block hBlock]

theorem Archived.nextBlock {number : ℕ} {endOf : ℕ → Gateway} {g : Gateway}
    (h : Archived number endOf g) :
    Archived (number + 1) (Function.update endOf number g) g := by
  refine ⟨fun entry hEntry => (h.logs_le entry hEntry).trans (Nat.le_succ number),
    fun block hBlock => ?_, fun block hBlock => ?_, fun block hBlock => ?_⟩
  all_goals rcases (Nat.lt_succ_iff.mp hBlock).eq_or_lt with rfl | hEarlier
  · have hAll : (g.logs.filter fun entry => entry.blockNumber ≤ block) = g.logs :=
      List.filter_eq_self.mpr fun entry hEntry => by simpa using h.logs_le entry hEntry
    rw [Function.update_self, hAll]
  · rw [Function.update_of_ne hEarlier.ne, h.logs_at block hEarlier]
  · rw [Function.update_self]
  · rw [Function.update_of_ne hEarlier.ne, h.updateRoots block hEarlier]
  · rw [Function.update_self]
  · rw [Function.update_of_ne hEarlier.ne, h.updated block hEarlier]

/-- The commitment of a Gateway in the middle of block `number`, related to the storage at the
end of each completed block: no tree belongs to a later block, the commitment moves only with
the tree of the current block, and every tree anchors the root at the end of the block before
it. -/
structure Consistent (env : Deployment) (initialTrustRoot : Bytes32) (number : ℕ)
    (endOf : ℕ → Gateway) (g : Gateway) : Prop where
  pos : 0 < number
  archived : Archived number endOf g
  committed : Committed env initialTrustRoot g
  populated : Populated (historyOf g.logs)
  active_le : g.activeTreeBlock ≤ number
  idle : g.activeTreeBlock ≠ number → g.toCommitment = (endOf (number - 1)).toCommitment
  anchored : ∀ t ∈ historyOf g.logs,
    t.priorRoot = (endOf (t.block - 1)).currentTrustRoot
  ended : ∀ t ∈ historyOf g.logs, t.block < number →
    (endOf t.block).currentTrustRoot = t.root env

section

variable {env : Deployment} {initialTrustRoot : Bytes32} {number : ℕ} {endOf : ℕ → Gateway}
  {g g' : Gateway}

theorem Consistent.quiet (h : Consistent env initialTrustRoot number endOf g)
    (hQuiet : Quiet number g g') : Consistent env initialTrustRoot number endOf g' where
  pos := h.pos
  archived := h.archived.extends hQuiet.extends
  committed := hQuiet.committed h.committed
  populated := by rw [hQuiet.history]; exact h.populated
  active_le := by rw [hQuiet.commitment]; exact h.active_le
  idle := by rw [hQuiet.commitment]; exact h.idle
  anchored := by rw [hQuiet.history]; exact h.anchored
  ended := by rw [hQuiet.history]; exact h.ended

/-- A new dependency in the open tree of the current block. -/
private theorem Consistent.joined {requestId sourceTrustRoot key : Bytes32}
    (h : Consistent env initialTrustRoot number endOf g)
    (hCommitted : Committed env initialTrustRoot g')
    (change : NewDependency env number requestId sourceTrustRoot key g g')
    (hSame : g.activeTreeBlock = number) :
    Consistent env initialTrustRoot number endOf g' := by
  obtain ⟨t, rest, hOld, hBlock⟩ := h.committed.exists_head h.pos hSame
  have hHistory := change.history_same hSame hOld
  have hHead : t ∈ historyOf g.logs := by rw [hOld]; exact List.mem_cons_self
  have hRest : ∀ t' ∈ rest, t' ∈ historyOf g.logs := fun t' hMem => by
    rw [hOld]; exact List.mem_cons_of_mem _ hMem
  refine
    { pos := h.pos
      archived := h.archived.extends change.extends
      committed := hCommitted
      populated := fun t' hMem => ?_
      active_le := change.active.le
      idle := fun hNe => absurd change.active hNe
      anchored := fun t' hMem => ?_
      ended := fun t' hMem hEarlier => ?_ }
  all_goals
    rw [hHistory] at hMem
    rcases List.mem_cons.mp hMem with rfl | hMem
  · simp
  · exact h.populated t' (hRest t' hMem)
  · exact h.anchored t hHead
  · exact h.anchored t' (hRest t' hMem)
  · exact absurd hBlock hEarlier.ne
  · exact h.ended t' (hRest t' hMem) hEarlier

/-- A new dependency that opens the tree of the current block: it anchors the root at the end
of the block before, since the root has not moved in this block. -/
private theorem Consistent.opened {requestId sourceTrustRoot key : Bytes32}
    (h : Consistent env initialTrustRoot number endOf g)
    (hCommitted : Committed env initialTrustRoot g')
    (change : NewDependency env number requestId sourceTrustRoot key g g')
    (hNew : g.activeTreeBlock ≠ number) :
    Consistent env initialTrustRoot number endOf g' := by
  have hHistory := change.history_new hNew
  refine
    { pos := h.pos
      archived := h.archived.extends change.extends
      committed := hCommitted
      populated := fun t' hMem => ?_
      active_le := change.active.le
      idle := fun hNe => absurd change.active hNe
      anchored := fun t' hMem => ?_
      ended := fun t' hMem hEarlier => ?_ }
  all_goals
    rw [hHistory] at hMem
    rcases List.mem_cons.mp hMem with rfl | hMem
  · simp
  · exact h.populated t' hMem
  · exact congrArg Commitment.currentTrustRoot (h.idle hNew)
  · exact h.anchored t' hMem
  · exact absurd rfl hEarlier.ne
  · exact h.ended t' hMem hEarlier

theorem Consistent.gatewayStep (h : Consistent env initialTrustRoot number endOf g)
    (hStep : GatewayStep env number g g') : Consistent env initialTrustRoot number endOf g' := by
  rcases hStep.cases with hQuiet | ⟨_, _, _, _, before, after, hBefore, hRecord, hAfter⟩
  · exact h.quiet hQuiet
  · have hStart := h.quiet hBefore
    obtain ⟨hCommitted, hRecorded⟩ :=
      recordDependency_ok hStart.committed hStart.pos hStart.active_le hRecord
    refine Consistent.quiet ?_ hAfter
    cases hRecorded with
    | known => exact hStart
    | new change =>
        by_cases hSame : before.activeTreeBlock = number
        · exact hStart.joined hCommitted change hSame
        · exact hStart.opened hCommitted change hSame

/-- The tree of the current block is the newest one, so its root is the current root. -/
theorem Consistent.root_of_current (h : Consistent env initialTrustRoot number endOf g)
    {t : BlockTree} (hMem : t ∈ historyOf g.logs) (hBlock : t.block = number) :
    g.currentTrustRoot = t.root env := by
  rw [h.committed.root]
  have hWF := h.committed.wellFormed
  have hActive := h.committed.active ▸ h.active_le
  cases hHistory : historyOf g.logs with
  | nil => simp [hHistory] at hMem
  | cons head rest =>
      rw [hHistory] at hMem hWF hActive
      rcases List.mem_cons.mp hMem with rfl | hRest
      · rfl
      · cases hWF with
        | cons _ later _ older =>
            have hOlder := older.block_le t hRest
            rw [activeBlock] at hActive
            omega

/-- The end of a block. -/
theorem Consistent.nextBlock (h : Consistent env initialTrustRoot number endOf g) :
    Consistent env initialTrustRoot (number + 1) (Function.update endOf number g) g := by
  have hBlocks : ∀ t ∈ historyOf g.logs, 0 < t.block ∧ t.block ≤ number := fun t hMem =>
    ⟨h.committed.wellFormed.block_pos t hMem,
      (h.committed.wellFormed.block_le t hMem).trans (h.committed.active ▸ h.active_le)⟩
  exact
    { pos := Nat.succ_pos number
      archived := h.archived.nextBlock
      committed := h.committed
      populated := h.populated
      active_le := h.active_le.trans (Nat.le_succ number)
      idle := fun _ => by simp
      anchored := fun t hMem => by
        obtain ⟨hPos, hLe⟩ := hBlocks t hMem
        rw [Function.update_of_ne (by omega), h.anchored t hMem]
      ended := fun t hMem _ => by
        rcases (hBlocks t hMem).2.eq_or_lt with hEq | hEarlier
        · rw [hEq, Function.update_self, h.root_of_current hMem hEq]
        · rw [Function.update_of_ne hEarlier.ne, h.ended t hMem hEarlier] }

end

theorem deploy_consistent (env : Deployment) (initialTrustRoot : Bytes32) {start : ℕ}
    (hStart : 0 < start) :
    Throughout (Consistent env initialTrustRoot start (deploy env initialTrustRoot start).endOf)
      (deploy env initialTrustRoot start) where
  current :=
    { pos := hStart
      archived := ⟨by simp [deploy, TrustMapGateway.initial],
        fun _ _ => by simp [deploy, TrustMapGateway.initial], fun _ _ => rfl, fun _ _ => rfl⟩
      committed := initial_committed env initialTrustRoot
      populated := by simp [Populated, deploy, TrustMapGateway.initial, historyOf]
      active_le := Nat.zero_le start
      idle := fun _ => rfl
      anchored := by simp [deploy, TrustMapGateway.initial, historyOf]
      ended := by simp [deploy, TrustMapGateway.initial, historyOf] }
  saved := by simp [deploy]

/-- The commitment invariant at every point of every run. -/
theorem run_consistent (env : Deployment) (initialTrustRoot : Bytes32) {start : ℕ}
    (hStart : 0 < start) (actions : List Action) :
    let c := run env (deploy env initialTrustRoot start) actions
    Throughout (Consistent env initialTrustRoot c.number c.endOf) c :=
  run_throughout (P := Consistent env initialTrustRoot)
    (deploy_consistent env initialTrustRoot hStart)
    (fun _ _ _ _ h hStep => h.gatewayStep hStep) (fun _ _ _ h => h.nextBlock) actions

/-- At every point of every run the current root commits to exactly the anchor of the active
block's tree and the dependencies recorded in that block, in order; before the first
dependency it is the initial root. The root before the active block's tree is the root at the
end of the block before it. -/
theorem currentTrustRoot_commits (env : Deployment) (initialTrustRoot : Bytes32) (start : ℕ)
    (hStart : 0 < start) (actions : List Action) :
    let c := run env (deploy env initialTrustRoot start) actions
    let active := c.gateway.activeTreeBlock
    let leaves :=
      paperLeaf env.keccak (c.endOf (active - 1)).currentTrustRoot (env.blockhash (active - 1)) ::
        (recordedIn active c.gateway.logs).map fun d => paperLeaf env.keccak d.1 d.2
    (recorded c.gateway.logs ≠ [] →
      c.gateway.currentTrustRoot =
          Merkle.root (hashPair env.keccak) 0 env.depth.levels leaves ∧
        c.gateway.currentLeafCount.toNat = leaves.length ∧
        2 ≤ leaves.length ∧ leaves.length ≤ 2 ^ env.depth.levels) ∧
      (recorded c.gateway.logs = [] → c.gateway.currentTrustRoot = initialTrustRoot) := by
  intro c active leaves
  have h : Consistent env initialTrustRoot c.number c.endOf c.gateway :=
    (run_consistent env initialTrustRoot hStart actions).current
  have hActive := h.committed.active
  have hRoot := h.committed.root
  have hTree := h.committed.tree
  cases hHistory : historyOf c.gateway.logs with
  | nil =>
      have hNone := h.committed.recorded_eq_nil hHistory
      rw [hHistory] at hRoot
      exact ⟨fun hSome => absurd hNone hSome, fun _ => hRoot⟩
  | cons t rest =>
      have hMem : t ∈ historyOf c.gateway.logs := by rw [hHistory]; exact List.mem_cons_self
      rw [hHistory] at hActive hRoot hTree
      have hBlock : active = t.block := hActive
      have hLeaves : leaves = t.leaves env := by
        simp only [leaves, hBlock, ← h.anchored t hMem, h.committed.dependencies t hMem]
        rfl
      have hDependencies := List.length_pos_iff.mpr (h.populated t hMem)
      refine ⟨fun _ => ?_, fun hNone => ?_⟩
      · rw [hLeaves]
        exact ⟨hRoot, hTree.count, by rw [BlockTree.leaves_length]; omega, hTree.fits⟩
      · exact absurd (h.committed.dependencies t hMem)
          (by rw [recordedIn_eq_nil_of_recorded hNone]; exact (h.populated t hMem).symm)

theorem currentTrustRoot_commits_toy :
    let c := run toyDeployment (deploy toyDeployment 0 1) toyActions
    recorded c.gateway.logs = [(99, 700)] ∧
      c.gateway.currentTrustRoot =
        Merkle.root (hashPair toyKeccak) 0 2
          [paperLeaf toyKeccak 0 1000, paperLeaf toyKeccak 99 700] := by
  have hFacts :
      let c := run toyDeployment (deploy toyDeployment 0 1) toyActions
      recorded c.gateway.logs = [(99, 700)] ∧ c.gateway.activeTreeBlock = 1 ∧
        recordedIn 1 c.gateway.logs = [(99, 700)] ∧ (c.endOf 0).currentTrustRoot = 0 := by
    decide +kernel
  have h := currentTrustRoot_commits toyDeployment 0 1 (by decide) toyActions
  generalize run toyDeployment (deploy toyDeployment 0 1) toyActions = c at hFacts h ⊢
  obtain ⟨hRecorded, hActive, hIn, hBefore⟩ := hFacts
  have hRoot := (h.1 (by rw [hRecorded]; simp)).1
  rw [hActive, hIn, hBefore] at hRoot
  exact ⟨hRecorded, hRoot⟩

end TrustMap.Contracts.Chain
