import TrustMap.Contracts.History

/-!
What the Gateway functions do when they succeed. Recording a dependency opens the tree of the
block if needed, and the dependency becomes its last leaf in the storage, in the logs and in the
history; everything else is quiet.
-/

namespace TrustMap.Contracts.TrustMapGateway

open PathProofVerifier TrustRootCommitment

section

variable {env : Deployment} {initialTrustRoot : Bytes32} {g g' : Gateway} {blockNumber : ℕ}

/-- The anchor entry logged when a tree is opened. -/
def anchorEntry (env : Deployment) (blockNumber : ℕ)
    (requestId oldTrustRoot newTrustRoot : Bytes32) : LogEntry :=
  ⟨blockNumber, .trustRootUpdated requestId 0
    (paperLeaf env.keccak oldTrustRoot (env.blockhash (blockNumber - 1)))
    oldTrustRoot newTrustRoot true⟩

theorem recordedIn_anchorEntry (block : ℕ) (requestId oldTrustRoot newTrustRoot : Bytes32) :
    recordedIn block [anchorEntry env blockNumber requestId oldTrustRoot newTrustRoot] = [] := by
  simp [recordedIn, anchorEntry, LogEntry.dependency, List.filter_cons]

/-- No dependency has been logged in a block after the active one. -/
theorem Committed.recordedIn_eq_nil (h : Committed env initialTrustRoot g)
    (hBlock : g.activeTreeBlock < blockNumber) : recordedIn blockNumber g.logs = [] := by
  by_contra hNe
  obtain ⟨t, hMem, rfl⟩ := h.opened _ hNe
  exact absurd (h.wellFormed.block_le t hMem) (by rw [← h.active]; omega)

/-- A storage that writes the tree of the current block, and leaves the other blocks alone,
commits to the history with that tree in front. -/
theorem Committed.of_head (h : Committed env initialTrustRoot g) {t : BlockTree}
    {rest : List BlockTree} (hHistory : historyOf g'.logs = t :: rest)
    (hSame : ∀ t' : BlockTree, t'.block ≠ t.block → (t' ∈ historyOf g.logs ↔ t' ∈ rest))
    (hAnchored : t.priorRoot = historyRoot env initialTrustRoot rest)
    (hLater : activeBlock rest < t.block) (hOlder : WellFormed env initialTrustRoot rest)
    (hTree : TreeOf env.keccak env.depth (t.leaves env) g'.toCommitment)
    (hActive : g'.activeTreeBlock = t.block)
    (hRoots : g'.trustRootByUpdateBlock =
      Function.update g.trustRootByUpdateBlock t.block g'.currentTrustRoot)
    (hUpdated : g'.hasTrustRootUpdateAtBlock =
      Function.update g.hasTrustRootUpdateAtBlock t.block true)
    (hHere : recordedIn t.block g'.logs = t.dependencies)
    (hElsewhere : ∀ block ≠ t.block, recordedIn block g'.logs = recordedIn block g.logs) :
    Committed env initialTrustRoot g' := by
  have hRoot : g'.currentTrustRoot = t.root env := hTree.root (by simp [BlockTree.leaves,
    BlockTree.preimages])
  have hNe : ∀ t' ∈ rest, t'.block ≠ t.block := fun t' hMem hEq =>
    absurd (hOlder.block_le t' hMem) (by omega)
  refine
    { wellFormed := by rw [hHistory]; exact .cons hAnchored hLater hTree.fits hOlder
      tree := by rw [hHistory]; exact hTree
      root := by rw [hHistory]; exact hRoot
      active := by rw [hHistory]; exact hActive
      dependencies := fun t' hMem => ?_
      opened := fun block hRecorded => ?_
      updateRoots := fun t' hMem => ?_
      updated := fun block => ?_
      untouched := fun block => ?_ }
  · rw [hHistory] at hMem
    rcases List.mem_cons.mp hMem with rfl | hRest
    · exact hHere
    · rw [hElsewhere _ (hNe t' hRest), h.dependencies t' ((hSame t' (hNe t' hRest)).mpr hRest)]
  · rw [hHistory]
    by_cases hEq : block = t.block
    · exact ⟨t, List.mem_cons_self, hEq.symm⟩
    · rw [hElsewhere block hEq] at hRecorded
      obtain ⟨t', hMem, rfl⟩ := h.opened block hRecorded
      exact ⟨t', List.mem_cons_of_mem _ ((hSame t' hEq).mp hMem), rfl⟩
  · rw [hHistory] at hMem
    rw [hRoots]
    rcases List.mem_cons.mp hMem with rfl | hRest
    · rw [Function.update_self, hRoot]
    · rw [Function.update_of_ne (hNe t' hRest),
        h.updateRoots t' ((hSame t' (hNe t' hRest)).mpr hRest)]
  · rw [hUpdated, hHistory]
    by_cases hEq : block = t.block
    · simp [hEq]
    · rw [Function.update_of_ne hEq, h.updated]
      constructor
      · rintro ⟨t', hMem, rfl⟩
        exact ⟨t', List.mem_cons_of_mem _ ((hSame t' hEq).mp hMem), rfl⟩
      · rintro ⟨t', hMem, rfl⟩
        rcases List.mem_cons.mp hMem with rfl | hRest
        · exact absurd rfl hEq
        · exact ⟨t', (hSame t' hEq).mpr hRest, rfl⟩
  · rw [hUpdated, hRoots]
    by_cases hEq : block = t.block
    · simp [hEq]
    · simpa [Function.update_of_ne hEq] using h.untouched block

/-- Opening the tree of a new block succeeds and commits to the history with that tree. -/
theorem openBlockTree_new (h : Committed env initialTrustRoot g)
    (hBlock : g.activeTreeBlock < blockNumber) (requestId : Bytes32) :
    ∃ g', openBlockTree env blockNumber requestId g = .ok g' ∧
      Committed env initialTrustRoot g' ∧ g'.activeTreeBlock = blockNumber ∧
      g'.requests = g.requests ∧ g'.requestNonce = g.requestNonce ∧
      g'.dependencyRecorded = g.dependencyRecorded ∧
      g'.logs = g.logs ++
        [anchorEntry env blockNumber requestId g.currentTrustRoot g'.currentTrustRoot] ∧
      Extends blockNumber g g' := by
  obtain ⟨c', hBegin, hTree, hActive, -, hRoots, hUpdated⟩ :=
    beginBlockTree_eq_ok h.tree blockNumber requestId
      (paperLeaf env.keccak g.currentTrustRoot (env.blockhash (blockNumber - 1)))
  let opened : Gateway := { g with toCommitment := c' }
  let g' := opened.emit blockNumber
    (.trustRootUpdated requestId 0
      (paperLeaf env.keccak g.currentTrustRoot (env.blockhash (blockNumber - 1)))
      g.currentTrustRoot c'.currentTrustRoot true)
  let t : BlockTree := ⟨blockNumber, g.currentTrustRoot, []⟩
  have hLogs : g'.logs = g.logs ++
      [anchorEntry env blockNumber requestId g.currentTrustRoot g'.currentTrustRoot] := rfl
  have hHistory : historyOf g'.logs = t :: historyOf g.logs := by
    rw [hLogs, historyOf_append]
    rfl
  have hRecorded : ∀ block, recordedIn block g'.logs = recordedIn block g.logs := by
    intro block
    rw [hLogs, recordedIn_append, recordedIn_anchorEntry, List.append_nil]
  have hExtends : Extends blockNumber g g' :=
    ⟨⟨_, hLogs, by simp [anchorEntry]⟩,
      fun block hNe => by change c'.trustRootByUpdateBlock block = _; simp [hRoots, hNe],
      fun block hNe => by change c'.hasTrustRootUpdateAtBlock block = _; simp [hUpdated, hNe]⟩
  refine ⟨g', ?_, ?_, hActive, rfl, rfl, rfl, hLogs, hExtends⟩
  · simp only [openBlockTree]
    rw [if_pos (show g.activeTreeBlock ≠ blockNumber by omega), if_neg (by omega), hBegin]
  · exact h.of_head hHistory (fun _ _ => Iff.rfl) h.root (by rw [← h.active]; exact hBlock)
      h.wellFormed hTree hActive hRoots hUpdated
      ((hRecorded _).trans (h.recordedIn_eq_nil hBlock)) (fun block _ => hRecorded block)

theorem openBlockTree_same (hBlock : g.activeTreeBlock = blockNumber) (requestId : Bytes32) :
    openBlockTree env blockNumber requestId g = .ok g := by
  simp [openBlockTree, hBlock]

/-- The entry logged for a recorded dependency. -/
def dependencyEntry (blockNumber : ℕ) (requestId sourceTrustRoot dependencyKey : Bytes32)
    (request : VerificationRequest) (leafIndex : UInt32) : LogEntry :=
  ⟨blockNumber, .dependencyRecorded dependencyKey requestId request.sourceChainId
    request.sourceHeight request.sourceBlockHash sourceTrustRoot leafIndex⟩

/-- The entry logged for the leaf of a recorded dependency. -/
def leafEntry (env : Deployment) (blockNumber : ℕ)
    (requestId sourceTrustRoot sourceBlockHash : Bytes32) (leafIndex : UInt32)
    (oldTrustRoot newTrustRoot : Bytes32) : LogEntry :=
  ⟨blockNumber, .trustRootUpdated requestId leafIndex
    (paperLeaf env.keccak sourceTrustRoot sourceBlockHash) oldTrustRoot newTrustRoot false⟩

theorem recordedIn_dependencyEntry {requestId sourceTrustRoot dependencyKey : Bytes32}
    {request : VerificationRequest} {leafIndex : UInt32} {oldTrustRoot newTrustRoot : Bytes32}
    (block : ℕ) :
    recordedIn block [leafEntry env blockNumber requestId sourceTrustRoot
          request.sourceBlockHash leafIndex oldTrustRoot newTrustRoot,
        dependencyEntry blockNumber requestId sourceTrustRoot dependencyKey request leafIndex] =
      if block = blockNumber then [(sourceTrustRoot, request.sourceBlockHash)] else [] := by
  by_cases hEq : block = blockNumber
  · subst hEq
    simp only [recordedIn, leafEntry, dependencyEntry, List.filter_cons, List.filter_nil,
      decide_true, if_true]
    rfl
  · simp [recordedIn, leafEntry, dependencyEntry, hEq, Ne.symm hEq]

/-- The tree of the current block is the newest of the history. -/
theorem Committed.exists_head (h : Committed env initialTrustRoot g) (hPos : 0 < blockNumber)
    (hBlock : g.activeTreeBlock = blockNumber) :
    ∃ t rest, historyOf g.logs = t :: rest ∧ t.block = blockNumber := by
  have hActive := h.active
  cases hCase : historyOf g.logs with
  | nil =>
      rw [hCase, activeBlock, hBlock] at hActive
      omega
  | cons t rest =>
      rw [hCase, activeBlock, hBlock] at hActive
      exact ⟨t, rest, rfl, hActive.symm⟩

/-- Appending to the tree of the current block commits to the history in which the dependency
is the last leaf of that tree. -/
theorem appendDependency_ok {requestId sourceTrustRoot dependencyKey : Bytes32}
    (h : Committed env initialTrustRoot g) (hPos : 0 < blockNumber)
    (hBlock : g.activeTreeBlock = blockNumber)
    (hOk : appendDependency env blockNumber requestId sourceTrustRoot dependencyKey g = .ok g') :
    Committed env initialTrustRoot g' ∧ g'.activeTreeBlock = blockNumber ∧
      g'.requests = g.requests ∧ g'.requestNonce = g.requestNonce ∧
      g'.dependencyRecorded = Function.update g.dependencyRecorded dependencyKey true ∧
      Extends blockNumber g g' ∧
      ∃ leafIndex : UInt32,
        g'.logs = g.logs ++ [leafEntry env blockNumber requestId sourceTrustRoot
            (g.requests requestId).sourceBlockHash leafIndex g.currentTrustRoot
            g'.currentTrustRoot,
          dependencyEntry blockNumber requestId sourceTrustRoot dependencyKey
            (g.requests requestId) leafIndex] ∧
        leafIndex.toNat = (activeLeaves env (historyOf g.logs)).length := by
  obtain ⟨t, rest, hOld, hTreeBlock⟩ := h.exists_head hPos hBlock
  have hTree := h.tree
  have hWF := h.wellFormed
  rw [hOld] at hTree hWF
  simp only [appendDependency] at hOk
  split at hOk
  · cases hOk
  rename_i leafIndex c' event hAppend
  obtain ⟨hTree', hIndex, rfl, hActive', -, hRoots, hUpdated⟩ := appendLeaf_ok hTree hAppend
  obtain rfl := Except.ok.inj hOk
  let dependency := (sourceTrustRoot, (g.requests requestId).sourceBlockHash)
  let t' : BlockTree := { t with dependencies := t.dependencies ++ [dependency] }
  rw [activeLeaves, ← t.leaves_append env dependency] at hTree'
  generalize hg' : Gateway.emit _ blockNumber (.dependencyRecorded _ _ _ _ _ _ _) = g'
  have hCommitment : g'.toCommitment = c' := by rw [← hg']; rfl
  have hLogs : g'.logs = g.logs ++
      [leafEntry env blockNumber requestId sourceTrustRoot
          (g.requests requestId).sourceBlockHash leafIndex g.currentTrustRoot g'.currentTrustRoot,
        dependencyEntry blockNumber requestId sourceTrustRoot dependencyKey
          (g.requests requestId) leafIndex] := by
    simp [← hg', Gateway.emit, leafEntry, dependencyEntry]
  have hHistory : historyOf g'.logs = t' :: rest := by
    rw [hLogs, historyOf_append, hOld]
    rfl
  have hRecorded : ∀ block, recordedIn block g'.logs =
      recordedIn block g.logs ++ if block = blockNumber then [dependency] else [] := by
    intro block
    rw [hLogs, recordedIn_append, recordedIn_dependencyEntry]
  have hSame : ∀ t'' : BlockTree, t''.block ≠ t'.block →
      (t'' ∈ historyOf g.logs ↔ t'' ∈ rest) := by
    intro t'' hNe
    have hNotHead : t'' ≠ t := by rintro rfl; exact hNe rfl
    rw [hOld, List.mem_cons, or_iff_right hNotHead]
  have hExtends : Extends blockNumber g g' :=
    ⟨⟨_, hLogs, by simp [leafEntry, dependencyEntry]⟩,
      fun block hNe => by simp [hCommitment, hRoots, hNe],
      fun block hNe => by simp [hCommitment, hUpdated, hNe]⟩
  refine ⟨?_, ?_, by rw [← hg']; rfl, by rw [← hg']; rfl, by rw [← hg']; rfl, hExtends, leafIndex,
    hLogs, by rw [hIndex, hOld]⟩
  · cases hWF with
    | cons anchored later _ older =>
        refine h.of_head hHistory hSame anchored later older (by rw [hCommitment]; exact hTree')
          (by rw [hCommitment, hActive', hBlock]; exact hTreeBlock.symm)
          (by rw [hCommitment, hRoots]; exact congrArg (Function.update _ · _) hTreeBlock.symm)
          (by rw [hCommitment, hUpdated]; exact congrArg (Function.update _ · _) hTreeBlock.symm)
          ?_ fun block hNe => ?_
        · rw [hRecorded, if_pos (show t'.block = blockNumber from hTreeBlock),
            h.dependencies t (by rw [hOld]; exact List.mem_cons_self)]
        · have hNe : block ≠ blockNumber := fun hEq => hNe (hEq.trans hTreeBlock.symm)
          rw [hRecorded, if_neg hNe, List.append_nil]
  · rw [hCommitment, hActive', hBlock]

end

/-- What recording a new dependency changes: the dependency key, the commitment, and the logs,
which gain the anchor of the block's tree if it was not open, the new leaf and the
dependency. -/
structure NewDependency (env : Deployment) (blockNumber : ℕ)
    (requestId sourceTrustRoot dependencyKey : Bytes32) (g g' : Gateway) : Prop where
  fresh : g.dependencyRecorded dependencyKey = false
  requests : g'.requests = g.requests
  requestNonce : g'.requestNonce = g.requestNonce
  dependencyRecorded :
    g'.dependencyRecorded = Function.update g.dependencyRecorded dependencyKey true
  active : g'.activeTreeBlock = blockNumber
  «extends» : Extends blockNumber g g'
  logs : ∃ openedRoot : Bytes32, ∃ leafIndex : UInt32,
    g'.logs = g.logs ++
      (if g.activeTreeBlock = blockNumber then []
        else [anchorEntry env blockNumber requestId g.currentTrustRoot openedRoot]) ++
      [leafEntry env blockNumber requestId sourceTrustRoot
          (g.requests requestId).sourceBlockHash leafIndex openedRoot g'.currentTrustRoot,
        dependencyEntry blockNumber requestId sourceTrustRoot dependencyKey
          (g.requests requestId) leafIndex]

/-- `_recordDependency` returns false and changes nothing, or records a new dependency. -/
inductive Recorded (env : Deployment) (blockNumber : ℕ)
    (requestId sourceTrustRoot dependencyKey : Bytes32) (g : Gateway) : Bool → Gateway → Prop
  | known (recorded : g.dependencyRecorded dependencyKey = true) :
      Recorded env blockNumber requestId sourceTrustRoot dependencyKey g false g
  | new {g' : Gateway}
      (change : NewDependency env blockNumber requestId sourceTrustRoot dependencyKey g g') :
      Recorded env blockNumber requestId sourceTrustRoot dependencyKey g true g'

section

variable {env : Deployment} {initialTrustRoot : Bytes32} {g g' : Gateway} {blockNumber : ℕ}
  {requestId sourceTrustRoot dependencyKey : Bytes32} {newDependency : Bool}

/-- Everything a successful `_recordDependency` does. -/
theorem recordDependency_ok (h : Committed env initialTrustRoot g) (hPos : 0 < blockNumber)
    (hActive : g.activeTreeBlock ≤ blockNumber)
    (hOk : recordDependency env blockNumber requestId sourceTrustRoot dependencyKey g =
      .ok (newDependency, g')) :
    Committed env initialTrustRoot g' ∧
      Recorded env blockNumber requestId sourceTrustRoot dependencyKey g newDependency g' := by
  simp only [recordDependency] at hOk
  split at hOk
  · rename_i hKnown
    cases hOk
    exact ⟨h, .known hKnown⟩
  rename_i hFresh
  have hFresh : g.dependencyRecorded dependencyKey = false := by simpa using hFresh
  rcases hActive.eq_or_lt with hSame | hNew
  · rw [openBlockTree_same hSame] at hOk
    simp only at hOk
    split at hOk
    · cases hOk
    rename_i recorded hAppend
    cases hOk
    obtain ⟨hCommitted, hBlock, hRequests, hNonce, hKeys, hExtends, leafIndex, hLogs, -⟩ :=
      appendDependency_ok h hPos hSame hAppend
    exact ⟨hCommitted, .new ⟨hFresh, hRequests, hNonce, hKeys, hBlock, hExtends,
      g.currentTrustRoot, leafIndex, by
      simp [hSame, hLogs]⟩⟩
  · obtain ⟨opened, hOpen, hCommitted, hBlock, hRequests, hNonce, hKeys, hLogs, hExtends⟩ :=
      openBlockTree_new h hNew requestId
    rw [hOpen] at hOk
    simp only at hOk
    split at hOk
    · cases hOk
    rename_i recorded hAppend
    cases hOk
    obtain ⟨hCommitted', hBlock', hRequests', hNonce', hKeys', hExtends', leafIndex, hLogs',
      -⟩ :=
      appendDependency_ok hCommitted hPos hBlock hAppend
    exact ⟨hCommitted', .new ⟨hFresh, hRequests'.trans hRequests, hNonce'.trans hNonce,
      by rw [hKeys', hKeys], hBlock', hExtends.trans hExtends', _, leafIndex, by
        rw [hLogs', hLogs, hRequests, if_neg hNew.ne]⟩⟩

/-- In an open block the dependency joins the newest tree. -/
theorem NewDependency.history_same {t : BlockTree} {rest : List BlockTree}
    (change : NewDependency env blockNumber requestId sourceTrustRoot dependencyKey g g')
    (hSame : g.activeTreeBlock = blockNumber) (hOld : historyOf g.logs = t :: rest) :
    historyOf g'.logs =
      { t with
        dependencies := t.dependencies ++
          [(sourceTrustRoot, (g.requests requestId).sourceBlockHash)] } :: rest := by
  obtain ⟨openedRoot, leafIndex, hLogs⟩ := change.logs
  rw [hLogs, if_pos hSame, List.append_nil, historyOf_append, hOld]
  rfl

/-- In any other block it opens a tree over the current root. -/
theorem NewDependency.history_new
    (change : NewDependency env blockNumber requestId sourceTrustRoot dependencyKey g g')
    (hNew : g.activeTreeBlock ≠ blockNumber) :
    historyOf g'.logs =
      ⟨blockNumber, g.currentTrustRoot,
        [(sourceTrustRoot, (g.requests requestId).sourceBlockHash)]⟩ :: historyOf g.logs := by
  obtain ⟨openedRoot, leafIndex, hLogs⟩ := change.logs
  rw [hLogs, if_neg hNew, historyOf_append, historyOf_append]
  rfl

theorem emit_quiet (g : Gateway) (blockNumber : ℕ) {event : GatewayEvent}
    (hEvent : isTreeEvent event = false) :
    Quiet blockNumber g (g.emit blockNumber event) :=
  ⟨rfl, [⟨blockNumber, event⟩], rfl, by simpa using hEvent⟩

theorem resolve_quiet (g : Gateway) (blockNumber : ℕ) (requestId dependencyKey : Bytes32)
    (newDependency : Bool) :
    Quiet blockNumber g (resolve blockNumber requestId dependencyKey newDependency g) :=
  ⟨rfl, [⟨blockNumber, .requestResolved requestId (g.requests requestId).requester dependencyKey
    newDependency g.currentTrustRoot⟩], rfl, by simp [isTreeEvent]⟩

theorem recordAndResolve_ok {key : Bytes32}
    (hOk : recordAndResolve env blockNumber requestId sourceTrustRoot dependencyKey g =
      .ok (key, newDependency, g')) :
    key = dependencyKey ∧ ∃ recorded,
      recordDependency env blockNumber requestId sourceTrustRoot dependencyKey g =
        .ok (newDependency, recorded) ∧
      g' = resolve blockNumber requestId dependencyKey newDependency recorded := by
  simp only [recordAndResolve] at hOk
  split at hOk
  · cases hOk
  rename_i recorded hRecord
  cases hOk
  exact ⟨rfl, recorded, hRecord, rfl⟩

theorem requestVerification_quiet {sender : Address} {sourceChainId sourceHeight : Uint256}
    {sourceBlockHash requestId : Bytes32}
    (hOk : requestVerification env blockNumber sender sourceChainId sourceHeight sourceBlockHash g =
      .ok (requestId, g')) : Quiet blockNumber g g' := by
  simp only [requestVerification] at hOk
  repeat' split at hOk
  all_goals cases hOk
  exact ⟨rfl, _, rfl, by simp [isTreeEvent]⟩

theorem beginRequest_quiet {requestId : Bytes32} (hOk : beginRequest requestId g = .ok g') :
    Quiet blockNumber g g' := by
  simp only [beginRequest] at hOk
  repeat' split at hOk
  all_goals cases hOk
  exact ⟨rfl, [], by simp, by simp⟩

/-- `verifyPathAndRecord` begins the request, checks the path against the current root, and
then records and resolves. -/
theorem verifyPathAndRecord_ok {requestId baseTrustRoot key : Bytes32}
    {blockHashes : List Bytes32} {witnesses : List Witness} {newDependency : Bool}
    (hOk : verifyPathAndRecord env blockNumber requestId baseTrustRoot blockHashes witnesses g =
      .ok (key, newDependency, g')) :
    ∃ begun event, beginRequest requestId g = .ok begun ∧
      blockHashes.head? = some (begun.requests requestId).sourceBlockHash ∧
      verifyPath env.keccak env.depth begun.currentTrustRoot baseTrustRoot blockHashes witnesses =
        .ok begun.currentTrustRoot ∧
      event = .pathVerificationSucceeded requestId (begun.requests requestId).sourceChainId
        (begun.requests requestId).sourceHeight (begun.requests requestId).sourceBlockHash
        baseTrustRoot blockHashes.length key ∧
      key = computeDependencyKey env.keccak (begun.requests requestId).sourceChainId
        (begun.requests requestId).sourceHeight (begun.requests requestId).sourceBlockHash
        baseTrustRoot ∧
      recordAndResolve env blockNumber requestId baseTrustRoot key (begun.emit blockNumber event) =
        .ok (key, newDependency, g') := by
  simp only [verifyPathAndRecord] at hOk
  split at hOk
  · cases hOk
  rename_i begun hBegin
  split at hOk
  · cases hOk
  rename_i first rest
  split at hOk
  · cases hOk
  rename_i hFirst
  split at hOk
  · cases hOk
  rename_i root hPath
  obtain ⟨rfl, -⟩ := recordAndResolve_ok hOk
  have hRoot := (verifyPath_eq_ok_iff.mp hPath).2.2.1
  rw [hRoot] at hPath
  exact ⟨begun, _, hBegin, by simpa using hFirst, hPath, rfl, rfl, hOk⟩

theorem directVerified_ok {requestId sourceTrustRoot key : Bytes32} {newDependency : Bool}
    (hOk : directVerified env blockNumber requestId sourceTrustRoot g = .ok (key, newDependency, g')) :
    ∃ event, event = .directVerificationSucceeded requestId (g.requests requestId).sourceChainId
        (g.requests requestId).sourceHeight (g.requests requestId).sourceBlockHash
        sourceTrustRoot key ∧
      key = computeDependencyKey env.keccak (g.requests requestId).sourceChainId
        (g.requests requestId).sourceHeight (g.requests requestId).sourceBlockHash
        sourceTrustRoot ∧
      recordAndResolve env blockNumber requestId sourceTrustRoot key (g.emit blockNumber event) =
        .ok (key, newDependency, g') := by
  simp only [directVerified] at hOk
  obtain ⟨rfl, -⟩ := recordAndResolve_ok hOk
  exact ⟨_, rfl, rfl, hOk⟩

end

end TrustMap.Contracts.TrustMapGateway
