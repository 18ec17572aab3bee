import TrustMap.Contracts.CompletedBlocks

/-!
Every recorded dependency stays provable. A leaf of a tree has its sibling path as a witness,
the anchor of each later tree continues the path from the root of the tree before it, and the
last root is the current one.
-/

namespace TrustMap.Contracts.TrustMapGateway

open PathProofVerifier TrustRootCommitment Merkle

/-- The sibling path of a leaf, as a witness. -/
def BlockTree.witness (env : Deployment) (t : BlockTree) (index : ℕ) : Witness where
  leafIndex := UInt32.ofNat index
  siblings := siblingPath (hashPair env.keccak) (padded 0 (t.leaves env)) 0 index env.depth.levels

variable {env : Deployment}

/-- The witness of a leaf reconstructs the root of its tree. -/
theorem BlockTree.computeRoot_witness {t : BlockTree} (index : ℕ) (preimage : Bytes32 × Bytes32)
    (hFits : (t.leaves env).length ≤ 2 ^ env.depth.levels)
    (hLeaf : (t.preimages env)[index]? = some preimage) :
    computeRoot env.keccak env.depth (paperLeaf env.keccak preimage.1 preimage.2)
      (t.witness env index) = .ok (t.root env) := by
  have hGet : (t.leaves env)[index]? = some (paperLeaf env.keccak preimage.1 preimage.2) := by
    simp [BlockTree.leaves, List.getElem?_map, hLeaf]
  have hIndex : index < 2 ^ env.depth.levels :=
    (List.getElem?_eq_some_iff.mp hGet).1.trans_le hFits
  have hPow : 2 ^ env.depth.levels ≤ 2 ^ 32 :=
    Nat.pow_le_pow_right (by decide) env.depth.levels_le
  have hNat : (UInt32.ofNat index).toNat = index := by
    simpa using Nat.mod_eq_of_lt (hIndex.trans_le hPow)
  have hWalk := walk_siblingPath (hashPair env.keccak) (padded 0 (t.leaves env)) 0 index
    env.depth.levels
  rw [Nat.zero_add, Nat.div_eq_of_lt hIndex, subroot_zero, padded, List.getD, hGet,
    Option.getD_some] at hWalk
  refine computeRoot_eq_ok_iff.mpr ⟨siblingPath_length _ _ _ _ _, ?_, ?_⟩
  · exact hNat.trans_lt hIndex
  · rw [BlockTree.witness, hNat, hWalk]
    rfl

/-- The hop through the anchor of a tree. -/
def BlockTree.anchorHop (env : Deployment) (t : BlockTree) : Bytes32 × Witness :=
  (env.blockhash (t.block - 1), t.witness env 0)

variable {initialTrustRoot : Bytes32}

/-- The anchors of the newer trees lead from the root of a tree to the root of the history. -/
theorem pathRoot_anchors {t : BlockTree} {newer older : List BlockTree}
    (hWF : WellFormed env initialTrustRoot (newer ++ t :: older)) :
    pathRoot env.keccak env.depth (t.root env) (newer.reverse.map (BlockTree.anchorHop env)) =
      .ok (historyRoot env initialTrustRoot (newer ++ t :: older)) := by
  induction newer with
  | nil => rfl
  | cons t' newer ih =>
      cases hWF with
      | cons anchored _ fits older =>
          rw [List.reverse_cons, List.map_append, pathRoot_append_eq_ok_iff]
          refine ⟨_, ih older, ?_⟩
          rw [List.map_cons, List.map_nil, pathRoot_cons_eq_ok_iff]
          refine ⟨t'.root env, ?_, rfl⟩
          have hAnchor := BlockTree.computeRoot_witness 0 _ fits rfl
          rwa [anchored] at hAnchor

theorem WellFormed.suffix {newer rest : List BlockTree}
    (hWF : WellFormed env initialTrustRoot (newer ++ rest)) :
    WellFormed env initialTrustRoot rest := by
  induction newer with
  | nil => exact hWF
  | cons t newer ih =>
      cases hWF with
      | cons _ _ _ older => exact ih older

/-- The blocks whose trees a log opens, in order. -/
def openedBlocks (logs : List LogEntry) : List ℕ :=
  logs.filterMap fun entry =>
    match entry.event with
    | .trustRootUpdated _ _ _ _ _ true => some entry.blockNumber
    | _ => none

/-- Reading more entries keeps a dependency in its tree and puts the trees they open in front
of it. -/
theorem foldl_readEntry_split {dependency : Bytes32 × Bytes32} (logs : List LogEntry)
    (newer older : List BlockTree) (t : BlockTree) (hMem : dependency ∈ t.dependencies) :
    ∃ newer' t', logs.foldl readEntry (newer ++ t :: older) = newer' ++ t' :: older ∧
      dependency ∈ t'.dependencies ∧
      newer'.reverse.map BlockTree.block =
        newer.reverse.map BlockTree.block ++ openedBlocks logs := by
  induction logs generalizing newer t with
  | nil => exact ⟨newer, t, rfl, hMem, by simp [openedBlocks]⟩
  | cons entry logs ih =>
      rw [List.foldl_cons]
      obtain ⟨blockNumber, event⟩ := entry
      cases event with
      | trustRootUpdated requestId leafIndex leaf old new isAnchor =>
          cases isAnchor with
          | false => exact ih _ _ hMem
          | true =>
              obtain ⟨newer', t', hFold, hMem', hBlocks⟩ :=
                ih (⟨blockNumber, old, []⟩ :: newer) t hMem
              exact ⟨newer', t', hFold, hMem', by simpa [openedBlocks] using hBlocks⟩
      | dependencyRecorded key requestId chainId height blockHash root leafIndex =>
          cases newer with
          | nil =>
              exact ih [] { t with dependencies := t.dependencies ++ [(root, blockHash)] }
                (List.mem_append_left _ hMem)
          | cons head newer =>
              obtain ⟨newer', t', hFold, hMem', hBlocks⟩ :=
                ih ({ head with
                  dependencies := head.dependencies ++ [(root, blockHash)] } :: newer) t hMem
              exact ⟨newer', t', hFold, hMem', by simpa [openedBlocks] using hBlocks⟩
      | _ => exact ih _ _ hMem

/-- A logged dependency belongs to a tree of the history, behind the trees opened later. -/
theorem historyOf_split (before after : List LogEntry) {entry : LogEntry}
    {dependency : Bytes32 × Bytes32} (hEntry : entry.dependency = some dependency) :
    ∃ newer t older, historyOf (before ++ entry :: after) = newer ++ t :: older ∧
      dependency ∈ t.dependencies ∧
      newer.reverse.map BlockTree.block = openedBlocks after := by
  obtain ⟨blockNumber, event⟩ := entry
  cases event with
  | dependencyRecorded key requestId chainId height blockHash root leafIndex =>
      obtain rfl : (root, blockHash) = dependency := Option.some.inj hEntry
      rw [historyOf_append, List.foldl_cons]
      have hRead : ∃ t older, readEntry (historyOf before) ⟨blockNumber,
          .dependencyRecorded key requestId chainId height blockHash root leafIndex⟩ =
            t :: older ∧ (root, blockHash) ∈ t.dependencies := by
        cases historyOf before with
        | nil => exact ⟨_, _, rfl, by simp⟩
        | cons t older => exact ⟨_, _, rfl, by simp⟩
      obtain ⟨t, older, hRead, hMem⟩ := hRead
      obtain ⟨newer', t', hFold, hMem', hBlocks⟩ :=
        foldl_readEntry_split after [] older t hMem
      rw [List.nil_append] at hFold
      exact ⟨newer', t', older, by rw [hRead, hFold], hMem', by simpa using hBlocks⟩
  | _ => cases hEntry

/-- A logged dependency is provable against the current root. -/
theorem Committed.provable {g : Gateway} (h : Committed env initialTrustRoot g)
    {before after : List LogEntry} {entry : LogEntry} (hLogs : g.logs = before ++ entry :: after)
    {sourceTrustRoot sourceBlockHash : Bytes32}
    (hEntry : entry.dependency = some (sourceTrustRoot, sourceBlockHash)) :
    ∃ witnesses, verifyPath env.keccak env.depth g.currentTrustRoot sourceTrustRoot
        (sourceBlockHash :: (openedBlocks after).map fun block => env.blockhash (block - 1))
        witnesses = .ok g.currentTrustRoot ∧
      witnesses.length = 1 + (openedBlocks after).length := by
  obtain ⟨newer, t, older, hHistory, hMem, hBlocks⟩ :=
    historyOf_split before after hEntry
  rw [← hLogs] at hHistory
  have hWF := h.wellFormed
  rw [hHistory] at hWF
  have hFits : (t.leaves env).length ≤ 2 ^ env.depth.levels := by
    cases hWF.suffix with
    | cons _ _ fits _ => exact fits
  obtain ⟨index, hIndex⟩ := List.mem_iff_getElem?.mp hMem
  have hFirst := BlockTree.computeRoot_witness (index + 1) (sourceTrustRoot, sourceBlockHash) hFits
    (by simpa [BlockTree.preimages] using hIndex)
  refine ⟨t.witness env (index + 1) :: newer.reverse.map fun t => t.witness env 0, ?_, ?_⟩
  · have hZip : ((openedBlocks after).map fun block => env.blockhash (block - 1)).zip
        (newer.reverse.map fun t => t.witness env 0) =
        newer.reverse.map (BlockTree.anchorHop env) := by
      rw [← hBlocks, List.map_map, List.zip_map']
      rfl
    refine verifyPath_eq_ok_iff.mpr ⟨List.cons_ne_nil _ _, by simp [← hBlocks], rfl, ?_⟩
    rw [List.zip_cons_cons, hZip, pathRoot_cons_eq_ok_iff, h.root, hHistory]
    exact ⟨t.root env, hFirst, pathRoot_anchors hWF⟩
  · rw [List.length_cons, List.length_map, ← hBlocks, List.length_map, Nat.add_comm]

end TrustMap.Contracts.TrustMapGateway

namespace TrustMap.Contracts.Chain

open TrustMapGateway PathProofVerifier

/-- A dependency that is logged at some point of a run is provable there and, once its
transaction is complete, at every later point: the path starts at the dependency and goes
through the anchor of each tree opened since, so its length is one more than their number. -/
theorem dependency_stays_provable (env : Deployment) (initialTrustRoot : Bytes32) (start : ℕ)
    (hStart : 0 < start) (first second : List Action) :
    let c := run env (deploy env initialTrustRoot start) first
    let c' := run env c second
    ∀ before entry after sourceTrustRoot sourceBlockHash,
      c.gateway.logs = before ++ entry :: after →
      entry.dependency = some (sourceTrustRoot, sourceBlockHash) →
      c.stack = [] ∨ second = [] →
      ∃ later, c'.gateway.logs = before ++ entry :: later ∧
        ∃ witnesses, verifyPath env.keccak env.depth c'.gateway.currentTrustRoot sourceTrustRoot
            (sourceBlockHash :: (openedBlocks later).map fun block => env.blockhash (block - 1))
            witnesses = .ok c'.gateway.currentTrustRoot ∧
          witnesses.length = 1 + (openedBlocks later).length := by
  intro c c' before entry after sourceTrustRoot sourceBlockHash hLogs hEntry hDone
  have h : Consistent env initialTrustRoot c.number c.endOf c.gateway :=
    (run_consistent env initialTrustRoot hStart first).current
  have h' : Committed env initialTrustRoot c'.gateway := by
    have hRun := (run_consistent env initialTrustRoot hStart (first ++ second)).current.committed
    rwa [run_append] at hRun
  have hPrefix : c.gateway.logs <+: c'.gateway.logs := by
    rcases hDone with hStack | rfl
    · exact run_logs_prefix hStack h second
    · exact List.prefix_rfl
  obtain ⟨more, hMore⟩ := hPrefix
  have hSplit : c'.gateway.logs = before ++ entry :: (after ++ more) := by
    rw [← hMore, hLogs, List.append_assoc, List.cons_append]
  exact ⟨after ++ more, hSplit, h'.provable hSplit hEntry⟩

/-- Another request by the same requester, verified directly in the next block. -/
def toyLater : List Action :=
  [.nextBlock,
    .requestVerification 7 5 4 701,
    .verifyDirectAndRecord (computeRequestId toyDeployment 7 1 5 4 701) [],
    .verifierReturns 98]

theorem dependency_stays_provable_toy :
    let c' := run toyDeployment (run toyDeployment (deploy toyDeployment 0 1) toyActions) toyLater
    ∃ witnesses, verifyPath toyKeccak toyDeployment.depth c'.gateway.currentTrustRoot 99
        [700, 1001] witnesses = .ok c'.gateway.currentTrustRoot ∧ witnesses.length = 2 := by
  have hFacts :
      let c := run toyDeployment (deploy toyDeployment 0 1) toyActions
      let c' := run toyDeployment c toyLater
      c.stack = [] ∧
        c.gateway.logs = c.gateway.logs.take 4 ++
          ⟨1, .dependencyRecorded (computeDependencyKey toyKeccak 5 3 700 99)
            (computeRequestId toyDeployment 7 0 5 3 700) 5 3 700 99 1⟩ ::
          c.gateway.logs.drop 5 ∧
        openedBlocks (c'.gateway.logs.drop 5) = [2] := by
    decide +kernel
  have h := dependency_stays_provable toyDeployment 0 1 (by decide) toyActions toyLater
  generalize run toyDeployment (deploy toyDeployment 0 1) toyActions = c at hFacts h ⊢
  obtain ⟨hStack, hLogs, hOpened⟩ := hFacts
  obtain ⟨later, hLater, witnesses, hPath, hLength⟩ := h _ _ _ 99 700 hLogs rfl (.inl hStack)
  have hTake : (c.gateway.logs.take 4).length = 4 := by
    have hLen := congrArg List.length hLogs
    simp only [List.length_append, List.length_cons, List.length_take, List.length_drop] at hLen ⊢
    omega
  have hDrop : (run toyDeployment c toyLater).gateway.logs.drop 5 = later := by
    rw [hLater, List.drop_append, hTake]
    simp [hTake]
  rw [← hDrop, hOpened] at hPath hLength
  exact ⟨witnesses, hPath, hLength⟩

end TrustMap.Contracts.Chain
