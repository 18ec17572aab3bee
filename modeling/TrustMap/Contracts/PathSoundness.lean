import Mathlib.Tactic.IntervalCases
import TrustMap.Contracts.Network

/-!
Soundness of paths across chains. If direct verifiers are honest, every dependency ever recorded,
directly or by a path, names the hash of a completed block and the TrustRoot at its end; so an
accepted path leads from leaf to leaf through trees that were really committed.
-/

namespace TrustMap.Contracts.TrustMapGateway

open PathProofVerifier

variable {env : Deployment} {initialTrustRoot : Bytes32} {g g' : Gateway} {blockNumber : ℕ}

variable {d : Bytes32 × Bytes32}

/-- The dependency entries of a quiet step are old. -/
theorem Quiet.dependency_entry (h : Quiet blockNumber g g') {entry : LogEntry}
    (hEntry : entry ∈ g'.logs) (hSome : entry.dependency = some d) : entry ∈ g.logs := by
  obtain ⟨more, hLogs, hMore⟩ := h.logs
  rw [hLogs] at hEntry
  rcases List.mem_append.mp hEntry with hOld | hNew
  · exact hOld
  · rw [dependency_of_not_tree (hMore entry hNew).2] at hSome
    cases hSome

/-- Recording adds one dependency entry, with the context of the request. -/
theorem Recorded.dependency_entry {requestId sourceTrustRoot key : Bytes32} {newDependency : Bool}
    (h : Recorded env blockNumber requestId sourceTrustRoot key g newDependency g')
    {entry : LogEntry} (hEntry : entry ∈ g'.logs) (hSome : entry.dependency = some d) :
    entry ∈ g.logs ∨ ∃ leafIndex, entry =
      dependencyEntry blockNumber requestId sourceTrustRoot key (g.requests requestId)
        leafIndex := by
  cases h with
  | known => exact .inl hEntry
  | new change =>
      obtain ⟨openedRoot, leafIndex, hLogs⟩ := change.logs
      rw [hLogs] at hEntry
      rcases List.mem_append.mp hEntry with hBefore | hAfter
      · rcases List.mem_append.mp hBefore with hOld | hAnchor
        · exact .inl hOld
        · split at hAnchor
          · cases hAnchor
          · rw [List.mem_singleton.mp hAnchor] at hSome
            cases hSome
      · simp only [List.mem_cons, List.not_mem_nil, or_false] at hAfter
        rcases hAfter with rfl | rfl
        · cases hSome
        · exact .inr ⟨leafIndex, rfl⟩

/-- The same for recording and resolving. -/
theorem recordAndResolve_dependency_entry {requestId sourceTrustRoot key key' : Bytes32}
    {newDependency : Bool} (h : Committed env initialTrustRoot g) (hPos : 0 < blockNumber)
    (hActive : g.activeTreeBlock ≤ blockNumber)
    (hOk : recordAndResolve env blockNumber requestId sourceTrustRoot key g = .ok (key', newDependency, g'))
    {entry : LogEntry} (hEntry : entry ∈ g'.logs) (hSome : entry.dependency = some d) :
    entry ∈ g.logs ∨ ∃ leafIndex, entry =
      dependencyEntry blockNumber requestId sourceTrustRoot key (g.requests requestId)
        leafIndex := by
  obtain ⟨-, recorded, hRecord, rfl⟩ := recordAndResolve_ok hOk
  have hOld := (resolve_quiet recorded blockNumber requestId key newDependency).dependency_entry
    hEntry hSome
  exact (recordDependency_ok h hPos hActive hRecord).2.dependency_entry hOld hSome

/-- The dependencies of the trees are recorded. -/
theorem Committed.mem_recorded (h : Committed env initialTrustRoot g) {t : BlockTree}
    (hTree : t ∈ historyOf g.logs) (hMem : d ∈ t.dependencies) : d ∈ recorded g.logs := by
  rw [← h.dependencies t hTree] at hMem
  obtain ⟨entry, hEntry, hSome⟩ := List.mem_filterMap.mp hMem
  exact List.mem_filterMap.mpr ⟨entry, (List.mem_filter.mp hEntry).1, hSome⟩

/-- No hop reconstructs the zero root. -/
theorem computeRoot_ne_zero {keccak : Keccak} {depth : TreeDepth} {root blockHash next : Bytes32}
    {witness : Witness}
    (hKeccak : CollisionFree keccak (pairInputs (hopHashed keccak root blockHash witness)))
    (hHop : computeRoot keccak depth (paperLeaf keccak root blockHash) witness = .ok next) :
    next ≠ 0 := by
  obtain ⟨hLength, -, rfl⟩ := computeRoot_eq_ok_iff.mp hHop
  have hSiblings : witness.siblings ≠ [] := by
    apply List.ne_nil_of_length_pos
    rw [hLength]
    exact depth.levels_pos
  obtain ⟨pair, hPair, hEq⟩ := Merkle.exists_walkPairs_of_ne_nil (hashPair keccak)
    witness.leafIndex.toNat (paperLeaf keccak root blockHash) hSiblings
  rw [hEq]
  exact hKeccak.hashPair_ne_zero (List.mem_cons_of_mem _ hPair)

/-- A hop that reconstructs the root of a Gateway deployed with root zero opens a leaf of its
newest tree. -/
theorem Committed.hop_leaf (h : Committed env 0 g) {root blockHash : Bytes32} {witness : Witness}
    (hKeccak : CollisionFree env.keccak
      (pairInputs ((historyOf g.logs).flatMap (BlockTree.hashed env) ++
        hopHashed env.keccak root blockHash witness)))
    (hHop : computeRoot env.keccak env.depth (paperLeaf env.keccak root blockHash) witness =
      .ok g.currentTrustRoot) :
    ∃ t, (historyOf g.logs).head? = some t ∧
      (t.preimages env)[witness.leafIndex.toNat]? = some (root, blockHash) := by
  have hNonzero : g.currentTrustRoot ≠ 0 :=
    computeRoot_ne_zero (hKeccak.mono (pairInputs_mono (List.subset_append_right _ _))) hHop
  have hRoot := h.root
  cases hHistory : historyOf g.logs with
  | nil =>
      rw [hHistory] at hRoot
      exact absurd hRoot hNonzero
  | cons t rest =>
      rw [hHistory] at hRoot hKeccak
      rw [hRoot] at hHop
      refine ⟨t, rfl, BlockTree.hop_leaf (hKeccak.mono (pairInputs_mono ?_)) hHop⟩
      rw [List.flatMap_cons, List.append_assoc]
      intro p hp
      rcases List.mem_append.mp hp with hTree | hUsed
      · exact List.mem_append_left _ hTree
      · exact List.mem_append_right _ (List.mem_append_right _ hUsed)

end TrustMap.Contracts.TrustMapGateway

namespace TrustMap.Contracts.Network

open TrustMapGateway PathProofVerifier

variable {ι : Type*} {net : Network ι} {w : World ι} {used : List (Bytes32 × Bytes32)}

/-- Every dependency recorded by a Gateway is that of a completed block. -/
def GenuineLogs (net : Network ι) (w : World ι) (g : Gateway) : Prop :=
  ∀ entry ∈ g.logs, ∀ d, entry.dependency = some d → net.Genuine w d.1 d.2

/-- All Gateways hold genuine dependencies, now, after any revert and at the end of every
completed block; the trees at the end of completed blocks are among the given hashed pairs. -/
structure Sound (net : Network ι) (w : World ι) (used : List (Bytes32 × Bytes32)) : Prop where
  consistent : ∀ c, Chain.Throughout
    (Chain.Consistent (net.deployment c) 0 (w c).number (w c).endOf) (w c)
  completed : ∀ c, Chain.Completed (net.deployment c) 0 (net.start c) (w c)
  current : ∀ c, Chain.Throughout (net.GenuineLogs w) (w c)
  ended : ∀ c n, n < (w c).number → net.GenuineLogs w ((w c).endOf n)
  hashed : ∀ c n, n < (w c).number → net.treesHashed c ((w c).endOf n) ⊆ used

/-- The preimages of every leaf of a tree are genuine: an anchor holds the root and the hash of
the block before it. -/
theorem GenuineLogs.preimage {g : Gateway} (hLogs : net.GenuineLogs w g) {c : ι} {n : ℕ}
    (hNumber : n ≤ (w c).number)
    (hConsistent : Chain.Consistent (net.deployment c) 0 n (w c).endOf g) {t : BlockTree} (hTree : t ∈ historyOf g.logs)
    {p : Bytes32 × Bytes32} (hMem : p ∈ t.preimages (net.deployment c)) :
    net.Genuine w p.1 p.2 := by
  rcases List.mem_cons.mp hMem with rfl | hDependency
  · have hPos := hConsistent.committed.wellFormed.block_pos t hTree
    have hLe := hConsistent.committed.wellFormed.block_le t hTree
    rw [← hConsistent.committed.active] at hLe
    have hBlock := hConsistent.active_le
    exact ⟨c, t.block - 1, by omega, rfl, (hConsistent.anchored t hTree).symm⟩
  · obtain ⟨entry, hEntry, hSome⟩ :=
      List.mem_filterMap.mp (hConsistent.committed.mem_recorded hTree hDependency)
    exact hLogs entry hEntry p hSome

/-- The Gateway at the end of a completed block with a root other than zero. -/
theorem Sound.endOf_consistent (h : net.Sound w used) {c : ι} {n : ℕ} (hBlock : n < (w c).number)
    (hRoot : ((w c).endOf n).currentTrustRoot ≠ 0) :
    Chain.Consistent (net.deployment c) 0 n (w c).endOf ((w c).endOf n) := by
  rcases Nat.lt_or_ge n (net.start c) with hBefore | hAfter
  · rw [(h.completed c).deployed n hBefore] at hRoot
    exact absurd rfl hRoot
  · exact (h.completed c).consistent n hAfter hBlock

/-- A hop opens a leaf of the newest tree of a Gateway, with a genuine preimage. -/
def OpensLeaf (net : Network ι) (c : ι) (g : Gateway) (root : Bytes32)
    (hop : Bytes32 × Witness) : Prop :=
  ∃ t, (historyOf g.logs).head? = some t ∧ t.root (net.deployment c) = g.currentTrustRoot ∧
    (t.preimages (net.deployment c))[hop.2.leafIndex.toNat]? = some (root, hop.1)

theorem GenuineLogs.hop {g : Gateway} (hLogs : net.GenuineLogs w g) {c : ι} {n : ℕ}
    (hNumber : n ≤ (w c).number)
    (hConsistent : Chain.Consistent (net.deployment c) 0 n (w c).endOf g) {root : Bytes32} {hop : Bytes32 × Witness}
    (hKeccak : CollisionFree net.keccak
      (pairInputs (net.treesHashed c g ++ hopHashed net.keccak root hop.1 hop.2)))
    (hHop : computeRoot net.keccak net.depth (paperLeaf net.keccak root hop.1) hop.2 =
      .ok g.currentTrustRoot) :
    net.OpensLeaf c g root hop ∧ net.Genuine w root hop.1 := by
  obtain ⟨t, hHead, hLeaf⟩ := Committed.hop_leaf hConsistent.committed hKeccak hHop
  have hMem : t ∈ historyOf g.logs := List.mem_of_mem_head? hHead
  have hRoot : t.root (net.deployment c) = g.currentTrustRoot := by
    rw [hConsistent.committed.root]
    cases hHistory : historyOf g.logs with
    | nil => rw [hHistory] at hHead; cases hHead
    | cons t' rest =>
        rw [hHistory] at hHead
        cases hHead
        rfl
  exact ⟨⟨t, hHead, hRoot, hLeaf⟩,
    hLogs.preimage hNumber hConsistent hMem (List.mem_of_getElem? hLeaf)⟩

/-- What an accepted path shows about its hop number `i`: the root reached before it and its block
hash are genuine, and they open a leaf, of the home Gateway for the last hop and of a completed
block with the next hash for any other. -/
structure HopSound (net : Network ι) (w : World ι) (home : ι) (base : Bytes32)
    (hops : List (Bytes32 × Witness)) (i : ℕ) (hop : Bytes32 × Witness) (root : Bytes32) :
    Prop where
  reached : pathRoot net.keccak net.depth base (hops.take i) = .ok root
  genuine : net.Genuine w root hop.1
  last : i + 1 = hops.length → net.OpensLeaf home (w home).gateway root hop
  inner : ∀ next, hops[i + 1]? = some next → ∃ c n, n < (w c).number ∧
    net.blockhash c n = next.1 ∧ net.OpensLeaf c ((w c).endOf n) root hop

theorem pathRoot_take_succ {keccak : Keccak} {depth : TreeDepth} {base next root : Bytes32}
    {hop : Bytes32 × Witness} {hops : List (Bytes32 × Witness)} {i : ℕ}
    (hHop : computeRoot keccak depth (paperLeaf keccak base hop.1) hop.2 = .ok next)
    (hRest : pathRoot keccak depth next (hops.take i) = .ok root) :
    pathRoot keccak depth base ((hop :: hops).take (i + 1)) = .ok root := by
  rw [List.take_succ_cons, pathRoot_cons_eq_ok_iff]
  exact ⟨next, hHop, hRest⟩

/-- The path check is sound, hop by hop from the last one backwards: the root a hop starts from is
the end of a block, and the hop before it reconstructs that root. -/
theorem Sound.path (h : net.Sound w used) {home : ι} {base : Bytes32}
    {hops : List (Bytes32 × Witness)}
    (hKeccak : CollisionFree net.keccak (pairInputs
      (used ++ net.treesHashed home (w home).gateway ++ pathHashed net.keccak net.depth base hops)))
    (hPath : pathRoot net.keccak net.depth base hops = .ok (w home).gateway.currentTrustRoot) :
    ∀ i hop, hops[i]? = some hop → ∃ root, net.HopSound w home base hops i hop root := by
  induction hops generalizing base with
  | nil => simp
  | cons first hops ih =>
      obtain ⟨next, hHop, hRest⟩ := pathRoot_cons_eq_ok_iff.mp hPath
      have hHashed : pathHashed net.keccak net.depth base (first :: hops) =
          hopHashed net.keccak base first.1 first.2 ++
            pathHashed net.keccak net.depth next hops := by
        rw [pathHashed, hHop]
      rw [hHashed] at hKeccak
      have hLater := @ih next (hKeccak.mono (pairInputs_mono (by
        intro p hp
        simp only [List.mem_append] at hp ⊢
        tauto))) hRest
      intro i hop hGet
      cases i with
      | succ i =>
          obtain ⟨root, hSound⟩ := hLater i hop (by simpa using hGet)
          exact ⟨root, pathRoot_take_succ hHop hSound.reached, hSound.genuine,
            fun hLast => hSound.last (by simpa using hLast),
            fun after hAfter => hSound.inner after (by simpa using hAfter)⟩
      | zero =>
          obtain rfl : first = hop := by simpa using hGet
          cases hops with
          | nil =>
              -- The only hop is checked against the home Gateway itself.
              obtain rfl : next = (w home).gateway.currentTrustRoot := by simpa using hRest
              obtain ⟨hOpens, hGenuine⟩ := (h.current home).current.hop le_rfl
                (h.consistent home).current (hKeccak.mono (pairInputs_mono (by
                  intro p hp
                  simp only [List.mem_append] at hp ⊢
                  tauto))) hHop
              exact ⟨base, rfl, hGenuine, fun _ => hOpens, fun after hAfter => by simp at hAfter⟩
          | cons second hops =>
              obtain ⟨root, hSecond⟩ := hLater 0 second rfl
              obtain rfl : next = root := by simpa using hSecond.reached
              obtain ⟨c, n, hBlock, hHash, hRoot⟩ := hSecond.genuine
              rw [← hRoot] at hHop
              have hNonzero : ((w c).endOf n).currentTrustRoot ≠ 0 :=
                computeRoot_ne_zero (hKeccak.mono (pairInputs_mono (by
                  intro p hp
                  simp only [List.mem_append]
                  exact .inr (.inl hp)))) hHop
              obtain ⟨hOpens, hGenuine⟩ := (h.ended c n hBlock).hop hBlock.le
                (h.endOf_consistent hBlock hNonzero) (hKeccak.mono (pairInputs_mono (by
                  intro p hp
                  have hEnded := h.hashed c n hBlock (a := p)
                  simp only [List.mem_append] at hp ⊢
                  tauto))) hHop
              refine ⟨base, rfl, hGenuine, fun hLast => by simp at hLast, fun after hAfter => ?_⟩
              obtain rfl : second = after := by simpa using hAfter
              exact ⟨c, n, hBlock, hHash, hOpens⟩

/-- The block hash a path starts with is that of its first hop. -/
theorem Sound.verifyPath_genuine (h : net.Sound w used) {home : ι} {base root hash : Bytes32}
    {blockHashes : List Bytes32} {witnesses : List Witness}
    (hKeccak : CollisionFree net.keccak (pairInputs (used ++
      net.treesHashed home (w home).gateway ++
      pathHashed net.keccak net.depth base (blockHashes.zip witnesses))))
    (hFirst : blockHashes.head? = some hash)
    (hPath : verifyPath net.keccak net.depth (w home).gateway.currentTrustRoot base blockHashes
      witnesses = .ok root) : net.Genuine w base hash := by
  obtain ⟨-, hLength, -, hRoot⟩ := verifyPath_eq_ok_iff.mp hPath
  cases blockHashes with
  | nil => cases hFirst
  | cons first blockHashes =>
      cases witnesses with
      | nil => cases hLength
      | cons witness witnesses =>
          cases hFirst
          obtain ⟨reached, hSound⟩ := h.path hKeccak hRoot 0 (hash, witness) rfl
          obtain rfl : base = reached := by simpa using hSound.reached
          exact hSound.genuine

/-- Recording a genuine dependency after a quiet step keeps the logs genuine. -/
theorem GenuineLogs.record {env : Deployment} {endOf : ℕ → Gateway} {g emitted g' : Gateway} {n : ℕ}
    {requestId sourceTrustRoot key key' : Bytes32} {newDependency : Bool}
    (h : net.GenuineLogs w g) (hQuiet : Quiet n g emitted)
    (hEmitted : Chain.Consistent env 0 n endOf emitted)
    (hRecord : recordAndResolve env n requestId sourceTrustRoot key emitted =
      .ok (key', newDependency, g'))
    (hNew : net.Genuine w sourceTrustRoot (emitted.requests requestId).sourceBlockHash) :
    net.GenuineLogs w g' := by
  intro entry hEntry d hSome
  rcases recordAndResolve_dependency_entry hEmitted.committed hEmitted.pos hEmitted.active_le
      hRecord hEntry hSome with hOld | ⟨leafIndex, rfl⟩
  · exact h entry (hQuiet.dependency_entry hOld hSome) d hSome
  · obtain rfl := Option.some.inj hSome
    exact hNew

theorem GenuineLogs.step [DecidableEq ι] {g : Gateway} (h : net.GenuineLogs w g)
    (a : ι × Chain.Action) : net.GenuineLogs (net.step w a) g :=
  fun entry hEntry d hSome => (h entry hEntry d hSome).step a

section Step

variable (h : net.Sound w used) (a : ι × Chain.Action)
    (hKeccak : CollisionFree net.keccak (pairInputs (used ++ net.actionHashed w a)))
    (hHonest : ∀ root context, a.2 = .verifierReturns root →
      Chain.asked (w a.1) = some context → net.Genuine w root context.2.2)
    (hFrames : Chain.KeepsFrames (w a.1).gateway (w a.1).stack)
include h hKeccak hHonest hFrames

/-- The dependencies of a Gateway after an action of its chain are genuine. -/
theorem Sound.current_step :
    net.GenuineLogs w (Chain.step (net.deployment a.1) (w a.1) a.2).gateway := by
  obtain ⟨c, action⟩ := a
  have hOld := h.current c
  have hConsistent := (h.consistent c).current
  have hTransition := Chain.step_transition (net.deployment c) (w c) action
  generalize Chain.step (net.deployment c) (w c) action = c' at hTransition ⊢
  cases hTransition with
  | idle | nextBlock stack | enter | leave stack => exact hOld.current
  | reverted stack => exact hOld.saved _ (by rw [stack]; exact List.mem_cons_self)
  | requested ok =>
      intro entry hEntry d hSome
      exact hOld.current entry ((requestVerification_quiet ok).dependency_entry hEntry hSome) d
        hSome
  | begun ok =>
      intro entry hEntry d hSome
      have hQuiet : Quiet (w c).number _ _ := beginRequest_quiet ok
      exact hOld.current entry (hQuiet.dependency_entry hEntry hSome) d hSome
  | path ok =>
      simp only [actionHashed, ok, ← List.append_assoc] at hKeccak
      obtain ⟨begun, event, hBegin, hFirst, hPath, hEvent, -, hRecord⟩ :=
        verifyPathAndRecord_ok ok
      have hTree : isTreeEvent event = false := by rw [hEvent]; rfl
      have hQuiet : Quiet (w c).number (w c).gateway (begun.emit (w c).number event) :=
        (beginRequest_quiet hBegin).trans (emit_quiet begun (w c).number hTree)
      have hEmitted := hConsistent.quiet hQuiet
      have hRoot : begun.currentTrustRoot = (w c).gateway.currentTrustRoot :=
        congrArg (fun commitment => commitment.currentTrustRoot) hQuiet.commitment
      rw [hRoot] at hPath
      exact hOld.current.record hQuiet hEmitted hRecord (h.verifyPath_genuine hKeccak hFirst hPath)
  | direct stack ok =>
      obtain ⟨event, hEvent, -, hRecord⟩ := directVerified_ok ok
      have hTree : isTreeEvent event = false := by rw [hEvent]; rfl
      have hQuiet := emit_quiet (w c).gateway (w c).number hTree
      have hEmitted := hConsistent.quiet hQuiet
      refine hOld.current.record hQuiet hEmitted hRecord ?_
      -- The verifier answered about the context of the request when it was called.
      have hGenuine := hHonest _ _ rfl (by rw [Chain.asked, stack])
      simp only [stack] at hFrames
      have hContext := (hFrames.2.1 _ hFrames.1).2
      have hHash : ((w c).gateway.requests _).sourceBlockHash = _ :=
        congrArg (fun context => context.2.2) hContext
      exact hHash.symm ▸ hGenuine

/-- One action keeps the invariant, adding the pairs it hashes. -/
theorem Sound.step [DecidableEq ι]
    (hConsistent : ∀ c, Chain.Throughout (Chain.Consistent (net.deployment c) 0
      (net.step w a c).number (net.step w a c).endOf) (net.step w a c))
    (hCompleted : ∀ c, Chain.Completed (net.deployment c) 0 (net.start c) (net.step w a c)) :
    net.Sound (net.step w a) (used ++ net.actionHashed w a) := by
  have hCurrent := (h.current_step a hKeccak hHonest hFrames).step a
  have hSelf : net.step w a a.1 = Chain.step (net.deployment a.1) (w a.1) a.2 := by
    rw [Network.step, Function.update_self]
  have hOther : ∀ c, c ≠ a.1 → net.step w a c = w c := by
    intro c hNe
    rw [Network.step, Function.update_of_ne hNe]
  have hLift : ∀ c, Chain.Throughout (net.GenuineLogs (net.step w a)) (w c) := by
    intro c
    exact ⟨(h.current c).current.step a, fun frame hFrame => ((h.current c).saved frame hFrame).step a⟩
  have hBlocks : ∀ c n, n < (net.step w a c).number →
      n < (w c).number ∨ (c = a.1 ∧ (net.step w a c).endOf n = (w c).gateway) := by
    intro c n hBlock
    by_cases hChain : c = a.1
    · subst hChain
      rw [hSelf] at hBlock ⊢
      rcases Chain.step_block (net.deployment a.1) (w a.1) a.2 with ⟨hNumber, -⟩ | ⟨-, hNext⟩
      · exact .inl (hNumber ▸ hBlock)
      · rw [hNext] at hBlock ⊢
        rcases (Nat.lt_succ_iff.mp hBlock).eq_or_lt with rfl | hOld
        · exact .inr ⟨rfl, Function.update_self ..⟩
        · exact .inl hOld
    · rw [hOther c hChain] at hBlock
      exact .inl hBlock
  refine ⟨hConsistent, hCompleted, fun c => ?_, fun c n hBlock => ?_, fun c n hBlock => ?_⟩
  · by_cases hChain : c = a.1
    · subst hChain
      rw [hSelf]
      exact ⟨hCurrent, (Chain.step_transition _ _ _).saved (hLift a.1)⟩
    · rw [hOther c hChain]
      exact hLift c
  · rcases hBlocks c n hBlock with hOld | ⟨rfl, hNew⟩
    · rw [(net.step_endOf w a hOld).2]
      exact (h.ended c n hOld).step a
    · rw [hNew]
      exact (hLift a.1).current
  · rcases hBlocks c n hBlock with hOld | ⟨rfl, hNew⟩
    · rw [(net.step_endOf w a hOld).2]
      exact List.Subset.trans (h.hashed c n hOld) (List.subset_append_left _ _)
    · rw [hNew]
      intro p hp
      exact List.mem_append_right _ (List.mem_append_left _ hp)

end Step

variable [DecidableEq ι]

theorem genesis_sound (net : Network ι) : net.Sound net.genesis [] where
  consistent := net.run_chainConsistent []
  completed := net.run_chainCompleted []
  current _ := ⟨fun _ hEntry => absurd hEntry List.not_mem_nil,
    fun _ hFrame => absurd hFrame List.not_mem_nil⟩
  ended _ _ _ := fun _ hEntry => absurd hEntry List.not_mem_nil
  hashed _ _ _ := List.nil_subset _

/-- The invariant at every point of every run with honest verifiers. -/
theorem run_sound (net : Network ι) (actions : List (ι × Chain.Action))
    (hHonest : net.Honest actions)
    (hKeccak : CollisionFree net.keccak (pairInputs (net.hashedFrom net.genesis actions))) :
    net.Sound (net.run actions) (net.hashedFrom net.genesis actions) := by
  induction actions using List.reverseRecOn with
  | nil => exact net.genesis_sound
  | append_singleton actions a ih =>
      have hConsistent := net.run_chainConsistent (actions ++ [a])
      have hCompleted := net.run_chainCompleted (actions ++ [a])
      rw [hashedFrom_append_singleton] at hKeccak ⊢
      rw [run_append_singleton] at hConsistent hCompleted ⊢
      have hBefore := ih (Answers.of_append_singleton hHonest)
        (hKeccak.mono (pairInputs_mono (List.subset_append_left _ _)))
      refine hBefore.step a hKeccak ?_ ?_ hConsistent hCompleted
      · intro root context hAction hAsked
        exact Answers.last hHonest hAction hAsked
      · exact net.run_chainKeepsFrames actions a.1

/-- Paths are sound across chains, at every point of every run. If `_verifyPath` accepts a path on
some chain, the root reached before each hop and the block hash of the hop are the preimage of
the leaf at the witness index: in the active tree of the home Gateway for the last hop, and in the
tree at the end of the block with the next hash for every other hop. The base root is the
end-of-block TrustRoot of a completed block with the first hash. -/
theorem accepted_path_sound (net : Network ι) (actions : List (ι × Chain.Action))
    (hHonest : net.Honest actions) (hUnique : net.UniqueHashes (net.run actions)) (home : ι)
    (base root : Bytes32) (blockHashes : List Bytes32) (witnesses : List Witness)
    (hKeccak : CollisionFree net.keccak (pairInputs (net.hashedFrom net.genesis actions ++
      net.treesHashed home (net.run actions home).gateway ++
      pathHashed net.keccak net.depth base (blockHashes.zip witnesses))))
    (hPath : verifyPath net.keccak net.depth (net.run actions home).gateway.currentTrustRoot base
      blockHashes witnesses = .ok root) :
    let w := net.run actions
    (∀ i blockHash, blockHashes[i]? = some blockHash →
      ∃ witness running, witnesses[i]? = some witness ∧
        pathRoot net.keccak net.depth base ((blockHashes.zip witnesses).take i) = .ok running ∧
        (i + 1 = blockHashes.length →
          net.OpensLeaf home (w home).gateway running (blockHash, witness)) ∧
        ∀ next, blockHashes[i + 1]? = some next →
          (∃ c n, n < (w c).number ∧ net.blockhash c n = next) ∧
          ∀ c n, n < (w c).number → net.blockhash c n = next →
            net.OpensLeaf c ((w c).endOf n) running (blockHash, witness)) ∧
      ∃ first, blockHashes.head? = some first ∧ net.Genuine w base first := by
  intro w
  have hSound := net.run_sound actions hHonest (hKeccak.mono (pairInputs_mono (by
    intro p hp
    simp only [List.mem_append]
    exact .inl (.inl hp))))
  obtain ⟨hNonempty, hLength, -, hRoot⟩ := verifyPath_eq_ok_iff.mp hPath
  refine ⟨fun i blockHash hGet => ?_, ?_⟩
  · have hRange : i < witnesses.length := by
      rw [← hLength]
      exact (List.getElem?_eq_some_iff.mp hGet).1
    have hWitness : witnesses[i]? = some witnesses[i] := List.getElem?_eq_getElem hRange
    have hHop : (blockHashes.zip witnesses)[i]? = some (blockHash, witnesses[i]) :=
      List.getElem?_zip_eq_some.mpr ⟨hGet, hWitness⟩
    obtain ⟨running, hHopSound⟩ := hSound.path hKeccak hRoot i _ hHop
    refine ⟨witnesses[i], running, hWitness, hHopSound.reached, fun hLast => ?_,
      fun next hNext => ?_⟩
    · apply hHopSound.last
      rw [List.length_zip, ← hLength, Nat.min_self]
      exact hLast
    · have hRange' : i + 1 < witnesses.length := by
        rw [← hLength]
        exact (List.getElem?_eq_some_iff.mp hNext).1
      have hNextHop : (blockHashes.zip witnesses)[i + 1]? = some (next, witnesses[i + 1]) :=
        List.getElem?_zip_eq_some.mpr ⟨hNext, List.getElem?_eq_getElem hRange'⟩
      obtain ⟨c, n, hBlock, hHash, hOpens⟩ := hHopSound.inner _ hNextHop
      refine ⟨⟨c, n, hBlock, hHash⟩, fun c' n' hBlock' hHash' => ?_⟩
      obtain ⟨rfl, rfl⟩ := hUnique c n c' n' hBlock hBlock' (hHash.trans hHash'.symm)
      exact hOpens
  · obtain ⟨first, hFirst⟩ := Option.ne_none_iff_exists'.mp
      (mt List.head?_eq_none_iff.mp hNonempty)
    exact ⟨first, hFirst, hSound.verifyPath_genuine hKeccak hFirst hPath⟩

/-- The toy verifiers answer truthfully. -/
theorem toyNetwork_honest : toyNetwork.Honest toyNetworkActions := by
  intro i c root context hAction hAsked
  have hRange : i < 7 := (List.getElem?_eq_some_iff.mp hAction).1
  interval_cases i
  all_goals simp only [toyNetworkActions, List.getElem?_cons_succ, List.getElem?_cons_zero,
    Option.some.injEq, Prod.mk.injEq, reduceCtorEq, and_false] at hAction
  · obtain ⟨rfl, hRoot⟩ := hAction
    cases hRoot
    have hKnown : Chain.asked (toyNetwork.run (toyNetworkActions.take 2) true) =
        some (1, 2, 1002) := by decide +kernel
    obtain rfl := Option.some.inj (hKnown.symm.trans hAsked)
    exact ⟨false, 2, by decide +kernel, by decide +kernel, by decide +kernel⟩
  · obtain ⟨rfl, hRoot⟩ := hAction
    obtain rfl := Chain.Action.verifierReturns.inj hRoot
    have hKnown : Chain.asked (toyNetwork.run (toyNetworkActions.take 6) false) =
        some (2, 5, 2005) := by decide +kernel
    obtain rfl := Option.some.inj (hKnown.symm.trans hAsked)
    exact ⟨true, 5, by decide +kernel, by decide +kernel, by decide +kernel⟩

/-- The completed blocks of the toy network have different hashes. -/
theorem toyNetwork_uniqueHashes :
    toyNetwork.UniqueHashes (toyNetwork.run toyNetworkActions) := by
  have hNumber : ∀ c, (toyNetwork.run toyNetworkActions c).number ≤ 6 := by decide +kernel
  intro c n c' n' hBlock hBlock' hHash
  have hFinite : ∀ c c', ∀ n < 6, ∀ n' < 6,
      toyNetwork.blockhash c n = toyNetwork.blockhash c' n' → c = c' ∧ n = n' := by decide +kernel
  exact hFinite c c' n (hBlock.trans_le (hNumber c)) n' (hBlock'.trans_le (hNumber c')) hHash

/-- The first chain accepts the path over block 5 of the second chain to its own block 2. -/
theorem accepted_path_sound_toy :
    toyNetwork.OpensLeaf true ((toyNetwork.run toyNetworkActions true).endOf 5) 0
        (1002, ⟨1, [hashPair Chain.toyKeccak 0 2004, hashPair Chain.toyKeccak 0 0]⟩) ∧
      toyNetwork.Genuine (toyNetwork.run toyNetworkActions) 0 1002 := by
  have h := accepted_path_sound toyNetwork toyNetworkActions toyNetwork_honest
    toyNetwork_uniqueHashes false 0
    (toyNetwork.run toyNetworkActions false).gateway.currentTrustRoot [1002, 2005]
    [⟨1, [hashPair Chain.toyKeccak 0 2004, hashPair Chain.toyKeccak 0 0]⟩,
      ⟨1, [hashPair Chain.toyKeccak 0 1004, hashPair Chain.toyKeccak 0 0]⟩]
    (collisionFree_of_forall (by decide +kernel) (by decide +kernel)) (by decide +kernel)
  obtain ⟨hHops, first, hFirst, hGenuine⟩ := h
  obtain ⟨witness, running, hWitness, hRunning, -, hInner⟩ := hHops 0 1002 rfl
  cases hWitness
  cases hRunning
  cases hFirst
  exact ⟨(hInner 2005 rfl).2 true 5 (by decide +kernel) (by decide +kernel), hGenuine⟩

end TrustMap.Contracts.Network
