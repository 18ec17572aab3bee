import TrustMap.Contracts.PathSoundness

/-!
Which block a recorded dependency names. The leaf format binds a TrustRoot and a block hash only;
chain ID and height of a dependency are those its requester named. A direct verifier checks them,
a path does not.
-/

namespace TrustMap.Contracts.TrustMapGateway

open PathProofVerifier

variable {env : Deployment} {initialTrustRoot : Bytes32} {g g' : Gateway} {blockNumber : ℕ}

/-- The events of `_recordDependency` and `_resolve`. -/
def isRecordEvent : GatewayEvent → Bool
  | .trustRootUpdated .. => true
  | .dependencyRecorded .. => true
  | .requestResolved .. => true
  | _ => false

variable {requestId : Bytes32}

/-- Recording and resolving keeps the log and adds only events of its own. -/
theorem recordAndResolve_logs {sourceTrustRoot key key' : Bytes32} {newDependency : Bool}
    (h : Committed env initialTrustRoot g) (hPos : 0 < blockNumber)
    (hActive : g.activeTreeBlock ≤ blockNumber)
    (hOk : recordAndResolve env blockNumber requestId sourceTrustRoot key g = .ok (key', newDependency, g')) :
    ∃ more, g'.logs = g.logs ++ more ∧ ∀ entry ∈ more, isRecordEvent entry.event = true := by
  obtain ⟨-, recorded, hRecord, rfl⟩ := recordAndResolve_ok hOk
  have hRecorded := (recordDependency_ok h hPos hActive hRecord).2
  cases hRecorded with
  | known => exact ⟨_, rfl, by simp [isRecordEvent]⟩
  | new change =>
      obtain ⟨openedRoot, leafIndex, hLogs⟩ := change.logs
      refine ⟨_, by rw [resolve, Gateway.emit, hLogs, List.append_assoc, List.append_assoc], ?_⟩
      intro entry hEntry
      simp only [List.mem_append, List.mem_cons, List.not_mem_nil, or_false] at hEntry
      rcases hEntry with (hAnchor | rfl | rfl) | rfl
      · split at hAnchor
        · cases hAnchor
        · rw [List.mem_singleton.mp hAnchor]
          rfl
      all_goals rfl

/-- The log entry of a request. -/
def LogsRequest (logs : List LogEntry) (id : Bytes32)
    (context : Uint256 × Uint256 × Bytes32) : Prop :=
  ∃ block sender nonce,
    ⟨block, .verificationRequested id sender context.1 context.2.1 context.2.2 nonce⟩ ∈ logs

/-- The log entry of a successful direct verification. -/
def LogsDirect (logs : List LogEntry) (id : Bytes32) (context : Uint256 × Uint256 × Bytes32)
    (root key : Bytes32) : Prop :=
  ∃ block,
    ⟨block, .directVerificationSucceeded id context.1 context.2.1 context.2.2 root key⟩ ∈ logs

/-- The log entry of a successful path verification. -/
def LogsPath (logs : List LogEntry) (id : Bytes32) (context : Uint256 × Uint256 × Bytes32)
    (root key : Bytes32) : Prop :=
  ∃ block hops,
    ⟨block, .pathVerificationSucceeded id context.1 context.2.1 context.2.2 root hops key⟩ ∈ logs

/-- The log entry of a recorded dependency. -/
def LogsDependency (logs : List LogEntry) (id : Bytes32)
    (context : Uint256 × Uint256 × Bytes32) (root key : Bytes32) : Prop :=
  ∃ block leafIndex,
    ⟨block, .dependencyRecorded key id context.1 context.2.1 context.2.2 root leafIndex⟩ ∈ logs

/-- Every request is logged with its context; every recorded dependency has the context of its
request and comes from a successful direct or path verification; and every direct verification
attests a tuple with the property `T`. -/
structure ContextOk (T : Uint256 × Uint256 × Bytes32 → Bytes32 → Prop) (g : Gateway) : Prop where
  requested : ∀ id, (g.requests id).exists = true →
    LogsRequest g.logs id (g.requests id).context
  recorded : ∀ id context root key, LogsDependency g.logs id context root key →
    (g.requests id).exists = true ∧ context = (g.requests id).context ∧
      (LogsDirect g.logs id context root key ∨ LogsPath g.logs id context root key)
  direct : ∀ id context root key, LogsDirect g.logs id context root key → T context root

section

variable {T : Uint256 × Uint256 × Bytes32 → Bytes32 → Prop}

theorem initial_contextOk (keccak : Keccak) (depth : TreeDepth) (initialTrustRoot : Bytes32) :
    ContextOk T (initial keccak depth initialTrustRoot) where
  requested id hExists := by cases hExists
  recorded := by
    rintro id context root key ⟨block, leafIndex, hEntry⟩
    cases hEntry
  direct := by
    rintro id context root key ⟨block, hEntry⟩
    cases hEntry

theorem ContextOk.mono {T' : Uint256 × Uint256 × Bytes32 → Bytes32 → Prop} (h : ContextOk T g)
    (hMono : ∀ context root, T context root → T' context root) : ContextOk T' g :=
  ⟨h.requested, h.recorded, fun id context root key hDirect =>
    hMono context root (h.direct id context root key hDirect)⟩

/-- A step that keeps requests and log: the entries it adds are all there is to check. -/
theorem ContextOk.extend (h : ContextOk T g) (more : List LogEntry) (hKeeps : Keeps g g')
    (hLogs : g'.logs = g.logs ++ more)
    (hRequested : ∀ id, (g'.requests id).exists = true →
      (g.requests id).exists = true ∨ LogsRequest more id (g'.requests id).context)
    (hRecorded : ∀ id context root key, LogsDependency more id context root key →
      (g'.requests id).exists = true ∧ context = (g'.requests id).context ∧
        (LogsDirect g'.logs id context root key ∨ LogsPath g'.logs id context root key))
    (hDirect : ∀ id context root key, LogsDirect more id context root key → T context root) :
    ContextOk T g' := by
  have hOld : ∀ entry ∈ g.logs, entry ∈ g'.logs := fun entry hEntry => by
    rw [hLogs]
    exact List.mem_append_left _ hEntry
  have hNew : ∀ entry ∈ more, entry ∈ g'.logs := fun entry hEntry => by
    rw [hLogs]
    exact List.mem_append_right _ hEntry
  refine ⟨fun id hExists => ?_, ?_, ?_⟩
  · rcases hRequested id hExists with hBefore | ⟨block, sender, nonce, hEntry⟩
    · obtain ⟨block, sender, nonce, hEntry⟩ := h.requested id hBefore
      rw [(hKeeps id hBefore).2]
      exact ⟨block, sender, nonce, hOld _ hEntry⟩
    · exact ⟨block, sender, nonce, hNew _ hEntry⟩
  · rintro id context root key ⟨block, leafIndex, hEntry⟩
    rw [hLogs] at hEntry
    rcases List.mem_append.mp hEntry with hEntry | hEntry
    · obtain ⟨hExists, hContext, hVerified⟩ :=
        h.recorded id context root key ⟨block, leafIndex, hEntry⟩
      refine ⟨(hKeeps id hExists).1, hContext.trans (hKeeps id hExists).2.symm, ?_⟩
      rcases hVerified with ⟨block', hDirect⟩ | ⟨block', hops, hPath⟩
      · exact .inl ⟨block', hOld _ hDirect⟩
      · exact .inr ⟨block', hops, hOld _ hPath⟩
    · exact hRecorded id context root key ⟨block, leafIndex, hEntry⟩
  · rintro id context root key ⟨block, hEntry⟩
    rw [hLogs] at hEntry
    rcases List.mem_append.mp hEntry with hEntry | hEntry
    · exact h.direct id context root key ⟨block, hEntry⟩
    · exact hDirect id context root key ⟨block, hEntry⟩

/-- A new request, under a free identifier. -/
theorem ContextOk.requestVerification {sender : Address} {sourceChainId sourceHeight : Uint256}
    {sourceBlockHash : Bytes32} (h : ContextOk T g)
    (hOk : requestVerification env blockNumber sender sourceChainId sourceHeight sourceBlockHash g = .ok (requestId, g')) : ContextOk T g' := by
  obtain ⟨-, hRequests, nonce, hLogs⟩ := requestVerification_ok hOk
  refine h.extend _ (requestVerification_keeps hOk) hLogs (fun id hExists => ?_) ?_ ?_
  · by_cases hId : id = requestId
    · subst hId
      rw [hRequests, Function.update_self]
      exact .inr ⟨blockNumber, sender, nonce, List.mem_cons_self⟩
    · rw [hRequests, Function.update_of_ne hId] at hExists
      exact .inl hExists
  · rintro id context root key ⟨block, leafIndex, hEntry⟩
    simp at hEntry
  · rintro id context root key ⟨block, hEntry⟩
    simp at hEntry

theorem ContextOk.beginRequest (h : ContextOk T g) (hOk : beginRequest requestId g = .ok g') :
    ContextOk T g' := by
  obtain ⟨hExists, hLogs, hRequests⟩ := beginRequest_ok hOk
  refine h.extend [] (beginRequest_keeps hOk) (by simpa using hLogs)
    (fun id hId => ?_) ?_ ?_
  · by_cases hEq : id = requestId
    · exact .inl (hEq ▸ hExists)
    · rw [hRequests, Function.update_of_ne hEq] at hId
      exact .inl hId
  · rintro id context root key ⟨block, leafIndex, hEntry⟩
    cases hEntry
  · rintro id context root key ⟨block, hEntry⟩
    cases hEntry

/-- Recording and resolving after a successful verification has been logged. -/
theorem ContextOk.recordAndResolve {sourceTrustRoot key key' : Bytes32} {newDependency : Bool}
    {event : GatewayEvent} (h : ContextOk T g) (hExists : (g.requests requestId).exists = true)
    (hCommitted : Committed env initialTrustRoot (g.emit blockNumber event))
    (hPos : 0 < blockNumber) (hActive : g.activeTreeBlock ≤ blockNumber)
    (hEvent : isRecordEvent event = false)
    (hVerified : LogsDirect [⟨blockNumber, event⟩] requestId (g.requests requestId).context sourceTrustRoot key ∨ LogsPath [⟨blockNumber, event⟩] requestId (g.requests requestId).context sourceTrustRoot key)
    (hDirect : ∀ id context root key', LogsDirect [⟨blockNumber, event⟩] id context root key' → T context root)
    (hOk : recordAndResolve env blockNumber requestId sourceTrustRoot key (g.emit blockNumber event) = .ok (key', newDependency, g')) : ContextOk T g' := by
  obtain ⟨more, hLogs, hMore⟩ := recordAndResolve_logs hCommitted hPos hActive hOk
  have hEmitted : Keeps g (g.emit blockNumber event) := Keeps.of_eq rfl
  have hKeeps : Keeps g g' :=
    hEmitted.trans (recordAndResolve_keeps hOk)
  have hLogs' : g'.logs = g.logs ++ (⟨blockNumber, event⟩ :: more) := by
    rw [hLogs, Gateway.emit, List.append_assoc, List.singleton_append]
  have hOld : ∀ entry ∈ g.logs ++ [⟨blockNumber, event⟩], entry ∈ g'.logs := by
    intro entry hEntry
    rw [hLogs]
    exact List.mem_append_left _ hEntry
  refine h.extend _ hKeeps hLogs' (fun id hId => .inl ?_) ?_ ?_
  · by_cases hEq : id = requestId
    · rw [hEq]
      exact hExists
    · obtain ⟨-, recorded, hRecord, rfl⟩ := recordAndResolve_ok hOk
      have hRequests := recordDependency_requests hRecord
      simp only [resolve, Gateway.emit, Function.update_of_ne hEq, hRequests] at hId
      exact hId
  · rintro id context root key'' ⟨block, leafIndex, hEntry⟩
    have hMem : (⟨block, .dependencyRecorded key'' id context.1 context.2.1 context.2.2 root
        leafIndex⟩ : LogEntry) ∈ g'.logs := by
      rw [hLogs']
      exact List.mem_append_right _ hEntry
    rcases recordAndResolve_dependency_entry hCommitted hPos hActive hOk hMem rfl with
      hBefore | ⟨leafIndex', hEq⟩
    · rcases List.mem_append.mp hBefore with hBefore | hEvent'
      · obtain ⟨hExists', hContext, hVerified'⟩ :=
          h.recorded id context root key'' ⟨block, leafIndex, hBefore⟩
        refine ⟨(hKeeps id hExists').1, hContext.trans (hKeeps id hExists').2.symm, ?_⟩
        rcases hVerified' with ⟨block', hFound⟩ | ⟨block', hops, hFound⟩
        · exact .inl ⟨block', hOld _ (List.mem_append_left _ hFound)⟩
        · exact .inr ⟨block', hops, hOld _ (List.mem_append_left _ hFound)⟩
      · rw [← (LogEntry.mk.inj (List.mem_singleton.mp hEvent')).2] at hEvent
        cases hEvent
    · -- The new entry carries the context of the request that was verified.
      simp only [dependencyEntry, LogEntry.mk.injEq, GatewayEvent.dependencyRecorded.injEq]
        at hEq
      obtain ⟨-, rfl, rfl, hChain, hHeight, hHash, rfl, -⟩ := hEq
      have hContext : context = (g.requests id).context := by
        ext1
        · exact hChain
        · ext1
          · exact hHeight
          · exact hHash
      refine ⟨(hKeeps id hExists).1, hContext.trans (hKeeps id hExists).2.symm, ?_⟩
      rw [hContext]
      rcases hVerified with ⟨block', hFound⟩ | ⟨block', hops, hFound⟩
      · exact .inl ⟨block', hOld _ (List.mem_append_right _ hFound)⟩
      · exact .inr ⟨block', hops, hOld _ (List.mem_append_right _ hFound)⟩
  · rintro id context root key'' ⟨block, hEntry⟩
    rcases List.mem_cons.mp hEntry with hFirst | hRest
    · exact hDirect id context root key'' ⟨block, by rw [hFirst]; exact List.mem_cons_self⟩
    · exact absurd (hMore _ hRest) (by simp [isRecordEvent])

end

end TrustMap.Contracts.TrustMapGateway

namespace TrustMap.Contracts.Chain

open TrustMapGateway

/-- One action of a chain keeps the contexts, if a verifier that answers attests a tuple with the
property `T`. -/
theorem Transition.contextOk {env : Deployment} {initialTrustRoot : Bytes32}
    {T : Uint256 × Uint256 × Bytes32 → Bytes32 → Prop} {c c' : State} {action : Action}
    (hTransition : Transition env c action c') (h : Throughout (ContextOk T) c)
    (hConsistent : Consistent env initialTrustRoot c.number c.endOf c.gateway)
    (hFrames : KeepsFrames c.gateway c.stack)
    (hTrue : ∀ root context, action = .verifierReturns root → asked c = some context →
      T context root) :
    ContextOk T c'.gateway := by
  cases hTransition with
  | idle | nextBlock stack | enter | leave stack => exact h.current
  | reverted stack => exact h.saved _ (by rw [stack]; exact List.mem_cons_self)
  | requested ok => exact h.current.requestVerification ok
  | begun ok => exact h.current.beginRequest ok
  | path ok =>
      obtain ⟨begun, event, hBegin, -, -, hEvent, -, hRecord⟩ := verifyPathAndRecord_ok ok
      have hTree : isTreeEvent event = false := by rw [hEvent]; rfl
      have hEmitted := (hConsistent.quiet (beginRequest_quiet hBegin)).quiet
        (emit_quiet begun c.number hTree)
      have hExists := (beginRequest_keeps hBegin _ (beginRequest_ok hBegin).1).1
      refine (h.current.beginRequest hBegin).recordAndResolve hExists hEmitted.committed
        hEmitted.pos hEmitted.active_le (by rw [hEvent]; rfl) (.inr ?_) ?_ hRecord
      · exact ⟨c.number, _, by rw [hEvent]; exact List.mem_cons_self⟩
      · rintro id context root key' ⟨block, hEntry⟩
        rw [hEvent] at hEntry
        simp at hEntry
  | direct stack ok =>
      obtain ⟨event, hEvent, -, hRecord⟩ := directVerified_ok ok
      have hTree : isTreeEvent event = false := by rw [hEvent]; rfl
      have hEmitted := hConsistent.quiet (emit_quiet c.gateway c.number hTree)
      have hAttested := hTrue _ _ rfl (by rw [asked, stack])
      rw [stack] at hFrames
      obtain ⟨hExists, hContext⟩ := hFrames.2.1 _ hFrames.1
      refine h.current.recordAndResolve hExists hEmitted.committed hEmitted.pos
        hEmitted.active_le (by rw [hEvent]; rfl) (.inl ?_) ?_ hRecord
      · exact ⟨c.number, by rw [hEvent]; exact List.mem_cons_self⟩
      · rintro id context root key' ⟨block, hEntry⟩
        rw [hEvent] at hEntry
        simp only [List.mem_singleton, LogEntry.mk.injEq,
          GatewayEvent.directVerificationSucceeded.injEq] at hEntry
        obtain ⟨-, rfl, hChain, hHeight, hHash, rfl, rfl⟩ := hEntry
        have hSame : context = (c.gateway.requests id).context := by
          ext1
          · exact hChain
          · ext1
            · exact hHeight
            · exact hHash
        rw [hSame, hContext]
        exact hAttested

end TrustMap.Contracts.Chain

namespace TrustMap.Contracts.Network

open TrustMapGateway PathProofVerifier

variable {ι : Type*} {net : Network ι} {w : World ι}

/-- A completed block has this chain ID, height and hash, and this TrustRoot at its end. -/
def TrueTuple (net : Network ι) (w : World ι) (context : Uint256 × Uint256 × Bytes32)
    (root : Bytes32) : Prop :=
  ∃ c n, n < (w c).number ∧ net.chainid c = context.1 ∧ context.2.1.toNat = n ∧
    net.blockhash c n = context.2.2 ∧ ((w c).endOf n).currentTrustRoot = root

theorem TrueTuple.genuine {context : Uint256 × Uint256 × Bytes32} {root : Bytes32}
    (h : net.TrueTuple w context root) : net.Genuine w root context.2.2 := by
  obtain ⟨c, n, hBlock, -, -, hHash, hRoot⟩ := h
  exact ⟨c, n, hBlock, hHash, hRoot⟩

variable [DecidableEq ι]

theorem TrueTuple.step {context : Uint256 × Uint256 × Bytes32} {root : Bytes32}
    (h : net.TrueTuple w context root) (a : ι × Chain.Action) :
    net.TrueTuple (net.step w a) context root := by
  obtain ⟨c, n, hBlock, hChain, hHeight, hHash, hRoot⟩ := h
  obtain ⟨hBlock', hEnd⟩ := net.step_endOf w a hBlock
  exact ⟨c, n, hBlock', hChain, hHeight, hHash, by rw [hEnd]; exact hRoot⟩

/-- Every direct verifier attests only true tuples. -/
def Truthful (net : Network ι) (actions : List (ι × Chain.Action)) : Prop :=
  net.Answers net.TrueTuple actions

theorem Truthful.honest {actions : List (ι × Chain.Action)} (h : net.Truthful actions) :
    net.Honest actions :=
  fun i c root context hAction hAsked => (h i c root context hAction hAsked).genuine

/-- The contexts are in order on every chain at every point of every run. -/
theorem run_contextOk (net : Network ι) (actions : List (ι × Chain.Action))
    (hTruthful : net.Truthful actions) (c : ι) :
    Chain.Throughout (ContextOk (net.TrueTuple (net.run actions))) (net.run actions c) := by
  induction actions using List.reverseRecOn generalizing c with
  | nil =>
      exact ⟨initial_contextOk net.keccak net.depth 0,
        fun _ hFrame => absurd hFrame List.not_mem_nil⟩
  | append_singleton actions a ih =>
      have hLift : ∀ c, Chain.Throughout (ContextOk
          (net.TrueTuple (net.step (net.run actions) a))) (net.run actions c) := by
        intro c
        have h := ih (Answers.of_append_singleton hTruthful) c
        exact ⟨h.current.mono fun _ _ hTrue => hTrue.step a,
          fun frame hFrame => (h.saved frame hFrame).mono fun _ _ hTrue => hTrue.step a⟩
      rw [run_append_singleton]
      by_cases hChain : c = a.1
      · subst hChain
        have hSelf : net.step (net.run actions) a a.1 =
            Chain.step (net.deployment a.1) (net.run actions a.1) a.2 := by
          rw [Network.step, Function.update_self]
        rw [hSelf]
        have hTransition := Chain.step_transition (net.deployment a.1) (net.run actions a.1) a.2
        refine ⟨?_, hTransition.saved (hLift a.1)⟩
        apply hTransition.contextOk (hLift a.1) (net.run_chainConsistent actions a.1).current
          (net.run_chainKeepsFrames actions a.1)
        intro root context hAction hAsked
        exact (Answers.last hTruthful hAction hAsked).step a
      · have hOther : net.step (net.run actions) a c = net.run actions c := by
          rw [Network.step, Function.update_of_ne hChain]
        rw [hOther]
        exact hLift c

/-- The toy run, after which the first chain is asked for block 2 of chain 1 under the chain ID 9
and the height 77, and accepts the path to it. -/
def misnamedActions : List (Bool × Chain.Action) :=
  toyNetworkActions ++
    [(false, .requestVerification 7 9 77 1002),
      (false, .verifyPathAndRecord
        (computeRequestId (toyNetwork.deployment false) 7 1 9 77 1002) 0 [1002, 2005]
        [⟨1, [hashPair Chain.toyKeccak 0 2004, hashPair Chain.toyKeccak 0 0]⟩,
          ⟨1, [hashPair Chain.toyKeccak 0 1004, hashPair Chain.toyKeccak 0 0]⟩])]

theorem misnamedActions_truthful : toyNetwork.Truthful misnamedActions := by
  intro i c root context hAction hAsked
  have hRange : i < 9 := (List.getElem?_eq_some_iff.mp hAction).1
  interval_cases i
  all_goals simp only [misnamedActions, toyNetworkActions, List.cons_append, List.nil_append,
    List.getElem?_cons_succ, List.getElem?_cons_zero, Option.some.injEq, Prod.mk.injEq,
    reduceCtorEq, and_false] at hAction
  · obtain ⟨rfl, hRoot⟩ := hAction
    obtain rfl := Chain.Action.verifierReturns.inj hRoot
    have hKnown : Chain.asked (toyNetwork.run (misnamedActions.take 2) true) =
        some (1, 2, 1002) := by decide +kernel
    obtain rfl := Option.some.inj (hKnown.symm.trans hAsked)
    exact ⟨false, 2, by decide +kernel, by decide +kernel, by decide +kernel,
      by decide +kernel, by decide +kernel⟩
  · obtain ⟨rfl, hRoot⟩ := hAction
    obtain rfl := Chain.Action.verifierReturns.inj hRoot
    have hKnown : Chain.asked (toyNetwork.run (misnamedActions.take 6) false) =
        some (2, 5, 2005) := by decide +kernel
    obtain rfl := Option.some.inj (hKnown.symm.trans hAsked)
    exact ⟨true, 5, by decide +kernel, by decide +kernel, by decide +kernel,
      by decide +kernel, by decide +kernel⟩

/-- A path binds neither chain ID nor height: with truthful verifiers and a hash without collisions,
the first chain records chain ID 9 and height 77 for a hash that belongs to height 2 of the chain
with ID 1. -/
theorem path_records_misnamed_context :
    let w := toyNetwork.run misnamedActions
    let id := computeRequestId (toyNetwork.deployment false) 7 1 9 77 1002
    let key := computeDependencyKey Chain.toyKeccak 9 77 1002 0
    toyNetwork.Truthful misnamedActions ∧
      CollisionFree toyNetwork.keccak
        (pairInputs (toyNetwork.hashedFrom toyNetwork.genesis misnamedActions)) ∧
      LogsDependency (w false).gateway.logs id (9, 77, 1002) 0 key ∧
      LogsPath (w false).gateway.logs id (9, 77, 1002) 0 key ∧
      (w false).gateway.dependencyRecorded key = true ∧
      (2 < (w false).number ∧ toyNetwork.blockhash false 2 = 1002 ∧
        toyNetwork.chainid false = 1) ∧
      ∀ c n, n < (w c).number → toyNetwork.blockhash c n = 1002 →
        toyNetwork.chainid c ≠ 9 ∧ n ≠ 77 := by
  refine ⟨misnamedActions_truthful,
    collisionFree_of_forall (by decide +kernel) (by decide +kernel),
    ⟨5, 2, by decide +kernel⟩, ⟨5, 2, by decide +kernel⟩, by decide +kernel, by decide +kernel, ?_⟩
  have hNumber : ∀ c, (toyNetwork.run misnamedActions c).number ≤ 6 := by decide +kernel
  have hFinite : ∀ c, ∀ n < 6, toyNetwork.blockhash c n = 1002 →
      toyNetwork.chainid c ≠ 9 ∧ n ≠ 77 := by decide +kernel
  intro c n hBlock
  exact hFinite c n (hBlock.trans_le (hNumber c))

/-- What a recorded dependency says, at every point of every run with truthful verifiers: its chain
ID and height are the ones its requester named, its hash and root are those of a completed block, it
comes from a path or from a direct verification, and in the second case the whole tuple is true. -/
theorem recorded_context (net : Network ι) (actions : List (ι × Chain.Action))
    (hTruthful : net.Truthful actions)
    (hKeccak : CollisionFree net.keccak (pairInputs (net.hashedFrom net.genesis actions)))
    (c : ι) (id : Bytes32) (context : Uint256 × Uint256 × Bytes32) (root key : Bytes32)
    (hRecorded : LogsDependency (net.run actions c).gateway.logs id context root key) :
    let w := net.run actions
    let logs := (w c).gateway.logs
    LogsRequest logs id context ∧ net.Genuine w root context.2.2 ∧
      (LogsPath logs id context root key ∨ LogsDirect logs id context root key) ∧
      (LogsDirect logs id context root key → net.TrueTuple w context root) := by
  intro w logs
  have hContext := (net.run_contextOk actions hTruthful c).current
  obtain ⟨hExists, hSame, hVerified⟩ := hContext.recorded id context root key hRecorded
  have hSound := net.run_sound actions hTruthful.honest hKeccak
  refine ⟨?_, ?_, hVerified.symm, hContext.direct id context root key⟩
  · rw [hSame]
    exact hContext.requested id hExists
  · obtain ⟨block, leafIndex, hEntry⟩ := hRecorded
    exact (hSound.current c).current _ hEntry _ rfl

theorem recorded_context_toy :
    let w := toyNetwork.run misnamedActions
    let id := computeRequestId (toyNetwork.deployment false) 7 1 9 77 1002
    LogsRequest (w false).gateway.logs id (9, 77, 1002) ∧ toyNetwork.Genuine w 0 1002 := by
  have h := recorded_context toyNetwork misnamedActions misnamedActions_truthful
    (collisionFree_of_forall (by decide +kernel) (by decide +kernel)) false
    (computeRequestId (toyNetwork.deployment false) 7 1 9 77 1002) (9, 77, 1002) 0
    (computeDependencyKey Chain.toyKeccak 9 77 1002 0) ⟨5, 2, by decide +kernel⟩
  exact ⟨h.1, h.2.1⟩

end TrustMap.Contracts.Network
