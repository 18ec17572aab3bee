import TrustMap.Contracts.CompletedBlocks

/-!
The life of a request. `RequestsOk` relates the flags of the requests and the dependency keys
to the logs, for a given list of requests in flight; the requests in flight are those of the
open `verifyDirectAndRecord` calls, so the invariant holds at every external call and not only
between transactions.
-/

namespace TrustMap.Contracts.TrustMapGateway

open PathProofVerifier TrustRootCommitment

/-- The entry resolves this request. -/
def resolves (requestId : Bytes32) (entry : LogEntry) : Bool :=
  match entry.event with
  | .requestResolved id _ _ _ _ => id = requestId
  | _ => false

/-- The entry records this dependency key. -/
def recordsKey (key : Bytes32) (entry : LogEntry) : Bool :=
  match entry.event with
  | .dependencyRecorded key' _ _ _ _ _ _ => key' = key
  | _ => false

/-- The dependency leaf appended by an entry. -/
def LogEntry.appendedLeaf (entry : LogEntry) : Option Bytes32 :=
  match entry.event with
  | .trustRootUpdated _ _ leaf _ _ false => some leaf
  | _ => none

/-- The dependency leaves appended so far, over all trees. -/
def appendedLeaves (logs : List LogEntry) : List Bytes32 :=
  logs.filterMap LogEntry.appendedLeaf

/-- Entries that neither resolve a request nor record a dependency. -/
def isNeutral : GatewayEvent → Bool
  | .trustRootUpdated _ _ _ _ _ isAnchor => isAnchor
  | .dependencyRecorded .. => false
  | .requestResolved .. => false
  | _ => true

/-- The requests and dependency keys of a Gateway while the listed requests are in flight. -/
structure RequestsOk (keccak : Keccak) (g : Gateway) (inFlight : List Bytes32) : Prop where
  nodup : inFlight.Nodup
  processing : ∀ id, (g.requests id).processing = true ↔ id ∈ inFlight
  open_of_processing : ∀ id, (g.requests id).processing = true →
    (g.requests id).exists = true ∧ (g.requests id).resolved = false
  exists_of_resolved : ∀ id, (g.requests id).resolved = true → (g.requests id).exists = true
  resolvedOnce : ∀ id, g.logs.countP (resolves id) = if (g.requests id).resolved then 1 else 0
  keyOnce : ∀ key, g.logs.countP (recordsKey key) = if g.dependencyRecorded key then 1 else 0
  leaves : appendedLeaves g.logs = (recorded g.logs).map fun d => paperLeaf keccak d.1 d.2

theorem initial_requestsOk (keccak : Keccak) (depth : TreeDepth) (initialTrustRoot : Bytes32) :
    RequestsOk keccak (initial keccak depth initialTrustRoot) [] where
  nodup := List.nodup_nil
  processing := by simp [initial, VerificationRequest.empty]
  open_of_processing := by simp [initial, VerificationRequest.empty]
  exists_of_resolved := by simp [initial, VerificationRequest.empty]
  resolvedOnce := by simp [initial, VerificationRequest.empty]
  keyOnce := by simp [initial]
  leaves := rfl

section Logs

variable {logs more : List LogEntry}

theorem appendedLeaves_append (logs more : List LogEntry) :
    appendedLeaves (logs ++ more) = appendedLeaves logs ++ appendedLeaves more :=
  List.filterMap_append

theorem recorded_append (logs more : List LogEntry) :
    recorded (logs ++ more) = recorded logs ++ recorded more :=
  List.filterMap_append

variable (h : ∀ entry ∈ more, isNeutral entry.event = true)

include h

theorem countP_resolves_neutral
    (id : Bytes32) : (logs ++ more).countP (resolves id) = logs.countP (resolves id) := by
  have hNone : more.countP (resolves id) = 0 := List.countP_eq_zero.mpr fun entry hEntry => by
    have hNeutral := h entry hEntry
    unfold resolves
    cases hEvent : entry.event <;> simp_all [isNeutral]
  rw [List.countP_append, hNone, Nat.add_zero]

theorem countP_recordsKey_neutral
    (key : Bytes32) : (logs ++ more).countP (recordsKey key) = logs.countP (recordsKey key) := by
  have hNone : more.countP (recordsKey key) = 0 := List.countP_eq_zero.mpr fun entry hEntry => by
    have hNeutral := h entry hEntry
    unfold recordsKey
    cases hEvent : entry.event <;> simp_all [isNeutral]
  rw [List.countP_append, hNone, Nat.add_zero]

theorem appendedLeaves_neutral :
    appendedLeaves (logs ++ more) = appendedLeaves logs := by
  have hNone : appendedLeaves more = [] := List.filterMap_eq_nil_iff.mpr fun entry hEntry => by
    have hNeutral := h entry hEntry
    unfold LogEntry.appendedLeaf
    cases hEvent : entry.event <;> simp_all [isNeutral]
  rw [appendedLeaves_append, hNone, List.append_nil]

theorem recorded_neutral :
    recorded (logs ++ more) = recorded logs := by
  have hNone : recorded more = [] := List.filterMap_eq_nil_iff.mpr fun entry hEntry => by
    have hNeutral := h entry hEntry
    unfold LogEntry.dependency
    cases hEvent : entry.event <;> simp_all [isNeutral]
  rw [recorded_append, hNone, List.append_nil]

end Logs

section Steps

variable {env : Deployment} {keccak : Keccak} {g g' : Gateway} {inFlight : List Bytes32}
  {blockNumber : ℕ}

/-- Emitting a neutral event. -/
theorem RequestsOk.emit (h : RequestsOk keccak g inFlight) (blockNumber : ℕ)
    {event : GatewayEvent} (hEvent : isNeutral event = true) :
    RequestsOk keccak (g.emit blockNumber event) inFlight := by
  have hNeutral : ∀ entry ∈ [(⟨blockNumber, event⟩ : LogEntry)], isNeutral entry.event = true := by
    simpa using hEvent
  exact
    { nodup := h.nodup
      processing := h.processing
      open_of_processing := h.open_of_processing
      exists_of_resolved := h.exists_of_resolved
      resolvedOnce := fun id => (countP_resolves_neutral hNeutral id).trans (h.resolvedOnce id)
      keyOnce := fun key => (countP_recordsKey_neutral hNeutral key).trans (h.keyOnce key)
      leaves := by
        rw [Gateway.emit, appendedLeaves_neutral hNeutral, recorded_neutral hNeutral, h.leaves] }

variable {requestId : Bytes32}

/-- A new request is neither in flight nor resolved. -/
theorem RequestsOk.requestVerification {sender : Address} {sourceChainId sourceHeight : Uint256}
    {sourceBlockHash : Bytes32} (h : RequestsOk keccak g inFlight)
    (hOk : requestVerification env blockNumber sender sourceChainId sourceHeight sourceBlockHash g = .ok (requestId, g')) : RequestsOk keccak g' inFlight := by
  simp only [TrustMapGateway.requestVerification] at hOk
  split at hOk
  · cases hOk
  split at hOk
  · cases hOk
  split at hOk
  · cases hOk
  split at hOk
  · cases hOk
  rename_i hUnused
  obtain ⟨rfl, rfl⟩ := Prod.mk.inj (Except.ok.inj hOk)
  refine RequestsOk.emit ?_ blockNumber rfl
  generalize computeRequestId _ _ _ _ _ _ = requestId at hUnused ⊢
  have hUnused : (g.requests requestId).exists = false := by simpa using hUnused
  have hIdle : (g.requests requestId).processing = false := by
    by_contra hBusy
    simp [(h.open_of_processing requestId (by simpa using hBusy)).1] at hUnused
  have hOpen : (g.requests requestId).resolved = false := by
    by_contra hResolved
    simp [h.exists_of_resolved requestId (by simpa using hResolved)] at hUnused
  refine ⟨h.nodup, fun id => ?_, fun id => ?_, fun id => ?_, fun id => ?_, h.keyOnce, h.leaves⟩
  all_goals by_cases hId : id = requestId
  · subst hId
    have hNotIn : id ∉ inFlight := by rw [← h.processing, hIdle]; simp
    simp [hNotIn]
  · simpa [Function.update_of_ne hId] using h.processing id
  · subst hId; simp
  · simpa [Function.update_of_ne hId] using h.open_of_processing id
  · subst hId; simp
  · simpa [Function.update_of_ne hId] using h.exists_of_resolved id
  · subst hId
    have hCount := h.resolvedOnce id
    simpa [hOpen] using hCount
  · simpa [Function.update_of_ne hId] using h.resolvedOnce id

/-- `_beginRequest` puts an open request in flight. -/
theorem RequestsOk.beginRequest (h : RequestsOk keccak g inFlight)
    (hOk : beginRequest requestId g = .ok g') : RequestsOk keccak g' (requestId :: inFlight) := by
  simp only [TrustMapGateway.beginRequest] at hOk
  split at hOk
  · cases hOk
  split at hOk
  · cases hOk
  split at hOk
  · cases hOk
  rename_i hExists hResolved hIdle
  obtain rfl := Except.ok.inj hOk
  have hNotIn : requestId ∉ inFlight := by rw [← h.processing]; exact hIdle
  refine ⟨List.nodup_cons.mpr ⟨hNotIn, h.nodup⟩, fun id => ?_, fun id => ?_, fun id => ?_,
    fun id => ?_, h.keyOnce, h.leaves⟩
  all_goals by_cases hId : id = requestId
  · subst hId; simp
  · simpa [Function.update_of_ne hId, hId] using h.processing id
  · subst hId; simpa using And.intro hExists hResolved
  · simpa [Function.update_of_ne hId] using h.open_of_processing id
  · subst hId; simpa using h.exists_of_resolved id
  · simpa [Function.update_of_ne hId] using h.exists_of_resolved id
  · subst hId; simpa using h.resolvedOnce id
  · simpa [Function.update_of_ne hId] using h.resolvedOnce id

/-- Recording a new dependency adds its key once and its leaf once. -/
theorem RequestsOk.newDependency {sourceTrustRoot key : Bytes32}
    (h : RequestsOk env.keccak g inFlight)
    (change : NewDependency env blockNumber requestId sourceTrustRoot key g g') :
    RequestsOk env.keccak g' inFlight := by
  obtain ⟨openedRoot, leafIndex, hLogs⟩ := change.logs
  have hAnchor : ∀ entry ∈ (if g.activeTreeBlock = blockNumber then []
      else [anchorEntry env blockNumber requestId g.currentTrustRoot openedRoot]),
      isNeutral entry.event = true := by
    split <;> simp [anchorEntry, isNeutral]
  refine
    { nodup := h.nodup
      processing := by rw [change.requests]; exact h.processing
      open_of_processing := by rw [change.requests]; exact h.open_of_processing
      exists_of_resolved := by rw [change.requests]; exact h.exists_of_resolved
      resolvedOnce := fun id => ?_
      keyOnce := fun key' => ?_
      leaves := ?_ }
  · rw [hLogs, List.countP_append, countP_resolves_neutral hAnchor, h.resolvedOnce id,
      change.requests]
    simp [resolves, leafEntry, dependencyEntry]
  · rw [hLogs, List.countP_append, countP_recordsKey_neutral hAnchor, h.keyOnce key',
      change.dependencyRecorded]
    by_cases hKey : key' = key
    · subst hKey
      simp [recordsKey, leafEntry, dependencyEntry, change.fresh]
    · simp [recordsKey, leafEntry, dependencyEntry, Function.update_of_ne hKey, Ne.symm hKey]
  · rw [hLogs, appendedLeaves_append, recorded_append, appendedLeaves_neutral hAnchor,
      recorded_neutral hAnchor, h.leaves, List.map_append]
    rfl

/-- `_resolve` takes the request out of flight and resolves it for the first time. -/
theorem RequestsOk.resolve (h : RequestsOk keccak g (requestId :: inFlight)) (blockNumber : ℕ)
    (key : Bytes32) (newDependency : Bool) :
    RequestsOk keccak (resolve blockNumber requestId key newDependency g) inFlight := by
  have hBusy := (h.processing requestId).mpr List.mem_cons_self
  obtain ⟨hExists, hOpen⟩ := h.open_of_processing requestId hBusy
  have hNotIn : requestId ∉ inFlight := (List.nodup_cons.mp h.nodup).1
  have hCount := h.resolvedOnce
  refine ⟨(List.nodup_cons.mp h.nodup).2, fun id => ?_, fun id => ?_, fun id => ?_, fun id => ?_,
    fun key' => ?_, ?_⟩
  · by_cases hId : id = requestId
    · subst hId; simpa [TrustMapGateway.resolve, Gateway.emit] using hNotIn
    · simpa [TrustMapGateway.resolve, Gateway.emit, Function.update_of_ne hId, hId] using
        h.processing id
  · by_cases hId : id = requestId
    · subst hId; simp [TrustMapGateway.resolve, Gateway.emit]
    · simpa [TrustMapGateway.resolve, Gateway.emit, Function.update_of_ne hId] using
        h.open_of_processing id
  · by_cases hId : id = requestId
    · subst hId; simpa [TrustMapGateway.resolve, Gateway.emit] using hExists
    · simpa [TrustMapGateway.resolve, Gateway.emit, Function.update_of_ne hId] using
        h.exists_of_resolved id
  · by_cases hId : id = requestId
    · subst hId
      simp [TrustMapGateway.resolve, Gateway.emit, h.resolvedOnce, hOpen, resolves]
    · simp [TrustMapGateway.resolve, Gateway.emit, Function.update_of_ne hId, h.resolvedOnce,
        resolves, Ne.symm hId]
  · exact (List.countP_append ..).trans (h.keyOnce key')
  · simp only [TrustMapGateway.resolve, Gateway.emit, appendedLeaves_append, recorded_append,
      h.leaves, List.map_append]
    rfl

/-- Recording and resolving, from a consistent commitment. -/
theorem RequestsOk.recordAndResolve {initialTrustRoot sourceTrustRoot key key' : Bytes32}
    {newDependency : Bool} (hCommitted : Committed env initialTrustRoot g) (hPos : 0 < blockNumber)
    (hActive : g.activeTreeBlock ≤ blockNumber)
    (h : RequestsOk env.keccak g (requestId :: inFlight))
    (hOk : recordAndResolve env blockNumber requestId sourceTrustRoot key g = .ok (key', newDependency, g')) : RequestsOk env.keccak g' inFlight := by
  obtain ⟨-, recorded, hRecord, rfl⟩ := recordAndResolve_ok hOk
  obtain ⟨-, hRecorded⟩ := recordDependency_ok hCommitted hPos hActive hRecord
  refine RequestsOk.resolve ?_ blockNumber key newDependency
  cases hRecorded with
  | known => exact h
  | new change => exact h.newDependency change

end Steps

end TrustMap.Contracts.TrustMapGateway

namespace TrustMap.Contracts.Chain

open TrustMapGateway PathProofVerifier TrustRootCommitment

/-- The requests of the open `verifyDirectAndRecord` calls, innermost first. -/
def inFlight (stack : List Frame) : List Bytes32 :=
  stack.filterMap fun frame =>
    match frame with
    | .code _ => none
    | .verify _ requestId _ => some requestId

/-- The requests of the current storage, and of every storage a revert may restore, are in
order for the calls open at that level. -/
structure LifecycleOk (keccak : Keccak) (c : State) : Prop where
  current : RequestsOk keccak c.gateway (inFlight c.stack)
  saved : ∀ above frame below, c.stack = above ++ frame :: below →
    RequestsOk keccak (Frame.saved frame) (inFlight below)

theorem LifecycleOk.push {keccak : Keccak} {c : State} (h : LifecycleOk keccak c) {g : Gateway}
    {frame : Frame} (hFrame : frame.saved = c.gateway)
    (hCurrent : RequestsOk keccak g (inFlight (frame :: c.stack))) :
    LifecycleOk keccak { c with gateway := g, stack := frame :: c.stack } where
  current := hCurrent
  saved above f below hStack := by
    cases above with
    | nil =>
        obtain ⟨rfl, rfl⟩ := List.cons.inj hStack
        rw [hFrame]
        exact h.current
    | cons top above => exact h.saved above f below (List.cons.inj hStack).2

theorem LifecycleOk.pop {keccak : Keccak} {c : State} (h : LifecycleOk keccak c) {g : Gateway}
    {frame : Frame} {stack : List Frame} (hTop : c.stack = frame :: stack)
    (hCurrent : RequestsOk keccak g (inFlight stack)) :
    LifecycleOk keccak { c with gateway := g, stack := stack } where
  current := hCurrent
  saved above f below hStack :=
    h.saved (frame :: above) f below (by rw [hTop, List.cons_append, ← hStack])

theorem LifecycleOk.restore {keccak : Keccak} {c : State} (h : LifecycleOk keccak c)
    {frame : Frame} {stack : List Frame} (hTop : c.stack = frame :: stack) :
    LifecycleOk keccak { c with gateway := frame.saved, stack := stack } :=
  h.pop hTop (h.saved [] frame stack hTop)

variable {initialTrustRoot : Bytes32}

theorem LifecycleOk.step {env : Deployment} {c : State}
    (hConsistent : Consistent env initialTrustRoot c.number c.endOf c.gateway)
    (h : LifecycleOk env.keccak c) (action : Action) :
    LifecycleOk env.keccak (step env c action) := by
  have hTransition := step_transition env c action
  generalize Chain.step env c action = c' at hTransition ⊢
  cases hTransition with
  | idle => exact h
  | nextBlock stack => exact ⟨h.current, h.saved⟩
  | enter => exact h.push rfl h.current
  | leave stack =>
      refine h.pop stack ?_
      have hCurrent := h.current
      rwa [stack] at hCurrent
  | reverted stack => exact h.restore stack
  | requested ok => exact ⟨h.current.requestVerification ok, h.saved⟩
  | path ok =>
      obtain ⟨begun, event, hBegin, -, -, hEvent, -, hRecord⟩ := verifyPathAndRecord_ok ok
      have hTree : isTreeEvent event = false := by rw [hEvent]; rfl
      have hNeutral : isNeutral event = true := by rw [hEvent]; rfl
      have hBegun := (hConsistent.quiet (beginRequest_quiet hBegin)).quiet
        (emit_quiet begun c.number hTree)
      have hRequests := (h.current.beginRequest hBegin).emit c.number hNeutral
      exact ⟨hRequests.recordAndResolve hBegun.committed hBegun.pos hBegun.active_le hRecord,
        h.saved⟩
  | begun ok => exact h.push rfl (h.current.beginRequest ok)
  | direct stack ok =>
      obtain ⟨event, hEvent, -, hRecord⟩ := directVerified_ok ok
      have hTree : isTreeEvent event = false := by rw [hEvent]; rfl
      have hNeutral : isNeutral event = true := by rw [hEvent]; rfl
      have hEmitted := hConsistent.quiet (emit_quiet c.gateway c.number hTree)
      have hCurrent := h.current
      rw [stack] at hCurrent
      exact h.pop stack ((hCurrent.emit c.number hNeutral).recordAndResolve hEmitted.committed
        hEmitted.pos hEmitted.active_le hRecord)

/-- The lifecycle invariant at every point of every run. -/
theorem run_lifecycle (env : Deployment) (initialTrustRoot : Bytes32) {start : ℕ}
    (hStart : 0 < start) (actions : List Action) :
    LifecycleOk env.keccak (run env (deploy env initialTrustRoot start) actions) := by
  induction actions using List.reverseRecOn with
  | nil => exact ⟨initial_requestsOk env.keccak env.depth initialTrustRoot, by simp [deploy]⟩
  | append_singleton actions action ih =>
      rw [run_append]
      exact ih.step (run_consistent env initialTrustRoot hStart actions).current action

/-- What the Gateway guarantees at a point `c'` of a run, with respect to an earlier point `c`.
The guarantees that something persists are for a point `c` at which no call is open; inside an
open call they hold unless that call reverts. -/
structure Guarantees (keccak : Keccak) (c c' : State) : Prop where
  resolvedOnce : ∀ id, c'.gateway.logs.countP (resolves id) =
    if (c'.gateway.requests id).resolved then 1 else 0
  resolvedKept : c.stack = [] → ∀ id, (c.gateway.requests id).resolved = true →
    (c'.gateway.requests id).resolved = true
  resolvedExists : ∀ id, (c'.gateway.requests id).resolved = true →
    (c'.gateway.requests id).exists = true
  notProcessing : c'.stack = [] → ∀ id, (c'.gateway.requests id).processing = false
  keyKept : c.stack = [] → ∀ key, c.gateway.dependencyRecorded key = true →
    c'.gateway.dependencyRecorded key = true
  keyOnce : ∀ key, c'.gateway.logs.countP (recordsKey key) =
    if c'.gateway.dependencyRecorded key then 1 else 0
  leaves : appendedLeaves c'.gateway.logs =
    (recorded c'.gateway.logs).map fun d => paperLeaf keccak d.1 d.2
  updated : ∀ block, c'.gateway.hasTrustRootUpdateAtBlock block = true ↔
    recordedIn block c'.gateway.logs ≠ []
  updateRoot : ∀ block < c'.number, c'.gateway.hasTrustRootUpdateAtBlock block = true →
    c'.gateway.trustRootByUpdateBlock block = (c'.endOf block).currentTrustRoot
  currentUpdateRoot : c'.gateway.hasTrustRootUpdateAtBlock c'.number = true →
    c'.gateway.trustRootByUpdateBlock c'.number = c'.gateway.currentTrustRoot
  noUpdateRoot : ∀ block, c'.gateway.hasTrustRootUpdateAtBlock block = false →
    c'.gateway.trustRootByUpdateBlock block = 0
  frozen : ∀ block < c.number,
    c'.gateway.trustRootByUpdateBlock block = c.gateway.trustRootByUpdateBlock block ∧
      c'.gateway.hasTrustRootUpdateAtBlock block = c.gateway.hasTrustRootUpdateAtBlock block
  unchanged : ∀ block < c'.number, recordedIn block c'.gateway.logs = [] →
    (c'.endOf block).toCommitment = (c'.endOf (block - 1)).toCommitment
  unchangedSoFar : recordedIn c'.number c'.gateway.logs = [] →
    c'.gateway.toCommitment = (c'.endOf (c'.number - 1)).toCommitment

/-- A block has an update exactly when a dependency was recorded in it. -/
theorem Consistent.updated_iff {env : Deployment} {number : ℕ} {endOf : ℕ → Gateway} {g : Gateway}
    (h : Consistent env initialTrustRoot number endOf g) (block : ℕ) :
    g.hasTrustRootUpdateAtBlock block = true ↔ recordedIn block g.logs ≠ [] := by
  rw [h.committed.updated]
  constructor
  · rintro ⟨t, hMem, rfl⟩
    rw [h.committed.dependencies t hMem]
    exact h.populated t hMem
  · exact h.committed.opened block

/-- The commitment stands still while no dependency is recorded. -/
theorem Consistent.unchanged {env : Deployment} {number : ℕ} {endOf : ℕ → Gateway} {g : Gateway}
    (h : Consistent env initialTrustRoot number endOf g) (hNone : recordedIn number g.logs = []) :
    g.toCommitment = (endOf (number - 1)).toCommitment := by
  refine h.idle fun hActive => ?_
  obtain ⟨t, rest, hHistory, hBlock⟩ := h.committed.exists_head h.pos hActive
  have hMem : t ∈ historyOf g.logs := by rw [hHistory]; exact List.mem_cons_self
  exact h.populated t hMem (by rw [← h.committed.dependencies t hMem, hBlock, hNone])

theorem recordedIn_filter_le {block : ℕ} (logs : List LogEntry) :
    recordedIn block (logs.filter fun entry => entry.blockNumber ≤ block) =
      recordedIn block logs := by
  simp only [recordedIn, List.filter_filter]
  congr 1
  refine List.filter_congr fun entry _ => ?_
  by_cases hEq : entry.blockNumber = block <;> simp [hEq]

theorem countP_eq_one_of_prefix {p : LogEntry → Bool} {logs logs' : List LogEntry} {b : Bool}
    (hPrefix : logs <+: logs') (hOne : logs.countP p = 1)
    (hCount : logs'.countP p = if b then 1 else 0) : b = true := by
  have hLe := hPrefix.sublist.countP_le (p := p)
  cases b with
  | true => rfl
  | false =>
      rw [if_neg Bool.false_ne_true] at hCount
      omega

/-- The guarantees hold between any two points of any run, with any verifier. -/
theorem run_guarantees (env : Deployment) (initialTrustRoot : Bytes32) {start : ℕ}
    (hStart : 0 < start) (first second : List Action) :
    Guarantees env.keccak (run env (deploy env initialTrustRoot start) first)
      (run env (run env (deploy env initialTrustRoot start) first) second) := by
  have h := (run_consistent env initialTrustRoot hStart first).current
  have hLife := (run_lifecycle env initialTrustRoot hStart first).current
  have h' := (run_consistent env initialTrustRoot hStart (first ++ second)).current
  have hLife' := (run_lifecycle env initialTrustRoot hStart (first ++ second)).current
  have hDone := run_completed env initialTrustRoot hStart (first ++ second)
  rw [run_append] at h' hLife' hDone
  generalize run env (deploy env initialTrustRoot start) first = c at *
  have hPrefix := fun hStack => run_logs_prefix hStack h second
  have hEnd : ∀ block < c.number, block < (run env c second).number ∧
      (run env c second).endOf block = c.endOf block := fun _ hBlock => run_endOf hBlock second
  generalize run env c second = c' at *
  refine
    { resolvedOnce := hLife'.resolvedOnce
      resolvedKept := fun hStack id hResolved => ?_
      resolvedExists := hLife'.exists_of_resolved
      notProcessing := fun hStack id => ?_
      keyKept := fun hStack key hKey => ?_
      keyOnce := hLife'.keyOnce
      leaves := hLife'.leaves
      updated := h'.updated_iff
      updateRoot := fun block hBlock hUpdated => ?_
      currentUpdateRoot := fun hUpdated => ?_
      noUpdateRoot := h'.committed.untouched
      frozen := fun block hBlock => ?_
      unchanged := fun block hBlock hNone => ?_
      unchangedSoFar := h'.unchanged }
  · exact countP_eq_one_of_prefix (hPrefix hStack)
      (by rw [hLife.resolvedOnce id, if_pos hResolved]) (hLife'.resolvedOnce id)
  · have hNot := mt (hLife'.processing id).mp (by simp [hStack, inFlight])
    simpa using hNot
  · exact countP_eq_one_of_prefix (hPrefix hStack)
      (by rw [hLife.keyOnce key, if_pos hKey]) (hLife'.keyOnce key)
  · obtain ⟨t, hMem, rfl⟩ := (h'.committed.updated block).mp hUpdated
    rw [h'.committed.updateRoots t hMem, h'.ended t hMem hBlock]
  · obtain ⟨t, hMem, hBlock⟩ := (h'.committed.updated c'.number).mp hUpdated
    rw [← hBlock, h'.committed.updateRoots t hMem, h'.root_of_current hMem hBlock]
  · obtain ⟨hLater, hSame⟩ := hEnd block hBlock
    rw [h'.archived.updateRoots block hLater, h'.archived.updated block hLater, hSame,
      h.archived.updateRoots block hBlock, h.archived.updated block hBlock]
    exact ⟨rfl, rfl⟩
  · rcases Nat.lt_or_ge block start with hEarly | hLate
    · rw [hDone.deployed block hEarly, hDone.deployed (block - 1) (by omega)]
    · refine (hDone.consistent block hLate hBlock).unchanged ?_
      rw [h'.archived.logs_at block hBlock, recordedIn_filter_le, hNone]

/-- Over every run, with a direct verifier that may revert, lie or call back: between any two
points the guarantees hold, and a reverting call leaves exactly the state in which it was
made, whatever ran inside it. -/
theorem gateway_lifecycle (env : Deployment) (initialTrustRoot : Bytes32) (start : ℕ)
    (hStart : 0 < start) (first second : List Action) :
    let deployed := deploy env initialTrustRoot start
    let c := run env deployed first
    let c' := run env c second
    Guarantees env.keccak c c' ∧
      ∀ action, Reverts env c' action →
        step env c' action = c' ∨
          ∃ prior call rest, first ++ second = prior ++ call :: rest ∧
            (run env deployed (prior ++ [call])).stack = c'.stack ∧
            step env c' action = run env deployed prior := by
  intro deployed c c'
  refine ⟨run_guarantees env initialTrustRoot hStart first second, fun action hReverts => ?_⟩
  have hRun : c' = run env deployed (first ++ second) := (run_append ..).symm
  rw [hRun] at hReverts ⊢
  exact run_reverts rfl hReverts

/-- Two requests for the same source block; while the first is being verified the verifier
tries it again, and verifies the second. -/
def toyReentrant : List Action :=
  let outer := computeRequestId toyDeployment 7 0 5 3 700
  let inner := computeRequestId toyDeployment 8 0 5 3 700
  [.requestVerification 7 5 3 700,
    .requestVerification 8 5 3 700,
    .verifyDirectAndRecord outer [],
    .verifyDirectAndRecord outer [],
    .verifyDirectAndRecord inner [],
    .verifierReturns 99,
    .verifierReturns 99]

theorem gateway_lifecycle_toy :
    let outer := computeRequestId toyDeployment 7 0 5 3 700
    let inner := computeRequestId toyDeployment 8 0 5 3 700
    let c := run toyDeployment (deploy toyDeployment 0 1) toyReentrant
    c.gateway.logs.countP (resolves outer) = 1 ∧
      c.gateway.logs.countP (resolves inner) = 1 ∧
      c.gateway.logs.countP (recordsKey (computeDependencyKey toyKeccak 5 3 700 99)) = 1 := by
  have hFacts :
      let c := run toyDeployment (deploy toyDeployment 0 1) toyReentrant
      (c.gateway.requests (computeRequestId toyDeployment 7 0 5 3 700)).resolved = true ∧
        (c.gateway.requests (computeRequestId toyDeployment 8 0 5 3 700)).resolved = true ∧
        c.gateway.dependencyRecorded (computeDependencyKey toyKeccak 5 3 700 99) = true := by
    decide +kernel
  have h := (gateway_lifecycle toyDeployment 0 1 (by decide) [] toyReentrant).1
  rw [run_nil] at h
  generalize run toyDeployment (deploy toyDeployment 0 1) toyReentrant = c at hFacts h ⊢
  obtain ⟨hOuter, hInner, hKey⟩ := hFacts
  exact ⟨by rw [h.resolvedOnce, if_pos hOuter], by rw [h.resolvedOnce, if_pos hInner],
    by rw [h.keyOnce, if_pos hKey]⟩

end TrustMap.Contracts.Chain
