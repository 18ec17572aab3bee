import TrustMap.Contracts.RequestContext

/-!
The values of emitted events. A request names a chain other than zero and a path has at least one
hop, so the events that repeat them do as well, in every run and to any depth of reentrant calls.
-/

namespace TrustMap.Contracts

/-- What the Gateway has checked about the values of an event before it emits it. -/
def GatewayEvent.Checked : GatewayEvent → Prop
  | .trustRootUpdated .. => True
  | .verificationRequested _ _ sourceChainId .. => sourceChainId ≠ 0
  | .directVerificationSucceeded _ sourceChainId .. => sourceChainId ≠ 0
  | .pathVerificationSucceeded _ sourceChainId _ _ _ hopCount _ => sourceChainId ≠ 0 ∧ hopCount ≠ 0
  | .dependencyRecorded _ _ sourceChainId .. => sourceChainId ≠ 0
  | .requestResolved .. => True

namespace TrustMapGateway

open PathProofVerifier TrustRootCommitment

/-- The requests name a chain, and the log holds checked events only. -/
structure EmitsChecked (g : Gateway) : Prop where
  requests : ∀ id, (g.requests id).exists = true → (g.requests id).sourceChainId ≠ 0
  logs : ∀ entry ∈ g.logs, entry.event.Checked

variable {env : Deployment} {g g' : Gateway} {blockNumber : ℕ}

theorem initial_emitsChecked (keccak : Keccak) (depth : TreeDepth) (initialTrustRoot : Bytes32) :
    EmitsChecked (initial keccak depth initialTrustRoot) := by
  constructor
  · intro id hExists
    cases hExists
  · intro entry hEntry
    cases hEntry

theorem EmitsChecked.emit {event : GatewayEvent} (h : EmitsChecked g) (hEvent : event.Checked) :
    EmitsChecked (g.emit blockNumber event) := by
  refine ⟨h.requests, ?_⟩
  intro entry hEntry
  rcases List.mem_append.mp hEntry with hOld | hNew
  · exact h.logs entry hOld
  · rw [List.mem_singleton.mp hNew]
    exact hEvent

/-- The tree, the nonces and the set of recorded keys do not matter. -/
theorem EmitsChecked.congr (h : EmitsChecked g) (hRequests : g'.requests = g.requests)
    (hLogs : g'.logs = g.logs) : EmitsChecked g' := by
  constructor
  · rw [hRequests]
    exact h.requests
  · rw [hLogs]
    exact h.logs

variable {requestId : Bytes32}

/-- One request written, with a chain of its own or as it was. -/
theorem EmitsChecked.update {request : VerificationRequest} (h : EmitsChecked g)
    (hRequests : g'.requests = Function.update g.requests requestId request)
    (hLogs : g'.logs = g.logs) (hChain : request.exists = true → request.sourceChainId ≠ 0) :
    EmitsChecked g' := by
  constructor
  · intro id hExists
    rw [hRequests] at hExists ⊢
    by_cases hEq : id = requestId
    · subst hEq
      rw [Function.update_self] at hExists ⊢
      exact hChain hExists
    · rw [Function.update_of_ne hEq] at hExists ⊢
      exact h.requests id hExists
  · rw [hLogs]
    exact h.logs

theorem EmitsChecked.requestVerification {sender : Address} {sourceChainId sourceHeight : Uint256}
    {sourceBlockHash : Bytes32} (h : EmitsChecked g)
    (hOk : requestVerification env blockNumber sender sourceChainId sourceHeight sourceBlockHash g = .ok (requestId, g')) : EmitsChecked g' := by
  simp only [TrustMapGateway.requestVerification] at hOk
  split at hOk
  · cases hOk
  rename_i hChain
  split at hOk
  · cases hOk
  split at hOk
  · cases hOk
  split at hOk
  · cases hOk
  cases hOk
  exact EmitsChecked.emit (h.update rfl rfl fun _ => hChain) hChain

theorem EmitsChecked.beginRequest (h : EmitsChecked g) (hOk : beginRequest requestId g = .ok g') :
    EmitsChecked g' := by
  obtain ⟨-, hLogs, hRequests⟩ := beginRequest_ok hOk
  exact h.update hRequests hLogs (h.requests requestId)

theorem appendLeaf_checked {depth : TreeDepth} {keccak : Keccak} {leaf : Bytes32} {isAnchor : Bool}
    {c c' : Commitment} {leafIndex : UInt32} {event : GatewayEvent}
    (hOk : appendLeaf keccak depth blockNumber requestId leaf isAnchor c = .ok (leafIndex, c', event)) : event.Checked := by
  simp only [appendLeaf] at hOk
  split at hOk
  · cases hOk
  · cases hOk
    trivial

theorem beginBlockTree_checked {depth : TreeDepth} {keccak : Keccak} {leaf : Bytes32}
    {c c' : Commitment} {event : GatewayEvent}
    (hOk : beginBlockTree keccak depth blockNumber requestId leaf c = .ok (c', event)) :
    event.Checked := by
  simp only [beginBlockTree] at hOk
  split at hOk
  · cases hOk
  rename_i hLeaf
  cases hOk
  exact appendLeaf_checked hLeaf

theorem EmitsChecked.openBlockTree (h : EmitsChecked g)
    (hOk : openBlockTree env blockNumber requestId g = .ok g') : EmitsChecked g' := by
  simp only [TrustMapGateway.openBlockTree] at hOk
  split at hOk
  · split at hOk
    · cases hOk
    split at hOk
    · cases hOk
    rename_i hTree
    cases hOk
    exact EmitsChecked.emit (h.congr rfl rfl) (beginBlockTree_checked hTree)
  · cases hOk
    exact h

variable {key sourceTrustRoot : Bytes32}

theorem EmitsChecked.appendDependency (h : EmitsChecked g)
    (hExists : (g.requests requestId).exists = true)
    (hOk : appendDependency env blockNumber requestId sourceTrustRoot key g = .ok g') :
    EmitsChecked g' := by
  simp only [TrustMapGateway.appendDependency] at hOk
  split at hOk
  · cases hOk
  rename_i commitment event hLeaf
  cases hOk
  have hAppended : EmitsChecked (Gateway.emit { g with toCommitment := commitment } blockNumber
      event) :=
    EmitsChecked.emit (h.congr rfl rfl) (appendLeaf_checked hLeaf)
  exact EmitsChecked.emit (hAppended.congr rfl rfl) (h.requests requestId hExists)

variable {newDependency : Bool}

theorem EmitsChecked.recordDependency (h : EmitsChecked g)
    (hExists : (g.requests requestId).exists = true)
    (hOk : recordDependency env blockNumber requestId sourceTrustRoot key g = .ok (newDependency, g')) : EmitsChecked g' := by
  simp only [TrustMapGateway.recordDependency] at hOk
  split at hOk
  · cases hOk
    exact h
  split at hOk
  · cases hOk
  rename_i opened hOpened
  split at hOk
  · cases hOk
  rename_i recorded hRecorded
  cases hOk
  rw [← openBlockTree_requests hOpened] at hExists
  exact (h.openBlockTree hOpened).appendDependency hExists hRecorded

theorem EmitsChecked.recordAndResolve {key' : Bytes32} (h : EmitsChecked g)
    (hExists : (g.requests requestId).exists = true)
    (hOk : recordAndResolve env blockNumber requestId sourceTrustRoot key g = .ok (key', newDependency, g')) : EmitsChecked g' := by
  obtain ⟨-, recorded, hRecord, rfl⟩ := recordAndResolve_ok hOk
  have hRecorded := h.recordDependency hExists hRecord
  exact EmitsChecked.emit (hRecorded.update rfl rfl (hRecorded.requests requestId)) trivial

/-- The request of a verifier that returns was there when the verifier was called. -/
theorem EmitsChecked.directVerified (h : EmitsChecked g)
    (hExists : (g.requests requestId).exists = true)
    (hOk : directVerified env blockNumber requestId sourceTrustRoot g = .ok (key, newDependency, g')) : EmitsChecked g' := by
  obtain ⟨event, rfl, -, hRecord⟩ := directVerified_ok hOk
  refine EmitsChecked.recordAndResolve (h.emit ?_) hExists hRecord
  exact h.requests requestId hExists

theorem EmitsChecked.verifyPathAndRecord {baseTrustRoot : Bytes32} {blockHashes : List Bytes32}
    {witnesses : List Witness} (h : EmitsChecked g)
    (hOk : verifyPathAndRecord env blockNumber requestId baseTrustRoot blockHashes witnesses g = .ok (key, newDependency, g')) : EmitsChecked g' := by
  obtain ⟨begun, event, hBegin, hHead, -, rfl, -, hRecord⟩ := verifyPathAndRecord_ok hOk
  have hBegun := h.beginRequest hBegin
  have hExists := (beginRequest_keeps hBegin requestId (beginRequest_ok hBegin).1).1
  have hHops : blockHashes.length ≠ 0 := by
    intro hEmpty
    rw [List.length_eq_zero_iff.mp hEmpty] at hHead
    cases hHead
  refine EmitsChecked.recordAndResolve (hBegun.emit ?_) hExists hRecord
  exact ⟨hBegun.requests requestId hExists, hHops⟩

end TrustMapGateway

namespace Chain

open TrustMapGateway

/-- One action keeps the log checked. -/
theorem Transition.emitsChecked {env : Deployment} {c c' : State} {action : Action}
    (hTransition : Transition env c action c') (h : Throughout EmitsChecked c)
    (hFrames : KeepsFrames c.gateway c.stack) : EmitsChecked c'.gateway := by
  cases hTransition with
  | idle | nextBlock stack | enter | leave stack => exact h.current
  | reverted stack => exact h.saved _ (by rw [stack]; exact List.mem_cons_self)
  | requested ok => exact h.current.requestVerification ok
  | path ok => exact h.current.verifyPathAndRecord ok
  | begun ok => exact h.current.beginRequest ok
  | @direct requestId _ _ _ _ _ _ _ stack ok =>
      rw [stack] at hFrames
      obtain ⟨hCalled, hKeeps, -⟩ := hFrames
      exact h.current.directVerified (hKeeps requestId hCalled).1 ok

theorem run_emitsChecked (env : Deployment) (initialTrustRoot : Bytes32) (start : ℕ)
    (actions : List Action) :
    Throughout EmitsChecked (run env (deploy env initialTrustRoot start) actions) := by
  induction actions using List.reverseRecOn with
  | nil =>
      refine ⟨initial_emitsChecked _ _ _, ?_⟩
      intro frame hFrame
      cases hFrame
  | append_singleton actions action ih =>
      have hFrames := run_keepsFrames env initialTrustRoot start actions
      rw [run_append]
      have hTransition := step_transition env (run env (deploy env initialTrustRoot start) actions)
        action
      exact ⟨hTransition.emitsChecked ih hFrames, hTransition.saved ih⟩

end Chain

end TrustMap.Contracts
