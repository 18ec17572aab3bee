import TrustMap.Contracts.Lifecycle

/-!
The context of a request: source chain ID, source height and source block hash, as its requester
named them. It never changes once the request exists, so a verifier that is called back and forth
answers about the same block that is recorded when it returns.
-/

namespace TrustMap.Contracts

/-- What the requester chose. -/
def VerificationRequest.context (request : VerificationRequest) : Uint256 × Uint256 × Bytes32 :=
  (request.sourceChainId, request.sourceHeight, request.sourceBlockHash)

namespace TrustMapGateway

open PathProofVerifier TrustRootCommitment

/-- Every request of `g` is a request of `g'` with the same context. -/
def Keeps (g g' : Gateway) : Prop :=
  ∀ id, (g.requests id).exists = true →
    (g'.requests id).exists = true ∧ (g'.requests id).context = (g.requests id).context

theorem Keeps.of_eq {g g' : Gateway} (h : g'.requests = g.requests) : Keeps g g' := by
  intro id hExists
  rw [h]
  exact ⟨hExists, rfl⟩

theorem Keeps.trans {g g' g'' : Gateway} (h : Keeps g g') (h' : Keeps g' g'') : Keeps g g'' := by
  intro id hExists
  obtain ⟨hExists', hContext⟩ := h id hExists
  obtain ⟨hExists'', hContext'⟩ := h' id hExists'
  exact ⟨hExists'', hContext'.trans hContext⟩

section

variable {env : Deployment} {g g' : Gateway} {blockNumber : ℕ}

variable {requestId : Bytes32}

/-- A request appears under an identifier that was free. -/
theorem requestVerification_ok {sender : Address} {sourceChainId sourceHeight : Uint256}
    {sourceBlockHash : Bytes32}
    (hOk : requestVerification env blockNumber sender sourceChainId sourceHeight sourceBlockHash g = .ok (requestId, g')) :
    (g.requests requestId).exists = false ∧
      g'.requests = Function.update g.requests requestId
        ⟨sender, sourceChainId, sourceHeight, sourceBlockHash, true, false, false⟩ ∧
      ∃ nonce, g'.logs = g.logs ++ [⟨blockNumber, .verificationRequested requestId sender
        sourceChainId sourceHeight sourceBlockHash nonce⟩] := by
  simp only [requestVerification] at hOk
  split at hOk
  · cases hOk
  split at hOk
  · cases hOk
  split at hOk
  · cases hOk
  split at hOk
  · cases hOk
  rename_i hFree
  cases hOk
  exact ⟨by simpa using hFree, rfl, _, rfl⟩

theorem requestVerification_keeps {sender : Address} {sourceChainId sourceHeight : Uint256}
    {sourceBlockHash : Bytes32}
    (hOk : requestVerification env blockNumber sender sourceChainId sourceHeight sourceBlockHash g = .ok (requestId, g')) : Keeps g g' := by
  obtain ⟨hFree, hRequests, -⟩ := requestVerification_ok hOk
  intro id hExists
  have hNe : id ≠ requestId := by
    rintro rfl
    rw [hFree] at hExists
    cases hExists
  rw [hRequests, Function.update_of_ne hNe]
  exact ⟨hExists, rfl⟩

/-- Only existing requests are begun. -/
theorem beginRequest_ok (hOk : beginRequest requestId g = .ok g') :
    (g.requests requestId).exists = true ∧ g'.logs = g.logs ∧
      g'.requests = Function.update g.requests requestId
        { g.requests requestId with processing := true } := by
  simp only [beginRequest] at hOk
  split at hOk
  · cases hOk
  split at hOk
  · cases hOk
  split at hOk
  · cases hOk
  rename_i hExists _ _
  cases hOk
  exact ⟨by simpa using hExists, rfl, rfl⟩

/-- A change of the flags of one request. -/
theorem Keeps.of_update {request : VerificationRequest}
    (hRequests : g'.requests = Function.update g.requests requestId request)
    (hExists : request.exists = (g.requests requestId).exists)
    (hContext : request.context = (g.requests requestId).context) : Keeps g g' := by
  intro id hId
  rw [hRequests]
  by_cases hEq : id = requestId
  · subst hEq
    rw [Function.update_self]
    exact ⟨hExists.trans hId, hContext⟩
  · rw [Function.update_of_ne hEq]
    exact ⟨hId, rfl⟩

theorem beginRequest_keeps (hOk : beginRequest requestId g = .ok g') : Keeps g g' :=
  Keeps.of_update (beginRequest_ok hOk).2.2 rfl rfl

theorem openBlockTree_requests (hOk : openBlockTree env blockNumber requestId g = .ok g') :
    g'.requests = g.requests := by
  simp only [openBlockTree] at hOk
  split at hOk
  · split at hOk
    · cases hOk
    split at hOk
    · cases hOk
    · cases hOk
      rfl
  · cases hOk
    rfl

variable {sourceTrustRoot : Bytes32}

theorem appendDependency_requests {key : Bytes32}
    (hOk : appendDependency env blockNumber requestId sourceTrustRoot key g = .ok g') :
    g'.requests = g.requests := by
  simp only [appendDependency] at hOk
  split at hOk
  · cases hOk
  · cases hOk
    rfl

/-- Recording a dependency changes no request. -/
theorem recordDependency_requests {key : Bytes32} {newDependency : Bool}
    (hOk : recordDependency env blockNumber requestId sourceTrustRoot key g = .ok (newDependency, g')) : g'.requests = g.requests := by
  simp only [recordDependency] at hOk
  split at hOk
  · cases hOk
    rfl
  split at hOk
  · cases hOk
  rename_i opened hOpened
  split at hOk
  · cases hOk
  rename_i recorded hRecorded
  cases hOk
  exact (appendDependency_requests hRecorded).trans (openBlockTree_requests hOpened)

theorem recordAndResolve_keeps {key key' : Bytes32} {newDependency : Bool}
    (hOk : recordAndResolve env blockNumber requestId sourceTrustRoot key g = .ok (key', newDependency, g')) : Keeps g g' := by
  obtain ⟨-, recorded, hRecord, rfl⟩ := recordAndResolve_ok hOk
  have hResolve : Keeps recorded (resolve blockNumber requestId key newDependency recorded) :=
    Keeps.of_update rfl rfl rfl
  exact (Keeps.of_eq (recordDependency_requests hRecord)).trans hResolve

end

end TrustMapGateway

namespace Chain

open TrustMapGateway

theorem GatewayStep.keeps {env : Deployment} {number : ℕ} {g g' : Gateway}
    (hStep : GatewayStep env number g g') : Keeps g g' := by
  cases hStep with
  | requested ok => exact requestVerification_keeps ok
  | begun ok => exact beginRequest_keeps ok
  | direct ok =>
      obtain ⟨event, -, -, hRecord⟩ := directVerified_ok ok
      have hKeeps := recordAndResolve_keeps hRecord
      exact (Keeps.of_eq rfl).trans hKeeps
  | path ok =>
      obtain ⟨begun, event, hBegin, -, -, -, -, hRecord⟩ := verifyPathAndRecord_ok ok
      have hKeeps := recordAndResolve_keeps hRecord
      exact (beginRequest_keeps hBegin).trans ((Keeps.of_eq rfl).trans hKeeps)

/-- The context a direct verifier that is to answer now was called with. -/
def asked (c : State) : Option (Uint256 × Uint256 × Bytes32) :=
  match c.stack with
  | .verify saved requestId _ :: _ => some (saved.requests requestId).context
  | _ => none

/-- The request a waiting frame was called for exists. -/
def Frame.Called : Frame → Prop
  | .code _ => True
  | .verify saved requestId _ => (saved.requests requestId).exists = true

/-- Each storage on the stack keeps the requests of the storages below it. -/
def KeepsFrames : Gateway → List Frame → Prop
  | _, [] => True
  | g, frame :: rest => Frame.Called frame ∧ Keeps frame.saved g ∧ KeepsFrames frame.saved rest

theorem KeepsFrames.keeps {g g' : Gateway} {stack : List Frame} (h : KeepsFrames g stack)
    (hKeeps : Keeps g g') : KeepsFrames g' stack := by
  cases stack with
  | nil => trivial
  | cons frame rest => exact ⟨h.1, h.2.1.trans hKeeps, h.2.2⟩

theorem run_keepsFrames (env : Deployment) (initialTrustRoot : Bytes32) (start : ℕ)
    (actions : List Action) :
    KeepsFrames (run env (deploy env initialTrustRoot start) actions).gateway
      (run env (deploy env initialTrustRoot start) actions).stack := by
  induction actions using List.reverseRecOn with
  | nil => trivial
  | append_singleton actions action ih =>
      rw [run_append]
      change KeepsFrames (step env _ action).gateway (step env _ action).stack
      generalize run env (deploy env initialTrustRoot start) actions = c at ih ⊢
      have hTransition := step_transition env c action
      generalize step env c action = c' at hTransition ⊢
      cases hTransition with
      | idle | nextBlock stack => exact ih
      | enter => exact ⟨trivial, Keeps.of_eq rfl, ih⟩
      | leave stack =>
          rw [stack] at ih
          exact ih.2.2.keeps ih.2.1
      | reverted stack =>
          rw [stack] at ih
          exact ih.2.2
      | requested ok => exact ih.keeps (GatewayStep.keeps (.requested ok))
      | path ok => exact ih.keeps (GatewayStep.keeps (.path ok))
      | begun ok =>
          exact ⟨(beginRequest_ok ok).1, beginRequest_keeps ok, ih⟩
      | direct stack ok =>
          rw [stack] at ih
          exact ih.2.2.keeps (ih.2.1.trans (GatewayStep.keeps (.direct ok)))

end Chain

end TrustMap.Contracts
