import TrustMap.Mapnode.Evidence

/-!
Verification requests as the Mapnode keeps them: the request of the Go package `coordinator`, its
states and the legal transitions between them.
-/

namespace TrustMap.Mapnode

/-- `coordinator.RequestState`. -/
inductive RequestState
  | observed
  | evidenceReady
  | planned
  | proofReady
  | rejected
  | retryable
  | replanned
  | directFallback
  deriving DecidableEq, Repr

/-- What identifies a request: the fields of `coordinator.Request` that never change. -/
structure RequestIdentity where
  id : Bytes32
  homeChainID : Bytes32
  gateway : Address
  requester : Address
  nonce : Bytes32
  sourceChainID : Bytes32
  sourceHeight : Bytes32
  sourceBlockHash : Bytes32
  deriving DecidableEq, Repr

/-- `coordinator.Request`; the update time is left out. -/
structure Request extends RequestIdentity where
  state : RequestState
  reason : String
  createdAt : Int64
  deriving DecidableEq

/-- The transitions of `coordinator.ValidateTransition` between different states. -/
def RequestState.legal : RequestState → RequestState → Bool
  | .observed, .evidenceReady | .observed, .rejected => true
  | .evidenceReady, .planned => true
  | .planned, .proofReady | .planned, .retryable => true
  | .proofReady, .retryable => true
  | .directFallback, .retryable => true
  | .retryable, .replanned | .retryable, .directFallback => true
  | .replanned, .proofReady => true
  | _, _ => false

/-- The columns an update of `requests` sets. -/
def Request.move (request : Request) (toState : RequestState) (reason : String) : Request :=
  { request with state := toState, reason := reason }

theorem Request.move_id (toState : RequestState) (reason : String) (request : Request) :
    (request.move toState reason).id = request.id := rfl

end TrustMap.Mapnode
