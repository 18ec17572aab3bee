import TrustMap.Mapnode.PathProof

/-!
The transactions of the Go package `executor`: their states, the legal transitions between them,
and what `SavePrepared` asks of a signed transaction.
-/

namespace TrustMap.Mapnode

open Checks

/-- `executor.ExecutionState`. -/
inductive ExecutionState
  | prepared
  | submitted
  | confirmed
  | retryable
  | reverted
  | superseded
  deriving DecidableEq, Repr

namespace ExecutionState

/-- `ValidateExecutionTransition`. -/
def legal : ExecutionState → ExecutionState → Bool
  | .prepared, .submitted | .prepared, .retryable | .prepared, .reverted
  | .prepared, .superseded => true
  | .submitted, .confirmed | .submitted, .retryable | .submitted, .reverted
  | .submitted, .superseded => true
  | .retryable, .submitted | .retryable, .reverted | .retryable, .superseded => true
  | _, _ => false

/-- The states of `NextRequest`, `LoadActive` and `ListRecoverable`. -/
def isActive : ExecutionState → Bool
  | .prepared | .submitted | .retryable => true
  | .confirmed | .reverted | .superseded => false

/-- The states of a submission that is given up. -/
def isGivenUp : ExecutionState → Bool
  | .reverted | .superseded => true
  | .prepared | .submitted | .confirmed | .retryable => false

/-- The states that a reason has to be given for. -/
def needsReason : ExecutionState → Bool
  | .retryable | .reverted | .superseded => true
  | .prepared | .submitted | .confirmed => false

end ExecutionState

/-- The errors of the package `executor` about submissions. -/
inductive SubmissionError
  | submissionIDMismatch
  | invalidSubmission
  | invalidTransition
  | indexerBundlePending
  deriving DecidableEq, Repr

/-- `TransactionSubmission`; the times are left out. -/
structure TransactionSubmission where
  id : Bytes32
  requestID : Bytes32
  attempt : UInt64
  planID : Bytes32
  planType : PlanType
  snapshotID : Bytes32
  proofID : Option Bytes32
  homeChainID : Bytes32
  gateway : Address
  sender : Address
  nonce : UInt64
  calldataHash : Bytes32
  rawSignedTx : Bytes
  txHash : Bytes32
  maxFeePerGas : ℕ
  maxPriorityFeePerGas : ℕ
  gasLimit : UInt64
  state : ExecutionState
  reason : String
  deriving DecidableEq

namespace TransactionSubmission

/-- `appendBigWord`: a number of more than 256 bits is written as zero. -/
def bigWord (value : ℕ) : Bytes :=
  Words.bigEndian 32 (if value < 2 ^ 256 then value else 0)

/-- The bytes hashed for the identifier: the numbers of 64 bits take eight bytes. -/
def encoded (submission : TransactionSubmission) : Bytes :=
  lengthPrefixed (textBytes "TrustMap/TransactionSubmission/ID/v1") ++
    Words.bytes submission.requestID ++ Words.bigEndian 8 submission.attempt.toNat ++
    Words.bytes submission.planID ++ lengthPrefixed (textBytes submission.planType.text) ++
    Words.bytes submission.snapshotID ++
    (match submission.proofID with
      | none => [0]
      | some id => 1 :: Words.bytes id) ++
    Words.bytes submission.homeChainID ++ Words.bigEndian 20 submission.gateway.toNat ++
    Words.bigEndian 20 submission.sender.toNat ++ Words.bigEndian 8 submission.nonce.toNat ++
    Words.bytes submission.calldataHash ++ lengthPrefixed submission.rawSignedTx ++
    Words.bytes submission.txHash ++ bigWord submission.maxFeePerGas ++
    bigWord submission.maxPriorityFeePerGas ++
    Words.bigEndian 8 submission.gasLimit.toNat

/-- `ComputeSubmissionID`. -/
def computeID (keccak : Keccak) (submission : TransactionSubmission) : Bytes32 :=
  keccak submission.encoded

/-- `ValidatePrepared`; the fees are natural numbers, so they are neither missing nor negative. -/
def validatePrepared (keccak : Keccak) (submission : TransactionSubmission) :
    Except SubmissionError Unit := do
  require (submission.requestID ≠ 0 ∧ submission.planID ≠ 0 ∧ submission.snapshotID ≠ 0 ∧
    submission.homeChainID ≠ 0 ∧ submission.gateway ≠ 0 ∧ submission.sender ≠ 0 ∧
    submission.calldataHash ≠ 0 ∧ submission.txHash ≠ 0 ∧ submission.rawSignedTx ≠ [] ∧
    submission.rawSignedTx.length ≤ 1024 * 1024 ∧ submission.gasLimit ≠ 0 ∧
    0 < submission.maxFeePerGas ∧ submission.maxPriorityFeePerGas ≤ submission.maxFeePerGas ∧
    submission.maxFeePerGas < 2 ^ 256 ∧ submission.state = .prepared ∧ submission.reason = "")
    .invalidSubmission
  require (submission.planType = .path ↔ submission.proofID.isSome) .invalidSubmission
  require (submission.id = submission.computeID keccak) .submissionIDMismatch
  require (keccak submission.rawSignedTx = submission.txHash) .invalidSubmission

theorem state_of_validatePrepared {keccak : Keccak} {submission : TransactionSubmission}
    (hValid : submission.validatePrepared keccak = .ok ()) : submission.state = .prepared := by
  rw [validatePrepared, check_bind_eq_ok] at hValid
  have hFields := require_eq_ok.mp hValid.1
  obtain ⟨-, -, -, -, -, -, -, -, -, -, -, -, -, -, hState, -⟩ := hFields
  exact hState

/-- The columns an update of `transaction_submissions` sets; the reason is kept only for the states
that need one. -/
def move (submission : TransactionSubmission) (toState : ExecutionState) (reason : String) :
    TransactionSubmission :=
  { submission with state := toState, reason := if toState.needsReason then reason else "" }

/-- A submission without its state. -/
def content (submission : TransactionSubmission) : TransactionSubmission :=
  { submission with state := .prepared, reason := "" }

theorem move_id (toState : ExecutionState) (reason : String) (submission : TransactionSubmission) :
    (submission.move toState reason).id = submission.id := rfl

end TransactionSubmission

end TrustMap.Mapnode
