import TrustMap.Mapnode.Execution
import TrustMap.Mapnode.Store.Database

/-!
The tables of the request worker: the audit of request states, plans, path proofs and transaction
submissions. They come on top of the tables of the indexer and the gossip.
-/

namespace TrustMap.Mapnode.Store

open Transaction

/-- A row of `request_transitions`. -/
structure RequestTransition where
  requestID : Bytes32
  fromState : RequestState
  toState : RequestState
  reason : String
  deriving DecidableEq

/-- A row of `request_current_plan`. -/
structure CurrentPlan where
  requestID : Bytes32
  planID : Bytes32
  deriving DecidableEq

/-- A row of `proofs` with its rows of `proof_hops`; the witnesses stay in their own tables. -/
structure PathProofRow where
  id : Bytes32
  requestID : Bytes32
  planID : Bytes32
  snapshotID : Bytes32
  baseTrustRoot : Bytes32
  hops : List PathProofHop
  deriving DecidableEq

/-- A row of `request_execution_transitions`. -/
structure ExecutionTransition where
  requestID : Bytes32
  submissionID : Bytes32
  fromState : ExecutionState
  toState : ExecutionState
  reason : String
  deriving DecidableEq

/-- `ConfirmedTransactionReceipt`, the rows of `confirmed_transaction_receipts`. -/
structure ConfirmedReceipt where
  submissionID : Bytes32
  requestID : Bytes32
  txHash : Bytes32
  blockNumber : UInt64
  blockHash : Bytes32
  status : UInt64
  confirmations : UInt64
  deriving DecidableEq

/-- The database with the tables of the request worker. A plan holds its rows of `plan_hops`. -/
structure WorkDB where
  store : DB
  requestTransitions :
    Table fun row : RequestTransition => (row.requestID, row.fromState, row.toState)
  plans : Table Plan.id
  currentPlans : Table CurrentPlan.requestID
  proofs : Table PathProofRow.id
  submissions : Table TransactionSubmission.id
  executionTransitions :
    Table fun row : ExecutionTransition => (row.submissionID, row.fromState, row.toState)
  confirmedReceipts : Table ConfirmedReceipt.submissionID

/-- The database after the migrations. -/
def WorkDB.empty : WorkDB where
  store := .empty
  requestTransitions := .empty
  plans := .empty
  currentPlans := .empty
  proofs := .empty
  submissions := .empty
  executionTransitions := .empty
  confirmedReceipts := .empty

/-- The errors of the operations on these tables. -/
inductive WorkError
  | store (cause : StoreError)
  | planNotFound
  | planIDMismatch
  | snapshotUnsealed
  | snapshotEndpoint
  | stalePlanningAttempt
  | invalidRequestTransition
  | planning (cause : PlanningError)
  | build (cause : BuildError)
  | submission (cause : SubmissionError)
  deriving DecidableEq, Repr

/-- A transaction on the database of the worker. -/
abbrev WorkTx (α : Type) := Tx WorkDB WorkError α

/-- A transaction on the other tables. -/
def onStore {α : Type} (m : DBTx α) : WorkTx α := fun db =>
  match m db.store with
  | .ok (a, store) => .ok (a, { db with store := store })
  | .error e => .error (.store e)

/-! ## The states of requests -/

/-- `UPDATE requests SET state=?,reason=? WHERE id=?` of a row that was read before. -/
def updateRequest (id : Bytes32) (toState : RequestState) (reason : String) : WorkTx Unit :=
  onStore (modify fun db => { db with
    requests := db.requests.modify id (fun row => row.move toState reason)
      (Request.move_id toState reason) })

/-- `INSERT INTO request_transitions`. -/
def insertRequestTransition (row : RequestTransition) : WorkTx Unit := fun db =>
  match db.requestTransitions.insert? row with
  | some requestTransitions => .ok ((), { db with requestTransitions := requestTransitions })
  | none => .error (.store .constraint)

/-- `RequestRepository.Load`. -/
def loadRequest (id : Bytes32) : WorkTx Request := do
  let row ← gets (·.store.requests.find? id)
  expect row (.store .recordNotFound)

/-- `RequestRepository.Transition`: the request and whether its state has changed. -/
def requestTransition (id : Bytes32) (expectedFrom toState : RequestState) (reason : String) :
    WorkTx (Request × Bool) := do
  require (expectedFrom = toState ∨ expectedFrom.legal toState) .invalidRequestTransition
  let current ← loadRequest id
  if current.state = toState then return (current, false)
  else
    require (current.state = expectedFrom) (.store .concurrentUpdate)
    updateRequest id toState reason
    insertRequestTransition ⟨id, expectedFrom, toState, reason⟩
    return (current.move toState reason, true)

/-! ## The states of submissions -/

/-- `UPDATE transaction_submissions SET state=?,reason=? WHERE submission_id=?` of a row that was
read before. No legal transition makes a submission active again, so the index of active nonces
stays unique. -/
def updateSubmission (id : Bytes32) (toState : ExecutionState) (reason : String) : WorkTx Unit :=
  modify fun db => { db with
    submissions := db.submissions.modify id (fun row => row.move toState reason)
      (TransactionSubmission.move_id toState reason) }

/-- `INSERT INTO request_execution_transitions`. -/
def insertExecutionTransition (row : ExecutionTransition) : WorkTx Unit := fun db =>
  match db.executionTransitions.insert? row with
  | some executionTransitions => .ok ((), { db with executionTransitions := executionTransitions })
  | none => .error (.store .constraint)

/-- `TransactionRepository.Load`. -/
def loadSubmission (id : Bytes32) : WorkTx TransactionSubmission := do
  let row ← gets (·.submissions.find? id)
  expect row (.store .recordNotFound)

/-- `TransactionRepository.Transition`: the submission and whether its state has changed. -/
def submissionTransition (id : Bytes32) (fromState toState : ExecutionState) (reason : String) :
    WorkTx (TransactionSubmission × Bool) := do
  require (fromState.legal toState) (.submission .invalidTransition)
  require (toState.needsReason → reason ≠ "")
    (.store (.invalidInput "terminal/retryable execution transition requires reason"))
  let current ← loadSubmission id
  if current.state = toState then return (current, false)
  else
    require (current.state = fromState) (.store .concurrentUpdate)
    updateSubmission id toState reason
    insertExecutionTransition ⟨current.requestID, id, fromState, toState, reason⟩
    return (current.move toState reason, true)

end TrustMap.Mapnode.Store
