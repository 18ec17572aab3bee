import TrustMap.Library.ChainHistory
import TrustMap.Mapnode.Store.Work
import Mathlib.Data.List.Sort

/-!
Recovery of submitted transactions: `TransactionSubmitter.reconcile` asks the home chain about a
stored transaction and moves its submission. A successful receipt has to be confirmed before it
counts; a failed one counts at once.
-/

namespace TrustMap.Mapnode.Store

open Transaction ChainHistory

/-! ## Confirmation -/

/-- Whether the indexer has stored the receipt and the resolution of the transaction. -/
def WorkDB.bundled (db : WorkDB) (chainID : Bytes32) (receipt : ConfirmedReceipt) : Bool :=
  db.store.receipts.rows.any fun row =>
    row.chainID = chainID ∧ row.txHash = receipt.txHash ∧
      row.blockNumber = Words.ofUInt64 receipt.blockNumber ∧ row.blockHash = receipt.blockHash ∧
      row.requestID = receipt.requestID ∧
      db.store.resolutions.rows.any fun resolution =>
        resolution.requestID = row.requestID ∧ resolution.chainID = row.chainID ∧
          resolution.txHash = row.txHash

/-- `INSERT INTO confirmed_transaction_receipts`. -/
def insertConfirmedReceipt (receipt : ConfirmedReceipt) : WorkTx Unit := fun db =>
  match db.confirmedReceipts.insert? receipt with
  | some confirmedReceipts => .ok ((), { db with confirmedReceipts := confirmedReceipts })
  | none => .error (.store .constraint)

/-- The part of `Confirm` for a submission that is confirmed already. -/
def confirmAgain (receipt : ConfirmedReceipt) : WorkTx Unit := do
  let row ← gets (·.confirmedReceipts.find? receipt.submissionID)
  require (row.map (·.blockHash) = some receipt.blockHash) (.store .recordConflict)

/-- The part of `Confirm` for a submitted transaction. -/
def confirmFirst (receipt : ConfirmedReceipt) : WorkTx Unit := do
  insertConfirmedReceipt receipt
  updateSubmission receipt.submissionID .confirmed ""
  insertExecutionTransition
    ⟨receipt.requestID, receipt.submissionID, .submitted, .confirmed, ""⟩

/-- `TransactionRepository.Confirm`. -/
def confirm (receipt : ConfirmedReceipt) : WorkTx Unit := do
  require (receipt.submissionID ≠ 0 ∧ receipt.requestID ≠ 0 ∧ receipt.txHash ≠ 0 ∧
    receipt.blockHash ≠ 0 ∧ receipt.status = 1 ∧ receipt.confirmations ≠ 0)
    (.store (.invalidInput "invalid confirmed transaction receipt"))
  let submission ← loadSubmission receipt.submissionID
  require (submission.requestID = receipt.requestID ∧ submission.txHash = receipt.txHash ∧
    (submission.state = .submitted ∨ submission.state = .confirmed)) (.store .recordConflict)
  let bundled ← gets (·.bundled submission.homeChainID receipt)
  require bundled (.submission .indexerBundlePending)
  if submission.state = .confirmed then confirmAgain receipt else confirmFirst receipt

/-! ## Answers of the home chain -/

/-- The fields of a receipt that the submitter reads. -/
structure ExecutionReceipt where
  txHash : Bytes32
  status : UInt64
  blockNumber : Option UInt64
  blockHash : Bytes32
  deriving DecidableEq

/-- `ethereum.NotFound` or another error of the RPC. -/
inductive RpcError
  | notFound
  | failed
  deriving DecidableEq

/-- The errors of the submitter: one of the repository, one of the RPC that is passed on, or
`ErrBroadcastAmbiguous`. -/
inductive ReconcileError
  | work (cause : WorkError)
  | rpc (cause : RpcError)
  | broadcastAmbiguous
  deriving DecidableEq

/-- What the RPC answers during one call of `reconcile`; `decodes` says whether the stored bytes are
the transaction with the stored hash. A nil receipt counts as not found. -/
structure RpcAnswers where
  receipt : Except RpcError ExecutionReceipt
  visible : Except RpcError Bool
  decodes : Bool
  sent : Bool
  visibleAfterSend : Bool
  head : Option UInt64
  canonicalHash : Option Bytes32
  resolved : Except RpcError Bool

/-- A call that commits or fails, with the database after it. -/
abbrev Outcome := Except ReconcileError Unit × WorkDB

/-- Run one transaction of the repository. -/
def persist {α : Type} (m : WorkTx α) (db : WorkDB) : Except WorkError α × WorkDB :=
  match m db with
  | .ok (a, db') => (.ok a, db')
  | .error e => (.error e, db)

/-- A transaction whose result is not used. -/
def persistUnit {α : Type} (m : WorkTx α) (db : WorkDB) : Outcome :=
  match persist m db with
  | (.ok _, db') => (.ok (), db')
  | (.error e, db') => (.error (.work e), db')

/-! ## Reconciliation -/

/-- The transition to `submitted`, unless the submission is there. -/
def markSubmitted (item : TransactionSubmission) (reason : String) (db : WorkDB) : Outcome :=
  if item.state = .submitted then (.ok (), db)
  else persistUnit (submissionTransition item.id item.state .submitted reason) db

/-- The end of `reconcileReceipt` for a successful receipt that is deep enough: `Confirm`, where a
missing bundle of the indexer is no error. -/
def confirmReceipt (item : TransactionSubmission) (receipt : ExecutionReceipt)
    (blockNumber head : UInt64) (db : WorkDB) : Outcome :=
  match persist (confirm ⟨item.id, item.requestID, item.txHash, blockNumber, receipt.blockHash,
      receipt.status, head - blockNumber + 1⟩) db with
  | (.ok (), db') => (.ok (), db')
  | (.error (.submission .indexerBundlePending), db') => (.ok (), db')
  | (.error e, db') => (.error (.work e), db')

/-- The checks before `Confirm`: enough confirmations, the canonical block and the resolved
request. -/
def confirmIfDeep (depth : UInt64) (item : TransactionSubmission) (rpc : RpcAnswers)
    (receipt : ExecutionReceipt) (blockNumber : UInt64) (db : WorkDB) : Outcome :=
  match rpc.head with
  | none => (.ok (), db)
  | some head =>
      if head < blockNumber + depth - 1 then (.ok (), db)
      else if rpc.canonicalHash ≠ some receipt.blockHash then (.ok (), db)
      else
        match rpc.resolved with
        | .error e => (.error (.rpc e), db)
        | .ok false => (.ok (), db)
        | .ok true => confirmReceipt item receipt blockNumber head db

/-- The branch of `reconcileReceipt` for a successful receipt. -/
def reconcileSuccess (depth : UInt64) (item : TransactionSubmission) (rpc : RpcAnswers)
    (receipt : ExecutionReceipt) (blockNumber : UInt64) (db : WorkDB) : Outcome :=
  match markSubmitted item "successful receipt observed" db with
  | (.error e, db') => (.error e, db')
  | (.ok (), db') => confirmIfDeep depth item rpc receipt blockNumber db'

/-- The branch of `reconcileReceipt` for a failed receipt: there is no check of its depth. -/
def reconcileFailure (item : TransactionSubmission) (db : WorkDB) : Outcome :=
  if item.state = .reverted then (.ok (), db)
  else
    persistUnit
      (submissionTransition item.id item.state .reverted "verification transaction reverted") db

/-- `reconcileReceipt`. -/
def reconcileReceipt (depth : UInt64) (item : TransactionSubmission) (rpc : RpcAnswers)
    (receipt : ExecutionReceipt) (db : WorkDB) : Outcome :=
  match receipt.blockNumber with
  | none => (.error (.work (.submission .invalidSubmission)), db)
  | some blockNumber =>
      if receipt.txHash ≠ item.txHash ∨ receipt.blockHash = 0 then
        (.error (.work (.submission .invalidSubmission)), db)
      else if receipt.status ≠ 1 then reconcileFailure item db
      else reconcileSuccess depth item rpc receipt blockNumber db

/-- `broadcastPrepared`: the transaction is sent, or seen by its hash when the sending fails. -/
def broadcastPrepared (item : TransactionSubmission) (rpc : RpcAnswers) (db : WorkDB) : Outcome :=
  if ¬ (rpc.sent ∨ rpc.visibleAfterSend) then (.error .broadcastAmbiguous, db)
  else if item.state ≠ .submitted ∧ item.state ≠ .prepared ∧ item.state ≠ .retryable then
    (.error (.work (.submission .invalidTransition)), db)
  else markSubmitted item "rpc accepted or hash visible" db

/-- The stored bytes are sent again; an ambiguous answer is left to the next recovery. -/
def rebroadcast (item : TransactionSubmission) (rpc : RpcAnswers) (db : WorkDB) : Outcome :=
  if ¬ rpc.decodes then (.error (.work (.submission .invalidSubmission)), db)
  else
    match broadcastPrepared item rpc db with
    | (.error .broadcastAmbiguous, db') => (.ok (), db')
    | outcome => outcome

/-- `reconcile`. -/
def reconcile (depth : UInt64) (item : TransactionSubmission) (rpc : RpcAnswers) (db : WorkDB) :
    Outcome :=
  match rpc.receipt with
  | .ok receipt => reconcileReceipt depth item rpc receipt db
  | .error .failed => (.error (.rpc .failed), db)
  | .error .notFound =>
      match rpc.visible with
      | .ok true => markSubmitted item "transaction hash visible during recovery" db
      | .error .failed => (.error (.rpc .failed), db)
      | .ok false | .error .notFound => rebroadcast item rpc db

/-- `ListRecoverable`: the active submissions, by nonce. -/
def listRecoverable (db : WorkDB) : List TransactionSubmission :=
  (db.submissions.rows.filter (·.state.isActive)).insertionSort (·.nonce ≤ ·.nonce)

/-- What the RPC answers about one transaction, and the time at which its receipt is read. -/
structure Call where
  time : ℕ
  rpc : RpcAnswers

/-- The loop of `Recover`; it ends at the first error. -/
def recoverItems (depth : UInt64) (calls : Bytes32 → Call) :
    List TransactionSubmission → WorkDB → Outcome
  | [], db => (.ok (), db)
  | item :: rest, db =>
      match reconcile depth item (calls item.txHash).rpc db with
      | (.error e, db') => (.error e, db')
      | (.ok (), db') => recoverItems depth calls rest db'

/-- The submissions that the loop asks the RPC about. -/
def askedItems (depth : UInt64) (calls : Bytes32 → Call) :
    List TransactionSubmission → WorkDB → List TransactionSubmission
  | [], _ => []
  | item :: rest, db =>
      item :: match reconcile depth item (calls item.txHash).rpc db with
        | (.error _, _) => []
        | (.ok (), db') => askedItems depth calls rest db'

/-- `Recover`. -/
def recover (depth : UInt64) (calls : Bytes32 → Call) (db : WorkDB) : Outcome :=
  recoverItems depth calls (listRecoverable db) db

/-! ## Submission -/

/-- A stored submission that keeps a new one out: the unique columns and the index of active
nonces. -/
def submissionConflicts (row submission : TransactionSubmission) : Bool :=
  row.id = submission.id ∨ row.txHash = submission.txHash ∨
    (row.requestID = submission.requestID ∧ row.attempt = submission.attempt) ∨
    (row.state.isActive ∧ row.homeChainID = submission.homeChainID ∧
      row.sender = submission.sender ∧ row.nonce = submission.nonce)

/-- The foreign keys and the ranges of the columns of `transaction_submissions`. -/
def WorkDB.admits (db : WorkDB) (submission : TransactionSubmission) : Bool :=
  submission.attempt.toNat < 2 ^ 63 ∧ submission.nonce.toNat < 2 ^ 63 ∧
    submission.gasLimit.toNat < 2 ^ 63 ∧
    (db.store.requests.find? submission.requestID).isSome ∧
    (db.plans.rows.any fun plan =>
      plan.id = submission.planID ∧ plan.requestID = submission.requestID ∧
        plan.snapshotID = submission.snapshotID) ∧
    submission.proofID.all fun id =>
      db.proofs.rows.any fun proof =>
        proof.id = id ∧ proof.planID = submission.planID ∧
          proof.snapshotID = submission.snapshotID

/-- `INSERT INTO transaction_submissions … ON CONFLICT DO NOTHING`: whether a row is new. -/
def insertSubmission (submission : TransactionSubmission) : WorkTx Bool := do
  let db ← gets id
  if db.submissions.rows.any (submissionConflicts · submission) then return false
  else
    require (db.admits submission) (.store .constraint)
    modify fun db => { db with submissions := db.submissions.insertIgnore submission }
    return true

/-- `SavePrepared`. -/
def savePrepared (keccak : Keccak) (submission : TransactionSubmission) :
    WorkTx (TransactionSubmission × Bool) := do
  check (submission.validatePrepared keccak) .submission
  let inserted ← insertSubmission submission
  let loaded ← loadSubmission submission.id
  require (loaded.computeID keccak = submission.id ∧ loaded.requestID = submission.requestID ∧
    loaded.txHash = submission.txHash) (.store .recordConflict)
  return (loaded, inserted)

/-- `Submit` from `SavePrepared` on, where the signed transaction is given. -/
def submit (keccak : Keccak) (submission : TransactionSubmission) (rpc : RpcAnswers)
    (db : WorkDB) : Outcome :=
  match persist (savePrepared keccak submission) db with
  | (.error e, db') => (.error (.work e), db')
  | (.ok loaded, db') => broadcastPrepared loaded.1 rpc db'

/-! ## What can become reverted -/

/-- What is kept about the submissions, by their content, and about the tables that the submitter only
reads. -/
structure SubmissionRule where
  known : TransactionSubmission → Prop
  final : TransactionSubmission → Prop
  frame : DB → Table Plan.id → Prop

/-- Every submission is a known one, and those given up are final. -/
structure SubmissionRule.Met (rule : SubmissionRule) (db : WorkDB) : Prop where
  frame : rule.frame db.store db.plans
  rows : ∀ row ∈ db.submissions.rows,
    rule.known row.content ∧ (row.state.isGivenUp → rule.final row.content)

variable {item : TransactionSubmission}

section Reverted

variable {rule : SubmissionRule} {db db' : WorkDB}

theorem SubmissionRule.Met.of_eq (h : rule.Met db) (hStore : db'.store = db.store)
    (hPlans : db'.plans = db.plans) (hSame : db'.submissions = db.submissions) : rule.Met db' :=
  ⟨by rw [hStore, hPlans]; exact h.frame, by rw [hSame]; exact h.rows⟩

/-- The only moves that matter are those to the states of a submission that is given up. -/
theorem updateSubmission_met {id : Bytes32} {toState : ExecutionState} {reason : String}
    (hMove : toState.isGivenUp → ∀ content, content.id = id → rule.known content →
      rule.final content) :
    Ensures rule.Met (updateSubmission id toState reason) fun _ => rule.Met := by
  refine .modify fun db h => ⟨h.frame, fun row hMem => ?_⟩
  rw [Table.mem_modify] at hMem
  rcases hMem with ⟨hMem, -⟩ | ⟨stored, hStored, hID, rfl⟩
  · exact h.rows row hMem
  · have hKnown := (h.rows stored hStored).1
    exact ⟨hKnown, fun hState => hMove hState _ hID hKnown⟩

theorem insertExecutionTransition_met (row : ExecutionTransition) :
    Ensures rule.Met (insertExecutionTransition row)
      fun _ => rule.Met := by
  intro db h u db' hRun
  unfold insertExecutionTransition at hRun
  split at hRun
  · cases hRun
    exact h.of_eq rfl rfl rfl
  · cases hRun

theorem loadSubmission_keeps {P : WorkDB → Prop} (id : Bytes32) :
    Ensures P (loadSubmission id) fun _ => P := by
  have hSame : Within (Eq : WorkDB → WorkDB → Prop) (loadSubmission id) :=
    .bind .gets fun _ => .expect
  exact .of_within hSame fun _ _ hEq h => hEq ▸ h

theorem submissionTransition_met {id : Bytes32} {fromState toState : ExecutionState}
    {reason : String} (hMove : toState.isGivenUp → ∀ content, content.id = id →
      rule.known content → rule.final content) :
    Ensures rule.Met (submissionTransition id fromState toState reason)
      fun _ => rule.Met := by
  refine .require fun _ => .require fun _ => .seq (loadSubmission_keeps id) fun current =>
    .ite (fun _ => .pure fun _ h => h) fun _ => .require fun _ => ?_
  exact .seq (updateSubmission_met hMove) fun _ =>
    .seq (insertExecutionTransition_met _) fun _ => .pure fun _ h => h

theorem confirm_met (receipt : ConfirmedReceipt) :
    Ensures rule.Met (confirm receipt) fun _ => rule.Met := by
  refine .require fun _ => .seq (loadSubmission_keeps _) fun submission =>
    .require fun _ => .read fun _ => .require fun _ => .ite (fun _ => ?_) fun _ => ?_
  · exact .read fun _ => .require_last fun _ _ h => h
  · refine .seq ?_ fun _ => .seq (updateSubmission_met nofun) fun _ =>
      insertExecutionTransition_met _
    intro db h u db' hRun
    unfold insertConfirmedReceipt at hRun
    split at hRun
    · cases hRun
      exact h.of_eq rfl rfl rfl
    · cases hRun

theorem persist_met {α : Type} {m : WorkTx α}
    (hm : Ensures rule.Met m fun _ => rule.Met)
    (h : rule.Met db) :
    rule.Met (persist m db).2 := by
  unfold persist
  cases hRun : m db with
  | error e => exact h
  | ok result => exact hm db h result.1 result.2 hRun

theorem persistUnit_snd {α : Type} (m : WorkTx α) (db : WorkDB) :
    (persistUnit m db).2 = (persist m db).2 := by
  unfold persistUnit
  split
  all_goals simp_all

theorem markSubmitted_met {reason : String} (h : rule.Met db) :
    rule.Met (markSubmitted item reason db).2 := by
  unfold markSubmitted
  split
  · exact h
  · rw [persistUnit_snd]
    exact persist_met (submissionTransition_met nofun) h

variable {receipt : ExecutionReceipt}

theorem confirmReceipt_met {blockNumber head : UInt64} (h : rule.Met db) :
    rule.Met (confirmReceipt item receipt blockNumber head db).2 := by
  have hConfirm := persist_met (confirm_met ⟨item.id, item.requestID, item.txHash,
    blockNumber, receipt.blockHash, receipt.status, head - blockNumber + 1⟩) h
  unfold confirmReceipt
  split
  all_goals simp_all

variable {rpc : RpcAnswers}

theorem confirmIfDeep_met {depth : UInt64} {blockNumber : UInt64} (h : rule.Met db) :
    rule.Met (confirmIfDeep depth item rpc receipt blockNumber db).2 := by
  unfold confirmIfDeep
  repeat' split
  all_goals first
    | exact h
    | exact confirmReceipt_met h

theorem reconcileSuccess_met {depth : UInt64} {blockNumber : UInt64} (h : rule.Met db) :
    rule.Met (reconcileSuccess depth item rpc receipt blockNumber db).2 := by
  have hMarked : rule.Met (markSubmitted item "successful receipt observed" db).2 :=
    markSubmitted_met h
  unfold reconcileSuccess
  split
  · rename_i hRun
    rw [hRun] at hMarked
    exact hMarked
  · rename_i hRun
    rw [hRun] at hMarked
    exact confirmIfDeep_met hMarked

theorem broadcastPrepared_met (h : rule.Met db) : rule.Met (broadcastPrepared item rpc db).2 := by
  unfold broadcastPrepared
  repeat' split
  all_goals first
    | exact h
    | exact markSubmitted_met h

theorem rebroadcast_met (h : rule.Met db) : rule.Met (rebroadcast item rpc db).2 := by
  have hSent : rule.Met (broadcastPrepared item rpc db).2 :=
    broadcastPrepared_met h
  unfold rebroadcast
  split
  · exact h
  · split
    all_goals simp_all

/-- The only way to `reverted` is a failed receipt of the transaction. -/
theorem reconcile_met {depth : UInt64}
    (hKnown : ∀ content, content.id = item.id → rule.known content → content = item.content)
    (hFailed : ∀ receipt, rpc.receipt = .ok receipt → receipt.txHash = item.txHash → receipt.status ≠ 1 → rule.final item.content)
    (h : rule.Met db) : rule.Met (reconcile depth item rpc db).2 := by
  unfold reconcile
  split
  · rename_i receipt hReceipt
    unfold reconcileReceipt
    split
    · exact h
    split
    · exact h
    rename_i hContext
    split
    · rename_i hStatus
      have hFinal := hFailed receipt hReceipt (by simpa using (not_or.mp hContext).1) hStatus
      unfold reconcileFailure
      split
      · exact h
      · rw [persistUnit_snd]
        refine persist_met (submissionTransition_met fun _ content hID hContent => ?_) h
        rw [hKnown content hID hContent]
        exact hFinal
    · exact reconcileSuccess_met h
  · exact h
  · split
    · exact markSubmitted_met h
    · exact h
    all_goals exact rebroadcast_met h

theorem recoverItems_met {depth : UInt64} {calls : Bytes32 → Call}
    {items : List TransactionSubmission}
    (hKnown : ∀ item ∈ items, ∀ content, content.id = item.id → rule.known content →
      content = item.content)
    (hFailed : ∀ item ∈ askedItems depth calls items db, ∀ receipt,
      (calls item.txHash).rpc.receipt = .ok receipt → receipt.txHash = item.txHash →
        receipt.status ≠ 1 → rule.final item.content)
    (h : rule.Met db) : rule.Met (recoverItems depth calls items db).2 := by
  induction items generalizing db with
  | nil => exact h
  | cons item rest ih =>
      rw [List.forall_mem_cons] at hKnown
      rw [askedItems, List.forall_mem_cons] at hFailed
      have hItem : rule.Met (reconcile depth item (calls item.txHash).rpc db).2 :=
        reconcile_met hKnown.1 hFailed.1 h
      unfold recoverItems
      split
      · rename_i hRun
        rw [hRun] at hItem
        exact hItem
      · rename_i hRun
        rw [hRun] at hItem hFailed
        exact ih hKnown.2 hFailed.2 hItem

theorem mem_listRecoverable (h : item ∈ listRecoverable db) : item ∈ db.submissions.rows :=
  (List.mem_filter.mp ((List.mem_insertionSort _).mp h)).1

/-- The rows `Recover` goes through are those it has read, so a failed receipt counts for the
transaction that was asked about. -/
theorem recover_met {depth : UInt64} {calls : Bytes32 → Call}
    (hFailed : ∀ item ∈ askedItems depth calls (listRecoverable db) db, ∀ receipt,
      (calls item.txHash).rpc.receipt = .ok receipt → receipt.txHash = item.txHash →
        receipt.status ≠ 1 → rule.final item.content)
    (h : rule.Met db) : rule.Met (recover depth calls db).2 := by
  let stored : SubmissionRule := { rule with
    known := fun content => rule.known content ∧ ∃ row ∈ db.submissions.rows, row.content = content }
  have hStored : stored.Met db := ⟨h.frame, fun row hMem =>
    ⟨⟨(h.rows row hMem).1, row, hMem, rfl⟩, (h.rows row hMem).2⟩⟩
  have hListed : ∀ item ∈ listRecoverable db, ∀ content, content.id = item.id →
      stored.known content → content = item.content := by
    rintro item hItem _ hID ⟨-, row, hMem, rfl⟩
    rw [Table.eq_of_key hMem (mem_listRecoverable hItem) hID]
  have hAfter : stored.Met (recover depth calls db).2 := recoverItems_met hListed hFailed hStored
  exact ⟨hAfter.frame, fun row hMem => ⟨(hAfter.rows row hMem).1.1, (hAfter.rows row hMem).2⟩⟩

theorem insertSubmission_met {submission : TransactionSubmission}
    (hState : submission.state = .prepared)
    (hNew : ∀ db : WorkDB, rule.frame db.store db.plans → db.admits submission →
      rule.known submission.content) :
    Ensures rule.Met (insertSubmission submission) fun _ => rule.Met := by
  refine .gets fun stored => .ite (fun _ => .pure fun _ h => h.1) fun _ => .require fun hAdmits =>
    .bind (R := fun _ => rule.Met) (.modify ?_) fun _ => .pure fun _ h => h
  rintro db ⟨h, rfl⟩
  refine ⟨h.frame, fun row hMem => ?_⟩
  rcases Table.mem_insertIgnore hMem with hMem | rfl
  · exact h.rows row hMem
  · refine ⟨hNew db h.frame hAdmits, fun hGivenUp => ?_⟩
    rw [hState] at hGivenUp
    exact absurd hGivenUp Bool.false_ne_true

theorem submit_met {keccak : Keccak} {submission : TransactionSubmission}
    (hNew : ∀ db : WorkDB, rule.frame db.store db.plans → db.admits submission → rule.known submission.content)
    (h : rule.Met db) : rule.Met (submit keccak submission rpc db).2 := by
  have hSave : Ensures rule.Met (savePrepared keccak submission) fun _ => rule.Met := by
    refine .check fun _ hValid => .seq (insertSubmission_met ?_ hNew) fun _ =>
      .seq (loadSubmission_keeps _) fun _ => .require fun _ => .pure fun _ h => h
    exact TransactionSubmission.state_of_validatePrepared hValid
  have hSaved := persist_met hSave h
  unfold submit
  split
  · rename_i hRun
    rw [hRun] at hSaved
    exact hSaved
  · rename_i hRun
    rw [hRun] at hSaved
    exact broadcastPrepared_met hSaved

end Reverted

/-! ## The home chain -/

/-- A block of the home chain: its hash, and its transactions with their success. -/
structure HomeBlock where
  hash : Bytes32
  transactions : List (Bytes32 × Bool)
  deriving DecidableEq

/-- A transaction is in the chain, successful or failed. -/
def Included (chain : List HomeBlock) (tx : Bytes32) (success : Bool) : Prop :=
  (tx, success) ∈ chain.flatMap (·.transactions)

/-- The home chain over time. A transaction is in a chain once at most. -/
structure HomeHistory (depth : ℕ) extends History HomeBlock depth where
  once : ∀ t, (((chain t).flatMap (·.transactions)).map Prod.fst).Nodup

namespace HomeHistory

variable {depth : ℕ} (history : HomeHistory depth)

/-- From this time on the transaction is in the chain as failed, and never as successful. -/
def FailedFrom (time : ℕ) (tx : Bytes32) : Prop :=
  ∀ t ≥ time, Included (history.chain t) tx false ∧ ¬ Included (history.chain t) tx true

/-- A transaction that failed in a block with `depth` confirmations has failed for good. -/
theorem failedFrom_of_deep {time height : ℕ} {block : HomeBlock} {tx : Bytes32}
    (hBlock : (history.chain time)[height]? = some block) (hTx : (tx, false) ∈ block.transactions)
    (hDeep : height + depth ≤ (history.chain time).length) : history.FailedFrom time tx := by
  intro t hLater
  have hStays := history.stays hLater hBlock hDeep
  have hFailed : Included (history.chain t) tx false :=
    List.mem_flatMap.mpr ⟨block, List.mem_of_getElem? hStays, hTx⟩
  refine ⟨hFailed, fun hSuccess => ?_⟩
  have hSame := List.inj_on_of_nodup_map (history.once t) hFailed hSuccess rfl
  cases hSame

end HomeHistory

/-- The receipt is the one the chain has for the transaction. -/
def ReceiptOf (chain : List HomeBlock) (tx : Bytes32) (receipt : ExecutionReceipt) : Prop :=
  receipt.txHash = tx ∧ ∃ number block, receipt.blockNumber = some number ∧
    chain[number.toNat]? = some block ∧ receipt.blockHash = block.hash ∧
    (tx, decide (receipt.status = 1)) ∈ block.transactions

/-- The failed receipt is in a block with `depth` confirmations. -/
def Deep (depth : ℕ) (chain : List HomeBlock) (receipt : ExecutionReceipt) : Prop :=
  ∀ number, receipt.blockNumber = some number → number.toNat + depth ≤ chain.length

/-! ## Runs -/

/-- What happens to the database: a submission, a recovery, or a write of another component, which
leaves the submissions as they are. -/
inductive SubmitterStep
  | submit (submission : TransactionSubmission) (rpc : RpcAnswers)
  | recover (calls : Bytes32 → Call)
  | other (after : WorkDB)

namespace SubmitterStep

/-- The database after a step. -/
def run (keccak : Keccak) (depth : UInt64) : SubmitterStep → WorkDB → WorkDB
  | .submit submission rpc, db => (Store.submit keccak submission rpc db).2
  | .recover calls, db => (Store.recover depth calls db).2
  | .other after, db => { after with submissions := db.submissions }

/-- The step asks about the submission and reads a failed receipt of its transaction. -/
def ReadsFailure (depth : UInt64) (db : WorkDB) (item : TransactionSubmission) :
    SubmitterStep → Prop
  | .recover calls => item ∈ askedItems depth calls (listRecoverable db) db ∧
      ∃ receipt, (calls item.txHash).rpc.receipt = .ok receipt ∧
        receipt.txHash = item.txHash ∧ receipt.status ≠ 1
  | .submit .. | .other _ => False

/-- The receipts of a recovery are those of the chain at the times they are read. -/
def Faithful {depth : ℕ} (history : HomeHistory depth) : SubmitterStep → Prop
  | .recover calls => ∀ tx receipt, (calls tx).rpc.receipt = .ok receipt →
      ReceiptOf (history.chain (calls tx).time) tx receipt
  | .submit .. | .other _ => True

/-- The failed receipts of a recovery have enough confirmations when they are read. -/
def FailuresDeep {depth : ℕ} (history : HomeHistory depth) : SubmitterStep → Prop
  | .recover calls => ∀ tx receipt, (calls tx).rpc.receipt = .ok receipt → receipt.status ≠ 1 →
      Deep depth (history.chain (calls tx).time) receipt
  | .submit .. | .other _ => True

/-- The step reads a failed receipt of the transaction, at a time from which on it has failed. -/
def Settles {depth : ℕ} (history : HomeHistory depth) (tx : Bytes32) : SubmitterStep → Prop
  | .recover calls => (∃ receipt, (calls tx).rpc.receipt = .ok receipt ∧ receipt.status ≠ 1) ∧
      history.FailedFrom (calls tx).time tx
  | .submit .. | .other _ => False

variable {rule : SubmissionRule} {step : SubmitterStep}

/-- One step: what it gives up has a failed receipt. -/
theorem run_met {keccak : Keccak} {depth : UInt64} {db : WorkDB}
    (hNew : ∀ submission rpc, step = .submit submission rpc → ∀ db : WorkDB,
      rule.frame db.store db.plans → db.admits submission → rule.known submission.content)
    (hOther : ∀ after, step = .other after → rule.frame after.store after.plans)
    (hFinal : ∀ item, step.ReadsFailure depth db item → rule.final item.content)
    (h : rule.Met db) : rule.Met (step.run keccak depth db) := by
  cases step with
  | submit submission rpc => exact submit_met (hNew submission rpc rfl) h
  | recover calls =>
      exact recover_met (fun item hAsked receipt hReceipt hTx hStatus =>
        hFinal item ⟨hAsked, receipt, hReceipt, hTx, hStatus⟩) h
  | other after => exact ⟨hOther after rfl, h.rows⟩

theorem settles_of_readsFailure {depth : UInt64} {history : HomeHistory depth.toNat} {db : WorkDB}
    (hFaithful : step.Faithful history) (hDeep : step.FailuresDeep history)
    (hRead : step.ReadsFailure depth db item) : step.Settles history item.txHash := by
  cases step with
  | submit | other => exact hRead.elim
  | recover calls =>
      obtain ⟨-, receipt, hReceipt, -, hStatus⟩ := hRead
      obtain ⟨-, number, block, hNumber, hBlock, -, hTx⟩ := hFaithful _ receipt hReceipt
      rw [decide_eq_false hStatus] at hTx
      exact ⟨⟨receipt, hReceipt, hStatus⟩,
        history.failedFrom_of_deep hBlock hTx (hDeep _ receipt hReceipt hStatus number hNumber)⟩

end SubmitterStep

/-- The database after a run. -/
def runSubmitter (keccak : Keccak) (depth : UInt64) (steps : List SubmitterStep) (db : WorkDB) :
    WorkDB :=
  steps.foldl (fun db step => step.run keccak depth db) db

/-- A run: what it gives up has a failed receipt in one of the steps. The induction is over the steps
still to come. -/
theorem runSubmitter_met {keccak : Keccak} {depth : UInt64}
    {final : TransactionSubmission → Prop} {steps : List SubmitterStep} {db : WorkDB}
    (hFinal : ∀ step ∈ steps, ∀ db item, step.ReadsFailure depth db item → final item.content)
    (h : SubmissionRule.Met ⟨fun _ => True, final, fun _ _ => True⟩ db) :
    SubmissionRule.Met ⟨fun _ => True, final, fun _ _ => True⟩
      (runSubmitter keccak depth steps db) := by
  induction steps generalizing db with
  | nil => exact h
  | cons step rest ih =>
      rw [List.forall_mem_cons] at hFinal
      exact ih hFinal.2 (step.run_met (fun _ _ _ _ _ _ => trivial) (fun _ _ => trivial)
        (hFinal.1 db) h)

/-! ## Reverted submissions -/

namespace RevertToy

/-- A prepared transaction with the hash 7. -/
def submission : TransactionSubmission where
  id := 7
  requestID := 1
  attempt := 0
  planID := 2
  planType := .direct
  snapshotID := 3
  proofID := none
  homeChainID := 4
  gateway := 5
  sender := 6
  nonce := 0
  calldataHash := 8
  rawSignedTx := [1]
  txHash := 7
  maxFeePerGas := 2
  maxPriorityFeePerGas := 1
  gasLimit := 1
  state := .prepared
  reason := ""

/-- The request of the transaction. -/
def request : Request where
  id := 1
  homeChainID := 4
  gateway := 5
  requester := 9
  nonce := 0
  sourceChainID := 10
  sourceHeight := 1
  sourceBlockHash := 11
  state := .planned
  reason := ""
  createdAt := 1

/-- The plan of the transaction. -/
def plan : Plan where
  id := 2
  requestID := 1
  attempt := 0
  snapshotID := 3
  profileID := "toy"
  profileFingerprint := 12
  type := .direct
  homeNodeID := 13
  targetNodeID := 14
  hops := []
  pathStepCost := 1
  pathCost := none
  directCost := some 1
  fallbackReason := none

/-- The database with the request and the plan. -/
def start : WorkDB :=
  { WorkDB.empty with
    store := { DB.empty with requests := Table.empty.insertIgnore request }
    plans := Table.empty.insertIgnore plan }

/-- The failed receipt of the transaction in block 1; the head is that block. -/
def answers (tx : Bytes32) : RpcAnswers where
  receipt := if tx = 7 then .ok ⟨7, 0, some 1, 11⟩ else .error .notFound
  visible := .error .notFound
  decodes := true
  sent := true
  visibleAfterSend := false
  head := some 1
  canonicalHash := some 11
  resolved := .ok false

/-- The transaction is submitted, and a recovery follows at time 0. -/
def steps : List SubmitterStep :=
  [.submit submission (answers 7), .recover fun tx => ⟨0, answers tx⟩]

/-- At time 0 the transaction has failed in the last block. That block is then replaced, and the
transaction succeeds. -/
def replacedChain : ℕ → List HomeBlock
  | 0 => [⟨10, []⟩, ⟨11, [(7, false)]⟩]
  | _ + 1 => [⟨10, []⟩, ⟨12, []⟩, ⟨13, [(7, true)]⟩]

/-- One block is replaced, which is less than the depth of 3. -/
def replaced : HomeHistory 3 where
  chain := replacedChain
  stable := by
    rintro (_ | s) (_ | t) hLater
    all_goals first
      | exact List.nil_prefix
      | exact List.take_prefix _ _
      | omega
  once := by
    rintro (_ | t)
    all_goals simp [replacedChain]

/-- The block of the failed transaction has three confirmations. -/
def settled : HomeHistory 3 where
  chain := fun _ => [⟨10, []⟩, ⟨11, [(7, false)]⟩, ⟨12, []⟩, ⟨13, []⟩]
  stable := fun _ => List.take_prefix _ _
  once := by simp

theorem receiptOf_answers {chain : List HomeBlock} (hBlock : chain[1]? = some ⟨11, [(7, false)]⟩)
    (tx : Bytes32) (receipt : ExecutionReceipt) (h : (answers tx).receipt = .ok receipt) :
    receipt = ⟨7, 0, some 1, 11⟩ ∧ ReceiptOf chain tx receipt := by
  unfold answers at h
  split at h
  · rename_i hTx
    cases h
    exact ⟨rfl, hTx.symm, 1, ⟨11, [(7, false)]⟩, rfl, hBlock, rfl, by simp [hTx]⟩
  · cases h

theorem steps_faithful {history : HomeHistory 3}
    (hBlock : (history.chain 0)[1]? = some ⟨11, [(7, false)]⟩) :
    ∀ step ∈ steps, step.Faithful history := by
  have hRecover : (SubmitterStep.recover fun tx => ⟨0, answers tx⟩).Faithful history :=
    fun tx receipt hReceipt => (receiptOf_answers hBlock tx receipt hReceipt).2
  exact List.forall_mem_cons.mpr ⟨trivial, List.forall_mem_singleton.mpr hRecover⟩

theorem steps_failuresDeep : ∀ step ∈ steps, step.FailuresDeep settled := by
  have hBlock : (settled.chain 0)[1]? = some ⟨11, [(7, false)]⟩ := rfl
  have hRecover : (SubmitterStep.recover fun tx => ⟨0, answers tx⟩).FailuresDeep settled := by
    intro tx receipt hReceipt _ number hNumber
    rw [(receiptOf_answers hBlock tx receipt hReceipt).1] at hNumber
    cases hNumber
    exact Nat.le_refl 4
  exact List.forall_mem_cons.mpr ⟨trivial, List.forall_mem_singleton.mpr hRecover⟩

/-- The submission after the recovery. -/
def reverted : TransactionSubmission :=
  submission.move .reverted "verification transaction reverted"

theorem reverted_mem :
    reverted ∈ (runSubmitter (fun _ => 7) 3 steps start).submissions.rows := by
  decide +kernel

end RevertToy

/-- In every run whose failed receipts have enough confirmations when they are read, a reverted
transaction is in every later chain as failed, and in none as successful. -/
theorem reverted_final (keccak : Keccak) (depth : UInt64) (history : HomeHistory depth.toNat)
    {steps : List SubmitterStep} {db : WorkDB}
    (hStart : ∀ row ∈ db.submissions.rows, ¬ row.state.isGivenUp)
    (hFaithful : ∀ step ∈ steps, step.Faithful history)
    (hDeep : ∀ step ∈ steps, step.FailuresDeep history) {row : TransactionSubmission}
    (hRow : row ∈ (runSubmitter keccak depth steps db).submissions.rows)
    (hState : row.state = .reverted) : ∃ step ∈ steps, step.Settles history row.txHash := by
  have hSettles : ∀ step ∈ steps, ∀ db item, step.ReadsFailure depth db item →
      ∃ step ∈ steps, step.Settles history item.txHash := by
    intro step hStep db item hRead
    exact ⟨step, hStep, SubmitterStep.settles_of_readsFailure (hFaithful step hStep)
      (hDeep step hStep) hRead⟩
  have hNone : SubmissionRule.Met ⟨fun _ => True, fun content => ∃ step ∈ steps,
      step.Settles history content.txHash, fun _ _ => True⟩ db :=
    ⟨trivial, fun row hMem => ⟨trivial, fun hGivenUp => absurd hGivenUp (hStart row hMem)⟩⟩
  exact ((runSubmitter_met hSettles hNone).rows row hRow).2 (congrArg ExecutionState.isGivenUp hState)

/-- The failed receipt is read with three confirmations. -/
theorem reverted_final_settled :
    ∃ step ∈ RevertToy.steps, step.Settles RevertToy.settled RevertToy.reverted.txHash := by
  have hStart : ∀ row ∈ RevertToy.start.submissions.rows,
      ¬ row.state.isGivenUp := by decide
  have hFaithful : ∀ step ∈ RevertToy.steps, step.Faithful RevertToy.settled :=
    RevertToy.steps_faithful rfl
  exact reverted_final (fun _ => 7) 3 RevertToy.settled hStart hFaithful
    RevertToy.steps_failuresDeep RevertToy.reverted_mem rfl

/-- The failed receipt of the last block makes the submission reverted, and the transaction
succeeds in the chain that replaces the block. -/
theorem reverted_replaced :
    (∀ row ∈ RevertToy.start.submissions.rows, ¬ row.state.isGivenUp) ∧
      (∀ step ∈ RevertToy.steps, step.Faithful RevertToy.replaced) ∧
      RevertToy.reverted ∈
        (runSubmitter (fun _ => 7) 3 RevertToy.steps RevertToy.start).submissions.rows ∧
      RevertToy.reverted.state = .reverted ∧
      Included (RevertToy.replaced.chain 1) RevertToy.reverted.txHash true ∧
      ¬ Included (RevertToy.replaced.chain 1) RevertToy.reverted.txHash false := by
  refine ⟨by decide, RevertToy.steps_faithful rfl, RevertToy.reverted_mem, rfl, ?_, ?_⟩
  · exact List.mem_singleton_self _
  · exact fun hMem => nomatch List.mem_singleton.mp hMem

end TrustMap.Mapnode.Store
