import TrustMap.Internal.Proof
import TrustMap.Mapnode.Store.Database

/-!
The writes that gossip leads to: the inbox of received envelopes (`EvidenceInboxRepository`) and
`RemoteDependencyRepository.Activate`, which brings a validated remote dependency into the graph.
-/

namespace TrustMap.Mapnode.Store

open Transaction ChainAbi

/-! ## The inbox -/

/-- `INSERT INTO evidence_inbox … ON CONFLICT(message_id) DO NOTHING`: whether a row was inserted.
The times have to be positive. -/
def insertInbox (row : InboxRow) : DBTx Bool := fun db =>
  match db.inbox.insert? row with
  | none => .ok (false, db)
  | some inbox =>
      if 0 < row.nextAttemptAt then .ok (true, { db with inbox := inbox }) else .error .constraint

/-- The inbox row of a message that has just been received. -/
def pendingRow (envelope : Envelope) (evidenceID : EvidenceID) (sender : PeerID) (encoded : Bytes)
    (now : UnixNano) : InboxRow where
  messageID := envelope.messageID
  evidenceID := evidenceID
  originPeer := sender
  envelope := encoded
  state := .pending
  invalidReason := ""
  attempts := 0
  nextAttemptAt := now
  receivedAt := now

/-- `Receive`: the stored evidence and whether the message was new. -/
def receive (p : Primitives) (now : UnixNano) (envelope : Envelope) (sender : PeerID) :
    DBTx (EvidenceRecord × Bool) := do
  let encoded ← check (envelope.validateFrom p sender) .envelope
  let evidenceID ← check (envelope.locator.computeID p.keccak) .locator
  let _ ← insertEvidenceIfAbsent ⟨evidenceID, envelope.locator, .candidate, ""⟩
  let row ← gets (·.evidence.find? evidenceID)
  let record ← expect row .recordConflict
  require (record.locator = envelope.locator) .recordConflict
  let inserted ← insertInbox (pendingRow envelope evidenceID sender encoded now)
  if inserted then return (record, true)
  else
    let row ← gets (·.inbox.find? envelope.messageID)
    let stored ← expect row .recordConflict
    require (stored.envelope = encoded ∧ stored.evidenceID = evidenceID ∧
      stored.originPeer = sender) .recordConflict
    return (record, false)

/-- The states in which a message still waits for its validation. -/
def InboxState.waiting : InboxState → Bool
  | .pending | .retryable => true
  | .validated | .invalid => false

/-- `UPDATE evidence_inbox … WHERE message_id=?`. -/
def updateInbox (messageID : Bytes32) (f : InboxRow → InboxRow)
    (hKey : ∀ row, (f row).messageID = row.messageID) : DBTx Unit :=
  modify fun db => { db with inbox := db.inbox.modify messageID f hKey }

/-- `MarkRetryable`; there is no `next` if the given time is the zero time. -/
def markRetryable (messageID : Bytes32) (reason : String) (next : Option UnixNano) :
    DBTx Unit := do
  require (reason ≠ "") (.invalidInput "retryable inbox failure requires reason and retry time")
  let next ← expect next (.invalidInput "retryable inbox failure requires reason and retry time")
  let row ← gets fun db => (db.inbox.find? messageID).filter (·.state.waiting)
  let _ ← expect row .concurrentUpdate
  require (0 < next) .constraint
  updateInbox messageID (fun row => { row with
    state := .retryable
    attempts := row.attempts + 1
    nextAttemptAt := next }) fun _ => rfl

/-- `MarkInvalid`. -/
def markInvalid (messageID : Bytes32) (reason : String) : DBTx Unit := do
  require (reason ≠ "") (.invalidInput "invalid inbox failure requires repository and reason")
  let row ← gets (·.inbox.find? messageID)
  let stored ← expect row .noRows
  require (stored.state ≠ .validated) .recordConflict
  if stored.state = .invalid then return ()
  else
    updateInbox messageID (fun row => { row with
      state := .invalid
      invalidReason := reason
      attempts := row.attempts + 1 }) fun _ => rfl
    let changed ← updateEvidenceState stored.evidenceID .candidate .invalid (some reason)
    when changed (insertTransition ⟨stored.evidenceID, .candidate, .invalid, reason⟩)

/-! ## Activation -/

/-- `evidence.ValidatedTrustRootObservation`. -/
structure ValidatedObservation where
  chainID : Bytes32
  height : Bytes32
  blockHash : Bytes32
  trustRoot : Bytes32
  evidenceID : EvidenceID
  deriving DecidableEq

/-- The node of a validated observation. -/
def ValidatedObservation.node (keccak : Keccak) (observation : ValidatedObservation) : TrustNode :=
  newTrustNode keccak ⟨observation.chainID, observation.height, observation.blockHash⟩
    observation.trustRoot observation.evidenceID

/-- `evidence.RemoteDependencyValidation`. -/
structure RemoteValidation where
  record : EvidenceRecord
  dependency : DependencyRecorded
  homeTrustRoot : Bytes32
  witnessSiblings : List Bytes32
  sourceObservation : ValidatedObservation
  homeObservation : ValidatedObservation
  pathStepCostGas : UInt64
  deriving DecidableEq

namespace RemoteValidation

/-- The dependency `Activate` builds from the validated event. -/
def verifiedDependency (keccak : Keccak) (v : RemoteValidation) : VerifiedDependency :=
  newVerifiedDependency keccak v.dependency.requestID v.dependency.sourceChainID
    v.dependency.sourceHeight v.dependency.sourceBlockHash v.dependency.sourceTrustRoot
    v.dependency.leafIndex v.record.id

/-- The witness `Activate` builds from the validated siblings. -/
def witness (keccak : Keccak) (v : RemoteValidation) : GraphWitness :=
  newGraphWitness keccak v.record.id v.dependency.leafIndex v.witnessSiblings

/-- The checks of `Activate` before it opens its transaction, with the edge they lead to. -/
def bindEdge (keccak : Keccak) (v : RemoteValidation) : Except StoreError TrustEdge := do
  Checks.require (v.record.state = .candidate ∧ v.record.invalidReason = "" ∧
    1 ≤ v.witnessSiblings.length ∧ v.witnessSiblings.length ≤ Internal.Proof.maxTreeDepth.toNat ∧
    v.pathStepCostGas ≠ 0) .evidenceBinding
  Checks.require (v.record.locator.computeID keccak = .ok v.record.id) .evidenceBinding
  Checks.require ((v.verifiedDependency keccak).dependencyKey = v.dependency.dependencyKey)
    .evidenceBinding
  Checks.require (v.homeTrustRoot = v.homeObservation.trustRoot ∧
    v.homeObservation.chainID = v.record.locator.chainID ∧
    v.homeObservation.height = v.record.locator.blockNumber ∧
    v.homeObservation.blockHash = v.record.locator.blockHash ∧
    v.sourceObservation.chainID = v.dependency.sourceChainID ∧
    v.sourceObservation.height = v.dependency.sourceHeight ∧
    v.sourceObservation.blockHash = v.dependency.sourceBlockHash ∧
    v.sourceObservation.trustRoot = v.dependency.sourceTrustRoot) .evidenceBinding
  Checks.require ((v.verifiedDependency keccak).validate keccak (v.sourceObservation.node keccak)
    v.record.locator.payloadDigest = .ok ()) .evidenceBinding
  Checks.require (Internal.Proof.rootFromWitness keccak
    (leafHash keccak v.dependency.sourceTrustRoot v.dependency.sourceBlockHash)
    v.dependency.leafIndex v.witnessSiblings (UInt8.ofNat v.witnessSiblings.length) =
      .ok v.homeObservation.trustRoot) .evidenceBinding
  match newTrustEdge keccak (v.homeObservation.node keccak).id (v.sourceObservation.node keccak).id
      v.record.id v.dependency.leafIndex (some (v.witness keccak).id) v.pathStepCostGas with
  | .ok edge => .ok edge
  | .error e => .error (.trustView e)

/-- What `bindEdge` has checked, as far as later proofs use it. -/
structure Bound (keccak : Keccak) (v : RemoteValidation) (edge : TrustEdge) : Prop where
  evidenceID : v.record.locator.computeID keccak = .ok v.record.id
  homeChain : v.homeObservation.chainID = v.record.locator.chainID
  sourceChain : v.sourceObservation.chainID = v.dependency.sourceChainID
  sourceHash : v.sourceObservation.blockHash = v.dependency.sourceBlockHash
  sourceRoot : v.sourceObservation.trustRoot = v.dependency.sourceTrustRoot
  root : Internal.Proof.rootFromWitness keccak
    (leafHash keccak v.dependency.sourceTrustRoot v.dependency.sourceBlockHash)
    v.dependency.leafIndex v.witnessSiblings (UInt8.ofNat v.witnessSiblings.length) =
      .ok v.homeObservation.trustRoot
  edge : newTrustEdge keccak (v.homeObservation.node keccak).id (v.sourceObservation.node keccak).id
    v.record.id v.dependency.leafIndex (some (v.witness keccak).id) v.pathStepCostGas = .ok edge

theorem bindEdge_ok {keccak : Keccak} {v : RemoteValidation} {edge : TrustEdge}
    (hBind : v.bindEdge keccak = .ok edge) : v.Bound keccak edge := by
  simp only [bindEdge, Checks.check_bind_eq_ok, Checks.require_eq_ok] at hBind
  obtain ⟨-, hID, -, hNodes, -, hRoot, hNew⟩ := hBind
  refine ⟨hID, hNodes.2.1, hNodes.2.2.2.2.1, hNodes.2.2.2.2.2.2.1, hNodes.2.2.2.2.2.2.2, hRoot, ?_⟩
  split at hNew
  · cases hNew
    assumption
  · cases hNew

end RemoteValidation

/-- `RemoteDependencyRepository.Activate`: whether something changed. -/
def activate (keccak : Keccak) (messageID : Bytes32) (v : RemoteValidation) : DBTx Bool := do
  let edge ← check (v.bindEdge keccak) id
  let row ← gets (·.inbox.find? messageID)
  let message ← expect row .evidenceBinding
  require (message.evidenceID = v.record.id) .evidenceBinding
  require (message.state ≠ .invalid) .evidenceBinding
  let row ← gets (·.evidence.find? v.record.id)
  let record ← expect row .evidenceBinding
  require (record.locator = v.record.locator) .evidenceBinding
  require (record.state = .candidate ∨ record.state = .active) .evidenceBinding
  verifyActiveNodeContent (v.homeObservation.node keccak)
  verifyActiveNodeContent (v.sourceObservation.node keccak)
  when (record.state = .candidate)
    (activateEvidence true v.record.id "remote canonical Gateway receipt validation")
  let witnessInserted ← mergeWitness (v.witness keccak)
  let edgeChanged ← mergeTrustEdge edge
  when edgeChanged bumpGraphRevision
  when (message.state ≠ .validated)
    (updateInbox messageID (fun row => { row with state := .validated, invalidReason := "" })
      fun _ => rfl)
  return decide (record.state = .candidate) || witnessInserted || edgeChanged

end TrustMap.Mapnode.Store
