import TrustMap.Internal.Proof
import TrustMap.Mapnode.Store.Database

/-!
`IndexerRepository.ApplyConfirmedBlock`: one transaction that stores the logs, requests, receipts,
resolutions and dependencies of a confirmed block and advances the cursor.
-/

namespace TrustMap.Mapnode.Store

open Transaction ChainAbi

/-- `requireIndexerConfig`. -/
def requireIndexerConfig (block : ConfirmedBlock) : DBTx Unit := do
  let row ← gets (·.configs.find? block.chainID)
  let config ← expect row .noRows
  require (config.gateway = block.gateway ∧ config.merkleDepth = block.merkleDepth ∧
    config.pathStepCostGas = block.pathStepCostGas) .recordConflict

/-! ## Logs, requests, receipts and resolutions -/

/-- The row of an indexed log of the block. -/
def logRow (block : ConfirmedBlock) (item : IndexedGatewayLog) : LogRow where
  key := ⟨block.chainID, block.hash, item.txHash, item.txIndex, item.logIndex⟩
  gateway := block.gateway
  blockNumber := Words.ofUInt64 item.blockNumber
  eventTopic := item.eventTopic
  contentDigest := item.contentDigest
  log := item.log

/-- `insertIndexedGatewayLog`. -/
def insertIndexedGatewayLog (block : ConfirmedBlock) (item : IndexedGatewayLog) : DBTx Bool := do
  require (item.address = block.gateway ∧ item.blockNumber = block.number ∧
    item.blockHash = block.hash ∧ item.txHash ≠ 0 ∧ item.eventTopic ≠ 0 ∧ item.contentDigest ≠ 0 ∧
    item.log.topics.head? = some item.eventTopic ∧ item.log.topics.length ≤ 4 ∧
    item.log.data.length % 32 = 0) .recordConflict
  match ← gets (·.logs.find? (logRow block item).key) with
  | some row =>
      require (row.contentDigest = item.contentDigest ∧ row.log = item.log) .recordConflict
      return false
  | none =>
      modify fun db => { db with logs := db.logs.insertIgnore (logRow block item) }
      return true

/-- The unique columns of `requests`. -/
def RequestIdentity.tuple (request : RequestIdentity) :
    Bytes32 × Address × Address × Bytes32 × Bytes32 × Bytes32 × Bytes32 :=
  (request.homeChainID, request.gateway, request.requester, request.nonce, request.sourceChainID,
    request.sourceHeight, request.sourceBlockHash)

/-- `INSERT INTO requests … ON CONFLICT DO NOTHING`: whether a row was inserted. -/
def insertRequest (request : Request) : DBTx Bool := fun db =>
  if db.requests.rows.any fun row =>
      RequestIdentity.tuple row.toRequestIdentity =
        RequestIdentity.tuple request.toRequestIdentity then .ok (false, db)
  else
    match db.requests.insert? request with
    | some requests => .ok (true, { db with requests := requests })
    | none => .ok (false, db)

/-- `insertObservedRequest`. -/
def insertObservedRequest (keccak : Keccak) (request : Request) : DBTx Bool := do
  require (request.state = .observed) .recordConflict
  require (computeGatewayRequestID keccak request.homeChainID request.gateway request.requester
    request.nonce request.sourceChainID request.sourceHeight request.sourceBlockHash =
      .ok request.id) .recordConflict
  let changed ← insertRequest request
  let row ← gets (·.requests.find? request.id)
  let persisted ← expect row .recordConflict
  require (persisted.toRequestIdentity = request.toRequestIdentity) .recordConflict
  return changed

/-- The row of a verification receipt of the block. -/
def receiptRow (block : ConfirmedBlock) (receipt : VerificationReceiptRecord) : ReceiptRow where
  chainID := block.chainID
  txHash := receipt.txHash
  blockNumber := block.height
  blockHash := block.hash
  txIndex := receipt.txIndex
  requestID := receipt.requestID

/-- `INSERT INTO verification_receipts … ON CONFLICT(chain_id,tx_hash) DO NOTHING`. -/
def insertReceiptRow (row : ReceiptRow) : DBTx Bool := fun db =>
  match db.receipts.insert? row with
  | none => .ok (false, db)
  | some receipts =>
      if (∃ other ∈ db.receipts.rows, other.chainID = row.chainID ∧
            other.blockHash = row.blockHash ∧ other.txIndex = row.txIndex) ∨
          ¬ (∃ request ∈ db.requests.rows, request.id = row.requestID) then .error .constraint
      else .ok (true, { db with receipts := receipts })

/-- `verifyPersistedReceipt`. -/
def verifyPersistedReceipt (chainID : Bytes32) (want : VerificationReceiptRecord) :
    DBTx Unit := do
  let row ← gets (·.receipts.find? (chainID, want.txHash))
  let persisted ← expect row .noRows
  require (persisted.blockNumber = Words.ofUInt64 want.blockNumber ∧
    persisted.blockHash = want.blockHash ∧ persisted.txIndex = want.txIndex ∧
    persisted.requestID = want.requestID) .recordConflict

/-- One turn of the loop over the receipts. -/
def applyReceipt (block : ConfirmedBlock) (receipt : VerificationReceiptRecord) : DBTx Bool := do
  require (receipt.blockNumber = block.number ∧ receipt.blockHash = block.hash ∧
    receipt.txHash ≠ 0 ∧ receipt.requestID ≠ 0) .recordConflict
  let changed ← insertReceiptRow (receiptRow block receipt)
  verifyPersistedReceipt block.chainID receipt
  return changed

/-- The row of a request resolution of the block. -/
def resolutionRow (block : ConfirmedBlock) (resolution : RequestResolutionRecord) :
    ResolutionRow where
  requestID := resolution.requestID
  chainID := block.chainID
  txHash := resolution.txHash
  dependencyKey := resolution.dependencyKey
  newDependency := resolution.newDependency
  homeTrustRoot := resolution.homeTrustRoot
  logIndex := resolution.logIndex

/-- `INSERT INTO request_resolutions … ON CONFLICT(request_id) DO NOTHING`. -/
def insertResolutionRow (row : ResolutionRow) : DBTx Bool := fun db =>
  match db.resolutions.insert? row with
  | none => .ok (false, db)
  | some resolutions =>
      if (∃ other ∈ db.resolutions.rows, other.chainID = row.chainID ∧
            other.txHash = row.txHash ∧ other.logIndex = row.logIndex) ∨
          ¬ (∃ receipt ∈ db.receipts.rows,
            receipt.chainID = row.chainID ∧ receipt.txHash = row.txHash) ∨
          ¬ (∃ request ∈ db.requests.rows, request.id = row.requestID) then .error .constraint
      else .ok (true, { db with resolutions := resolutions })

/-- `verifyPersistedResolution`. -/
def verifyPersistedResolution (chainID : Bytes32) (want : RequestResolutionRecord) :
    DBTx Unit := do
  let row ← gets fun db => (db.resolutions.find? want.requestID).filter fun row =>
    row.chainID = chainID
  let persisted ← expect row .noRows
  require (persisted.txHash = want.txHash ∧ persisted.dependencyKey = want.dependencyKey ∧
    persisted.newDependency = want.newDependency ∧ persisted.homeTrustRoot = want.homeTrustRoot ∧
    persisted.logIndex = want.logIndex) .recordConflict

/-- `verifyResolutionIndexedLog`: the log and the receipt the query joins, then the parsed event and
the requester of the request. -/
def verifyResolutionIndexedLog (block : ConfirmedBlock) (want : RequestResolutionRecord) :
    DBTx Unit := do
  let joined ← gets fun db => db.receipts.rows.findSome? fun receipt =>
    if receipt.chainID = block.chainID ∧ receipt.txHash = want.txHash ∧
        receipt.requestID = want.requestID then
      (db.logs.find? ⟨block.chainID, block.hash, want.txHash, receipt.txIndex, want.logIndex⟩).bind
        fun log => if log.eventTopic = requestResolvedTopic then some (log, receipt) else none
    else none
  let (log, receipt) ← expect joined .evidenceBinding
  require (log.blockNumber = block.height ∧ receipt.blockNumber = block.height ∧
    receipt.blockHash = block.hash) .evidenceBinding
  let parsed ← check (parseRequestResolved log.log) fun _ => .evidenceBinding
  require (parsed.requestID = want.requestID ∧ parsed.dependencyKey = want.dependencyKey ∧
    parsed.newDependency = want.newDependency ∧ parsed.homeTrustRoot = want.homeTrustRoot)
    .evidenceBinding
  let row ← gets (·.requests.find? want.requestID)
  let request ← expect row .evidenceBinding
  require (request.requester = parsed.requester) .evidenceBinding

/-- One turn of the loop over the resolutions. -/
def applyResolution (block : ConfirmedBlock) (resolution : RequestResolutionRecord) :
    DBTx Bool := do
  let changed ← insertResolutionRow (resolutionRow block resolution)
  verifyPersistedResolution block.chainID resolution
  verifyResolutionIndexedLog block resolution
  return changed

/-! ## Dependencies -/

/-- `verifyDependencyReceiptAndResolution`; both callers replace its errors by
`ErrEvidenceBinding`. -/
def verifyDependencyReceiptAndResolution (block : ConfirmedBlock)
    (material : DependencyMaterialization) : DBTx Unit := do
  let row ← gets fun db => (db.resolutions.find? material.dependency.requestID).filter fun row =>
    row.chainID = block.chainID ∧ row.newDependency
  let resolution ← expect row .evidenceBinding
  let row ← gets fun db => (db.receipts.find? (resolution.chainID, resolution.txHash)).filter
    fun row => row.requestID = resolution.requestID
  let receipt ← expect row .evidenceBinding
  require (resolution.txHash = material.evidence.locator.txHash ∧
    receipt.blockNumber = block.height ∧ receipt.blockHash = block.hash ∧
    receipt.txIndex = material.evidence.locator.txIndex ∧
    resolution.dependencyKey = material.dependency.dependencyKey ∧
    resolution.homeTrustRoot = material.fromNode.root) .evidenceBinding

/-- `verifyDependencyIndexedLog`. -/
def verifyDependencyIndexedLog (block : ConfirmedBlock) (material : DependencyMaterialization) :
    DBTx Unit := do
  let row ← gets fun db => (db.logs.find? ⟨block.chainID, block.hash,
    material.evidence.locator.txHash, material.evidence.locator.txIndex,
    material.evidence.locator.logIndex⟩).filter fun row => row.eventTopic = dependencyRecordedTopic
  let log ← expect row .evidenceBinding
  require (log.blockNumber = block.height) .evidenceBinding
  let parsed ← check (parseDependencyRecorded log.log) fun _ => .evidenceBinding
  require (parsed.requestID = material.dependency.requestID ∧
    parsed.dependencyKey = material.dependency.dependencyKey ∧
    parsed.sourceChainID = material.dependency.sourceChainID ∧
    parsed.sourceHeight = material.dependency.sourceHeight ∧
    parsed.sourceBlockHash = material.dependency.sourceBlockHash ∧
    parsed.sourceTrustRoot = material.dependency.sourceTrustRoot ∧
    parsed.leafIndex = material.dependency.leafIndex) .evidenceBinding

/-- The checks of `applyDependencyMaterialization` that do not read the database. -/
def bindMaterial (keccak : Keccak) (block : ConfirmedBlock) (material : DependencyMaterialization) :
    DBTx Unit := do
  require (material.edge.validate keccak = .ok () ∧ material.evidence.state = .candidate ∧
    material.evidence.id = material.dependency.evidenceID ∧
    material.edge.evidenceID = material.evidence.id ∧
    material.witness.evidenceID = material.evidence.id ∧
    material.edge.witnessID = some material.witness.id ∧
    material.edge.leafIndex = material.dependency.leafIndex ∧
    material.witness.leafIndex = material.dependency.leafIndex ∧
    material.edge.pathStepCost = block.pathStepCostGas) .evidenceBinding
  require (material.evidence.locator.computeID keccak = .ok material.evidence.id ∧
    material.evidence.locator.chainID = block.chainID ∧
    material.evidence.locator.contractAddress = block.gateway ∧
    material.evidence.locator.blockNumber = block.height ∧
    material.evidence.locator.blockHash = block.hash) .evidenceBinding
  require (material.dependency.validate keccak material.toNode
    material.evidence.locator.payloadDigest = .ok ()) .evidenceBinding
  require (material.fromNode.id = material.edge.fromID ∧ material.toNode.id = material.edge.toID ∧
    material.fromNode.root ≠ 0 ∧ material.fromNode.key.chainID = block.chainID ∧
    material.fromNode.key.height = block.height ∧ material.fromNode.key.blockHash = block.hash)
    .evidenceBinding

/-- What `bindMaterial` has checked, as far as later proofs use it. -/
structure BoundMaterial (keccak : Keccak) (block : ConfirmedBlock)
    (material : DependencyMaterialization) : Prop where
  edge : material.edge.validate keccak = .ok ()
  edgeEvidence : material.edge.evidenceID = material.evidence.id
  witnessEvidence : material.witness.evidenceID = material.evidence.id
  witnessID : material.edge.witnessID = some material.witness.id
  edgeLeaf : material.edge.leafIndex = material.dependency.leafIndex
  witnessLeaf : material.witness.leafIndex = material.dependency.leafIndex
  evidenceID : material.evidence.locator.computeID keccak = .ok material.evidence.id
  dependency : material.dependency.validate keccak material.toNode
    material.evidence.locator.payloadDigest = .ok ()
  fromID : material.fromNode.id = material.edge.fromID
  toID : material.toNode.id = material.edge.toID
  fromChain : material.fromNode.key.chainID = block.chainID

theorem bindMaterial_bound {keccak : Keccak} {block : ConfirmedBlock}
    {material : DependencyMaterialization} {P : DB → Prop} :
    Ensures P (bindMaterial keccak block material)
      fun _ db => P db ∧ BoundMaterial keccak block material := by
  refine .require fun hIDs => .require fun hLocator => .require fun hDependency =>
    .require_last fun hNodes db hP => ⟨hP, ?_⟩
  exact {
    edge := hIDs.1
    edgeEvidence := hIDs.2.2.2.1
    witnessEvidence := hIDs.2.2.2.2.1
    witnessID := hIDs.2.2.2.2.2.1
    edgeLeaf := hIDs.2.2.2.2.2.2.1
    witnessLeaf := hIDs.2.2.2.2.2.2.2.1
    evidenceID := hLocator.1
    dependency := hDependency
    fromID := hNodes.1
    toID := hNodes.2.1
    fromChain := hNodes.2.2.2.1 }

/-- The evidence of a dependency: new evidence is inserted and taken to `active`; evidence that is
stored already has to be active. -/
def applyEvidence (material : DependencyMaterialization) : DBTx Bool := do
  let inserted ← insertEvidenceIfAbsent
    ⟨material.evidence.id, material.evidence.locator, .candidate, ""⟩
  if inserted then
    activateEvidence true material.evidence.id "confirmed Gateway receipt validation"
    return true
  else
    let persisted ← loadActiveEvidence material.evidence.id
    require (persisted.locator = material.evidence.locator ∧ persisted.invalidReason = "")
      .evidenceBinding
    return false

/-- `applyDependencyMaterialization`. -/
def applyDependencyMaterialization (keccak : Keccak) (block : ConfirmedBlock)
    (material : DependencyMaterialization) : DBTx Bool := do
  bindMaterial keccak block material
  verifyActiveNodeContent material.fromNode
  verifyActiveNodeContent material.toNode
  verifyDependencyReceiptAndResolution block material
  require (Internal.Proof.rootFromWitness keccak
    (leafHash keccak material.dependency.sourceTrustRoot material.dependency.sourceBlockHash)
    material.witness.leafIndex material.witness.siblings block.merkleDepth =
      .ok material.fromNode.root) .evidenceBinding
  verifyDependencyIndexedLog block material
  let changed ← applyEvidence material
  require ((newGraphWitness keccak material.evidence.id material.witness.leafIndex
      material.witness.siblings).id = material.witness.id ∧
    material.witness.siblings.length = block.merkleDepth.toNat) .evidenceBinding
  let witnessInserted ← mergeWitness material.witness
  let edgeInserted ← mergeTrustEdge material.edge
  return changed || witnessInserted || edgeInserted

/-! ## The outbox and the block -/

/-- The peer whose outbox the indexer fills, if gossip is configured, and the reading of the clock
for the envelopes of this block. -/
structure Outbox where
  origin : PeerID
  now : UnixNano

/-- `enqueueActiveEvidenceOutbox`. -/
def enqueueActiveEvidenceOutbox (p : Primitives) (outbox : Outbox) (block : ConfirmedBlock)
    (material : DependencyMaterialization) : DBTx Bool := do
  require (outbox.origin ≠ [] ∧ material.evidence.locator.chainID = block.chainID ∧
    material.evidence.locator.contractAddress = block.gateway) .evidenceBinding
  verifyDependencyReceiptAndResolution block material
  verifyDependencyIndexedLog block material
  let row ← gets (·.evidence.find? material.evidence.id)
  let persisted ← expect row .evidenceBinding
  require (persisted.state = .active ∧ persisted.invalidReason = "" ∧
    persisted.locator = material.evidence.locator) .evidenceBinding
  match ← gets fun db => db.outbox.rows.find? fun row => row.evidenceID = material.evidence.id with
  | some row =>
      let envelope ← check (Envelope.parse p row.envelope) fun _ => .recordConflict
      require (envelope.originPeer = outbox.origin ∧ envelope.locator = material.evidence.locator)
        .recordConflict
      return false
  | none =>
      let envelope ← check (Envelope.new p outbox.origin outbox.now material.evidence.locator)
        .envelope
      let encoded ← check (envelope.marshalBinary p) .envelope
      let taken ← gets (·.outbox.find? envelope.messageID)
      require (taken = none ∧ 0 < outbox.now) .constraint
      modify fun db => { db with
        outbox := db.outbox.insertIgnore ⟨envelope.messageID, material.evidence.id, outbox.origin,
          encoded⟩ }
      return true

/-- One turn of the loop over the dependencies: whether the graph and whether the outbox changed.
The outbox is only filled for evidence that was not in the database before. -/
def applyDependency (p : Primitives) (outbox : Option Outbox) (block : ConfirmedBlock)
    (material : DependencyMaterialization) : DBTx (Bool × Bool) := do
  let existed ← gets fun db => (db.evidence.find? material.evidence.id).isSome
  let changed ← applyDependencyMaterialization p.keccak block material
  match outbox with
  | some outbox =>
      if existed then return (changed, false)
      else
        let enqueued ← enqueueActiveEvidenceOutbox p outbox block material
        return (changed, enqueued)
  | none => return (changed, false)

/-- The loop over the dependencies. -/
def applyDependencies (p : Primitives) (outbox : Option Outbox) (block : ConfirmedBlock) :
    List DependencyMaterialization → DBTx (Bool × Bool)
  | [] => pure (false, false)
  | material :: materials => do
      let (graph, enqueued) ← applyDependency p outbox block material
      let (graph', enqueued') ← applyDependencies p outbox block materials
      return (graph || graph', enqueued || enqueued')

/-- Whether the block is a replay of the one at the cursor, and the cursor after the block. -/
def blockCursor (block : ConfirmedBlock) : DBTx (Bool × CanonicalCursor) := do
  let row ← gets (·.cursors.find? block.chainID)
  let current ← expect row .recordNotFound
  require (current.state = .healthy) (.cursor .cursorDegraded)
  if current.height = block.height then
    require (current.hash = block.hash) (.cursor .canonicalMismatch)
    return (true, current)
  else
    require (current = block.expectedCursor) .concurrentUpdate
    let advanced ← check (current.advance current.hash block.height block.hash block.parentHash)
      .cursor
    return (false, advanced)

/-- `UPDATE canonical_cursors` of the row the block was applied to. -/
def updateCursor (advanced : CanonicalCursor) : DBTx Unit :=
  modify fun db => { db with
    cursors := db.cursors.modify advanced.chainID
      (fun row => { row with height := advanced.height, hash := advanced.hash }) fun _ => rfl }

/-- `ApplyConfirmedBlock`: whether the block was new. -/
def applyConfirmedBlock (p : Primitives) (outbox : Option Outbox) (block : ConfirmedBlock) :
    DBTx Bool := do
  require (block.number ≠ UInt64.ofNat (2 ^ 64 - 1) ∧ block.hash ≠ 0 ∧ block.parentHash ≠ 0 ∧
    block.gateway ≠ 0 ∧ block.merkleDepth ≠ 0 ∧ block.pathStepCostGas ≠ 0)
    (.invalidInput "invalid confirmed block")
  requireIndexerConfig block
  let (replay, advanced) ← blockCursor block
  let logsChanged ← anyChanged (insertIndexedGatewayLog block) block.logs
  let requestsChanged ← anyChanged (insertObservedRequest p.keccak) block.requests
  let receiptsChanged ← anyChanged (applyReceipt block) block.receipts
  let resolutionsChanged ← anyChanged (applyResolution block) block.resolutions
  require (block.receipts.length = block.resolutions.length) .evidenceBinding
  require (∀ receipt ∈ block.receipts, ∃ resolution ∈ block.resolutions,
    resolution.requestID = receipt.requestID ∧ resolution.txHash = receipt.txHash) .evidenceBinding
  let (graphChanged, outboxChanged) ← applyDependencies p outbox block block.dependencies
  let durableChanged := logsChanged || requestsChanged || receiptsChanged || resolutionsChanged ||
    outboxChanged || graphChanged
  require (¬ (replay ∧ durableChanged)) .recordConflict
  when graphChanged bumpGraphRevision
  when (¬ replay) (updateCursor advanced)
  return !replay

end TrustMap.Mapnode.Store
