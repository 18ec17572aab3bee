import TrustMap.Mapnode.VerificationReceipt

/-!
The receipt checks of `evidence.RemoteDependencyValidator`: `validateReceipt` looks for the
dependency a locator points to, and `bindRequest` compares it with the request event. The request is
not known when the receipt is checked.
-/

namespace TrustMap.Mapnode

open Checks ChainAbi Internal.Proof

/-- The fields of `RemoteDependencyConfig` that the receipt checks read, as
`NewRemoteDependencyValidator` accepts them. -/
structure RemoteDependencyConfig where
  chainID : Bytes32
  gateway : Address
  merkleDepth : UInt8
  gateway_ne : gateway ≠ 0
  depth_ne : merkleDepth ≠ 0
  depth_le : merkleDepth ≤ maxTreeDepth

/-- The fields of a block header the verifiers use; the hash is the one of the whole header. -/
structure BlockHeader where
  number : UInt64
  hash : Bytes32
  parentHash : Bytes32
  deriving DecidableEq

/-- `validatedReceiptBundle`. -/
structure ValidatedReceiptBundle where
  success : VerificationSucceeded
  dependency : DependencyRecorded
  resolution : RequestResolved
  siblings : List Bytes32
  deriving DecidableEq

/-- `canonicalDependencyKey`. -/
def canonicalDependencyKey (keccak : Keccak) (chainID height blockHash root : Bytes32) : Bytes32 :=
  keccak (Words.bytes chainID ++ Words.bytes height ++ Words.bytes blockHash ++ Words.bytes root)

/-- `canonicalDependencyPayloadDigest`: six words, then the leaf index in the last four bytes of a
seventh. -/
def canonicalDependencyPayloadDigest (keccak : Keccak) (dependency : DependencyRecorded) :
    Bytes32 :=
  keccak (Words.bytes dependency.dependencyKey ++ Words.bytes dependency.requestID ++
    Words.bytes dependency.sourceChainID ++ Words.bytes dependency.sourceHeight ++
    Words.bytes dependency.sourceBlockHash ++ Words.bytes dependency.sourceTrustRoot ++
    (List.replicate 28 0 ++ Words.bigEndian 4 dependency.leafIndex.toNat))

/-! ## The loop over the logs -/

/-- The variables of the loop of `validateReceipt`: every event with the index of its log. -/
structure RemoteScan where
  success : Option (UInt64 × VerificationSucceeded) := none
  updates : List (UInt64 × TrustRootUpdated) := []
  dependency : Option (UInt64 × DependencyRecorded) := none
  resolution : Option (UInt64 × RequestResolved) := none
  previous : Option UInt64 := none

namespace RemoteScan

variable (scan : RemoteScan) (item : ReceiptLog)

/-- The case of a success event. -/
def addSuccess : Except ReceiptError RemoteScan := do
  require (scan.success = none) (.invalid "multiple verification success logs")
  let event ← (parseVerificationSucceeded item.log).mapError .abi
  return { scan with success := some (item.index, event) }

/-- The case of `TrustRootUpdated`. -/
def addUpdate : Except ReceiptError RemoteScan := do
  let event ← (parseTrustRootUpdated item.log).mapError .abi
  return { scan with updates := scan.updates ++ [(item.index, event)] }

/-- The case of `DependencyRecorded`: the log is the one the locator names. -/
def addDependency (locator : Locator) : Except ReceiptError RemoteScan := do
  require (scan.dependency = none) (.invalid "multiple DependencyRecorded logs")
  let event ← (parseDependencyRecorded item.log).mapError .abi
  require (item.index.toNat < 2 ^ 32 ∧ item.index.toUInt32 = locator.logIndex)
    (.invalid "exact DependencyRecorded log coordinate mismatch")
  return { scan with dependency := some (item.index, event) }

/-- The case of `RequestResolved`. -/
def addResolution : Except ReceiptError RemoteScan := do
  require (scan.resolution = none) (.invalid "multiple RequestResolved logs")
  let event ← (parseRequestResolved item.log).mapError .abi
  return { scan with resolution := some (item.index, event) }

/-- The switch over the first topic of a Gateway log. -/
def addGatewayLog (locator : Locator) : Except ReceiptError RemoteScan :=
  match item.log.topics.head? with
  | none => .error (.invalid "Gateway receipt log lacks topic")
  | some topic =>
      if topic = directVerificationSucceededTopic ∨ topic = pathVerificationSucceededTopic then
        scan.addSuccess item
      else if topic = trustRootUpdatedTopic then scan.addUpdate item
      else if topic = dependencyRecordedTopic then scan.addDependency item locator
      else if topic = requestResolvedTopic then scan.addResolution item
      else if topic = verificationRequestedTopic then
        .error (.invalid "verification receipt contains request event")
      else .error (.invalid "unknown Gateway receipt topic")

end RemoteScan

/-- `locator.BlockNumber.BigInt().Uint64()`. -/
def Locator.number (locator : Locator) : UInt64 :=
  UInt64.ofNat locator.blockNumber.toNat

/-- One turn of the loop. -/
def scanRemoteLog (config : RemoteDependencyConfig) (locator : Locator) (receipt : TxReceipt)
    (scan : RemoteScan) : Option ReceiptLog → Except ReceiptError RemoteScan
  | none => .error (.invalid "nil receipt log")
  | some item => do
      require (¬ item.removed ∧ item.blockHash = locator.blockHash ∧
        item.blockNumber = locator.number ∧ item.txHash = locator.txHash ∧
        item.txIndex = receipt.transactionIndex ∧
        follows scan.previous item.index)
        (.invalid "receipt log coordinate/order mismatch")
      let scan := { scan with previous := some item.index }
      if item.address ≠ config.gateway then return scan else scan.addGatewayLog item locator

/-! ## After the loop -/

/-- The events of a receipt with a new dependency, each with the index of its log. -/
structure NewDependencyEvents where
  success : UInt64 × VerificationSucceeded
  anchor : UInt64 × TrustRootUpdated
  dependencyUpdate : UInt64 × TrustRootUpdated
  dependency : UInt64 × DependencyRecorded
  resolution : UInt64 × RequestResolved

/-- The events, if all of them are there. -/
def RemoteScan.complete (scan : RemoteScan) : Except ReceiptError NewDependencyEvents :=
  match scan.success, scan.updates, scan.dependency, scan.resolution with
  | some success, [anchor, dependencyUpdate], some dependency, some resolution =>
      if resolution.2.newDependency then
        .ok ⟨success, anchor, dependencyUpdate, dependency, resolution⟩
      else .error (.invalid "incomplete new-dependency receipt")
  | _, _, _, _ => .error (.invalid "incomplete new-dependency receipt")

/-- The checks of `validateReceipt` after the loop, with the siblings they lead to. -/
def NewDependencyEvents.check (keccak : Keccak) (config : RemoteDependencyConfig)
    (locator : Locator) (header : BlockHeader) (events : NewDependencyEvents) :
    Except ReceiptError (List Bytes32) := do
  let success := events.success.2
  let anchor := events.anchor.2
  let dependencyUpdate := events.dependencyUpdate.2
  let dependency := events.dependency.2
  let resolution := events.resolution.2
  require (events.success.1 < events.anchor.1 ∧ events.anchor.1 < events.dependencyUpdate.1 ∧
    events.dependencyUpdate.1 < events.dependency.1 ∧ events.dependency.1 < events.resolution.1)
    (.invalid "new dependency receipt events are misordered")
  require (success.requestID = dependency.requestID ∧
    resolution.requestID = dependency.requestID ∧ anchor.requestID = dependency.requestID ∧
    dependencyUpdate.requestID = dependency.requestID ∧
    success.sourceChainID = dependency.sourceChainID ∧
    success.sourceHeight = dependency.sourceHeight ∧
    success.sourceBlockHash = dependency.sourceBlockHash ∧
    success.sourceTrustRoot = dependency.sourceTrustRoot ∧
    success.dependencyKey = dependency.dependencyKey ∧
    resolution.dependencyKey = dependency.dependencyKey)
    (.invalid "request/dependency/source tuple mismatch")
  require (dependency.dependencyKey = canonicalDependencyKey keccak dependency.sourceChainID
    dependency.sourceHeight dependency.sourceBlockHash dependency.sourceTrustRoot)
    (.invalid "dependency key mismatch")
  require (canonicalDependencyPayloadDigest keccak dependency = locator.payloadDigest)
    (.invalid "dependency payload digest mismatch")
  require (anchor.leafIndex = 0 ∧ anchor.isAnchor ∧ dependencyUpdate.leafIndex = 1 ∧
    ¬ dependencyUpdate.isAnchor ∧ dependency.leafIndex = 1)
    (.invalid "invalid fixed dependency update indices")
  let anchorLeaf := leafHash keccak anchor.oldTrustRoot header.parentHash
  let dependencyLeaf := leafHash keccak dependency.sourceTrustRoot dependency.sourceBlockHash
  require (anchor.leaf = anchorLeaf ∧ dependencyUpdate.leaf = dependencyLeaf ∧
    dependencyUpdate.oldTrustRoot = anchor.newTrustRoot ∧
    resolution.homeTrustRoot = dependencyUpdate.newTrustRoot)
    (.invalid "TrustRootUpdated chain mismatch")
  rebuildTree keccak config.merkleDepth
    ⟨"anchor TrustRoot mismatch", "dependency TrustRoot mismatch",
      "fixed-depth membership witness does not close"⟩
    anchorLeaf dependencyLeaf dependency.leafIndex anchor.newTrustRoot
    dependencyUpdate.newTrustRoot resolution.homeTrustRoot

/-- `validateReceipt`. -/
def validateReceipt (keccak : Keccak) (config : RemoteDependencyConfig) (locator : Locator)
    (header : BlockHeader) (receipt : TxReceipt) : Except ReceiptError ValidatedReceiptBundle := do
  require (receipt.status = receiptStatusSuccessful ∧ receipt.txHash = locator.txHash ∧
    receipt.blockHash = locator.blockHash ∧
    receipt.blockNumber = some (locator.number.toNat : ℤ) ∧
    receipt.transactionIndex.toNat < 2 ^ 32 ∧
    receipt.transactionIndex.toUInt32 = locator.txIndex)
    (.invalid "failed receipt or mismatched receipt block/transaction coordinate")
  let scan ← receipt.logs.foldlM (scanRemoteLog config locator receipt) {}
  let events ← scan.complete
  let siblings ← events.check keccak config locator header
  return ⟨events.success.2, events.dependency.2, events.resolution.2, siblings⟩

/-- `bindRequest`. -/
def bindRequest (request : VerificationRequested) (bundle : ValidatedReceiptBundle) :
    Except ReceiptError Unit :=
  require (request.requestID = bundle.dependency.requestID ∧
    request.requester = bundle.resolution.requester ∧
    request.sourceChainID = bundle.dependency.sourceChainID ∧
    request.sourceHeight = bundle.dependency.sourceHeight ∧
    request.sourceBlockHash = bundle.dependency.sourceBlockHash)
    (.invalid "VerificationRequested tuple does not bind receipt")

end TrustMap.Mapnode
