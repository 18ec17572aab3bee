import TrustMap.Internal.IncrementalTree
import TrustMap.Mapnode.ChainAbi
import TrustMap.Mapnode.Request
import TrustMap.Mapnode.TrustView

/-!
`indexer.VerifyVerificationReceipt`: the home chain's check that a receipt is the one of a single
verification call, and the membership witness of the dependency the call has recorded.
-/

namespace TrustMap.Mapnode

open Checks ChainAbi Internal.Proof

/-- `types.Log` of a receipt. -/
structure ReceiptLog where
  address : Address
  blockNumber : UInt64
  blockHash : Bytes32
  txHash : Bytes32
  txIndex : UInt64
  index : UInt64
  removed : Bool
  log : ChainAbi.Log
  deriving DecidableEq

/-- `types.Receipt`; the pointers to the block number and to the logs can be nil. -/
structure TxReceipt where
  status : UInt64
  txHash : Bytes32
  blockHash : Bytes32
  blockNumber : Option ℤ
  transactionIndex : UInt64
  logs : List (Option ReceiptLog)
  deriving DecidableEq

/-- `types.ReceiptStatusSuccessful`. -/
def receiptStatusSuccessful : UInt64 := 1

/-- `VerificationReceiptInput`. -/
structure VerificationReceiptInput where
  gateway : Address
  blockHash : Bytes32
  blockNumber : UInt64
  parentHash : Bytes32
  merkleDepth : UInt8
  request : Request
  receipt : Option TxReceipt

/-- `MembershipWitnessMaterial`. -/
structure WitnessMaterial where
  leafIndex : UInt32
  siblings : List Bytes32
  deriving DecidableEq

/-- `VerificationReceiptBundle`. -/
structure VerificationReceiptBundle where
  success : VerificationSucceeded
  resolution : RequestResolved
  dependency : Option DependencyRecorded
  witness : Option WitnessMaterial
  logs : List ReceiptLog
  deriving DecidableEq

/-- The errors of a receipt check: a reason of its own or the one of a parser. -/
inductive ReceiptError
  | invalid (reason : String)
  | abi (cause : AbiError)
  deriving DecidableEq, Repr

/-! ## The witness of the second leaf -/

/-- The three reasons for which the tree does not close. -/
structure TreeReasons where
  anchor : String
  dependency : String
  witness : String

/-- The siblings of the leaf at index one: the anchor leaf, then empty subtrees. -/
def secondLeafSiblings (anchorLeaf : Bytes32) (zeros : List Bytes32) (depth : ℕ) : List Bytes32 :=
  anchorLeaf :: (List.range (depth - 1)).map fun level => zeros.getD (level + 1) 0

/-- `tree.Append` followed by a comparison of the root. -/
def appendExpecting (keccak : Keccak) (tree : IncrementalTree) (leaf root : Bytes32)
    (reason : String) : Except ReceiptError IncrementalTree :=
  match tree.append keccak leaf with
  | some next => if next.root = root then .ok next else .error (.invalid reason)
  | none => .error (.invalid reason)

/-- The tree of the block with its two leaves, and the siblings of the second one; both verifiers
end with this. -/
def rebuildTree (keccak : Keccak) (depth : UInt8) (reasons : TreeReasons)
    (anchorLeaf dependencyLeaf : Bytes32) (leafIndex : UInt32)
    (anchorRoot dependencyRoot homeRoot : Bytes32) : Except ReceiptError (List Bytes32) := do
  let tree ← (newIncrementalTree keccak depth).mapError fun _ => .invalid "invalid tree depth"
  let tree ← appendExpecting keccak tree anchorLeaf anchorRoot reasons.anchor
  let _ ← appendExpecting keccak tree dependencyLeaf dependencyRoot reasons.dependency
  let zeros ← (zeroHashes keccak depth).mapError fun _ => .invalid "invalid tree depth"
  let siblings := secondLeafSiblings anchorLeaf zeros depth.toNat
  require (rootFromWitness keccak dependencyLeaf leafIndex siblings depth = .ok homeRoot)
    (.invalid reasons.witness)
  return siblings

/-! ## The loop over the logs -/

/-- The variables of the loop of `VerifyVerificationReceipt`; there is no previous index before the
first log. -/
structure ReceiptScan where
  success : Option (ReceiptLog × VerificationSucceeded) := none
  updates : List (ReceiptLog × TrustRootUpdated) := []
  dependency : Option (ReceiptLog × DependencyRecorded) := none
  resolution : Option (ReceiptLog × RequestResolved) := none
  logs : List ReceiptLog := []
  previousIndex : Option UInt64 := none

namespace ReceiptScan

variable (scan : ReceiptScan) (item : ReceiptLog)

/-- The case of a success event. -/
def addSuccess : Except ReceiptError ReceiptScan := do
  require (scan.success = none) (.invalid "multiple verification success events")
  let event ← (parseVerificationSucceeded item.log).mapError .abi
  return { scan with success := some (item, event), logs := scan.logs ++ [item] }

/-- The case of `TrustRootUpdated`. -/
def addUpdate : Except ReceiptError ReceiptScan := do
  let event ← (parseTrustRootUpdated item.log).mapError .abi
  return { scan with updates := scan.updates ++ [(item, event)], logs := scan.logs ++ [item] }

/-- The case of `DependencyRecorded`. -/
def addDependency : Except ReceiptError ReceiptScan := do
  require (scan.dependency = none) (.invalid "multiple DependencyRecorded events")
  let event ← (parseDependencyRecorded item.log).mapError .abi
  return { scan with dependency := some (item, event), logs := scan.logs ++ [item] }

/-- The case of `RequestResolved`. -/
def addResolution : Except ReceiptError ReceiptScan := do
  require (scan.resolution = none) (.invalid "multiple RequestResolved events")
  let event ← (parseRequestResolved item.log).mapError .abi
  return { scan with resolution := some (item, event), logs := scan.logs ++ [item] }

/-- The switch over the first topic of a Gateway log. -/
def addGatewayLog : Except ReceiptError ReceiptScan :=
  match item.log.topics.head? with
  | none => .error (.invalid "Gateway log has no topic")
  | some topic =>
      if topic = directVerificationSucceededTopic ∨ topic = pathVerificationSucceededTopic then
        scan.addSuccess item
      else if topic = trustRootUpdatedTopic then scan.addUpdate item
      else if topic = dependencyRecordedTopic then scan.addDependency item
      else if topic = requestResolvedTopic then scan.addResolution item
      else if topic = verificationRequestedTopic then
        .error (.invalid "verification receipt unexpectedly contains VerificationRequested")
      else .error (.invalid "unknown Gateway receipt topic")

end ReceiptScan

/-- Whether an index is above the previous one, if there is one. -/
def follows (previous : Option UInt64) (index : UInt64) : Bool :=
  match previous with
  | none => true
  | some previous => previous < index

/-- One turn of the loop. -/
def scanLog (input : VerificationReceiptInput) (receipt : TxReceipt) (scan : ReceiptScan) :
    Option ReceiptLog → Except ReceiptError ReceiptScan
  | none => .error (.invalid "nil receipt log")
  | some item => do
      require (item.blockHash = input.blockHash ∧ item.blockNumber = input.blockNumber ∧
        item.txHash = receipt.txHash ∧ item.txIndex = receipt.transactionIndex)
        (.invalid "receipt log coordinate mismatch")
      require (follows scan.previousIndex item.index)
        (.invalid "receipt logs are not strictly ordered")
      let scan := { scan with previousIndex := some item.index }
      if item.address ≠ input.gateway then return scan else scan.addGatewayLog item

/-! ## After the loop -/

/-- The success and the resolution event, in this order. -/
def ReceiptScan.ends (scan : ReceiptScan) :
    Except ReceiptError ((ReceiptLog × VerificationSucceeded) × (ReceiptLog × RequestResolved)) :=
  match scan.success, scan.resolution with
  | some success, some resolution =>
      if success.1.index < resolution.1.index then .ok (success, resolution)
      else .error (.invalid "missing or misordered success/RequestResolved events")
  | _, _ => .error (.invalid "missing or misordered success/RequestResolved events")

/-- `verifySuccessAndResolution`. -/
def verifySuccessAndResolution (keccak : Keccak) (request : Request)
    (success : VerificationSucceeded) (resolved : RequestResolved) : Except ReceiptError Unit := do
  require (success.requestID = request.id ∧ success.sourceChainID = request.sourceChainID ∧
    success.sourceHeight = request.sourceHeight ∧
    success.sourceBlockHash = request.sourceBlockHash ∧
    success.dependencyKey = resolved.dependencyKey ∧ resolved.requestID = request.id ∧
    resolved.requester = request.requester)
    (.invalid "success and resolution do not bind the observed request")
  require (success.dependencyKey = computeDependencyKey keccak success.sourceChainID
    success.sourceHeight success.sourceBlockHash success.sourceTrustRoot)
    (.invalid "success dependency key mismatch")

/-- The dependency event and the two updates of a new dependency. -/
def ReceiptScan.newDependency (scan : ReceiptScan) :
    Except ReceiptError ((ReceiptLog × DependencyRecorded) × (ReceiptLog × TrustRootUpdated) ×
      (ReceiptLog × TrustRootUpdated)) :=
  match scan.dependency, scan.updates with
  | some dependency, [anchor, dependencyUpdate] => .ok (dependency, anchor, dependencyUpdate)
  | _, _ => .error (.invalid "new dependency receipt is incomplete")

/-- The part of `VerifyVerificationReceipt` for a new dependency. -/
def verifyNewDependency (keccak : Keccak) (input : VerificationReceiptInput) (scan : ReceiptScan)
    (success : ReceiptLog × VerificationSucceeded) (resolution : ReceiptLog × RequestResolved) :
    Except ReceiptError (DependencyRecorded × WitnessMaterial) := do
  let (dependency, anchor, dependencyUpdate) ← scan.newDependency
  require (success.1.index < anchor.1.index ∧ anchor.1.index < dependencyUpdate.1.index ∧
    dependencyUpdate.1.index < dependency.1.index ∧ dependency.1.index < resolution.1.index)
    (.invalid "new dependency receipt events are misordered")
  require (dependency.2.requestID = input.request.id ∧
    dependency.2.sourceChainID = input.request.sourceChainID ∧
    dependency.2.sourceHeight = input.request.sourceHeight ∧
    dependency.2.sourceBlockHash = input.request.sourceBlockHash ∧
    dependency.2.sourceTrustRoot = success.2.sourceTrustRoot ∧
    dependency.2.dependencyKey = success.2.dependencyKey ∧
    dependency.2.dependencyKey = resolution.2.dependencyKey)
    (.invalid "DependencyRecorded does not bind the request and success event")
  require (dependency.2.dependencyKey = computeDependencyKey keccak dependency.2.sourceChainID
    dependency.2.sourceHeight dependency.2.sourceBlockHash dependency.2.sourceTrustRoot)
    (.invalid "dependency key mismatch")
  require (anchor.2.requestID = input.request.id ∧ anchor.2.leafIndex = 0 ∧ anchor.2.isAnchor)
    (.invalid "invalid anchor update identity")
  let anchorLeaf := leafHash keccak anchor.2.oldTrustRoot input.parentHash
  require (anchor.2.leaf = anchorLeaf)
    (.invalid "anchor leaf does not bind prior root and parent block")
  let dependencyLeaf :=
    leafHash keccak dependency.2.sourceTrustRoot dependency.2.sourceBlockHash
  require (dependencyUpdate.2.requestID = input.request.id ∧ dependencyUpdate.2.leafIndex = 1 ∧
    ¬ dependencyUpdate.2.isAnchor ∧ dependency.2.leafIndex = 1 ∧
    dependencyUpdate.2.leaf = dependencyLeaf ∧
    dependencyUpdate.2.oldTrustRoot = anchor.2.newTrustRoot ∧
    resolution.2.homeTrustRoot = dependencyUpdate.2.newTrustRoot)
    (.invalid "invalid dependency update root chain")
  let siblings ← rebuildTree keccak input.merkleDepth
    ⟨"anchor update root mismatch", "dependency update root mismatch",
      "reconstructed membership witness does not close"⟩
    anchorLeaf dependencyLeaf dependency.2.leafIndex anchor.2.newTrustRoot
    dependencyUpdate.2.newTrustRoot resolution.2.homeTrustRoot
  return (dependency.2, ⟨dependency.2.leafIndex, siblings⟩)

/-- The checks of `VerifyVerificationReceipt` before the loop. -/
def checkReceiptContext (input : VerificationReceiptInput) : Except ReceiptError TxReceipt :=
  match input.receipt with
  | none => .error (.invalid "missing receipt context")
  | some receipt => do
      require (input.gateway ≠ 0 ∧ input.blockHash ≠ 0 ∧ input.parentHash ≠ 0)
        (.invalid "missing receipt context")
      require (input.merkleDepth ≠ 0 ∧ input.merkleDepth ≤ maxTreeDepth)
        (.invalid "invalid deployment Merkle depth")
      require (receipt.status = receiptStatusSuccessful ∧ receipt.txHash ≠ 0 ∧
        receipt.blockHash = input.blockHash ∧
        receipt.blockNumber = some (input.blockNumber.toNat : ℤ) ∧
        receipt.transactionIndex.toNat < 2 ^ 32)
        (.invalid "failed receipt or mismatched block coordinate")
      return receipt

/-- The end of `VerifyVerificationReceipt`: a resolution without a new dependency comes without any
update. -/
def finishReceipt (keccak : Keccak) (input : VerificationReceiptInput) (scan : ReceiptScan)
    (success : ReceiptLog × VerificationSucceeded) (resolution : ReceiptLog × RequestResolved) :
    Except ReceiptError VerificationReceiptBundle :=
  if resolution.2.newDependency then do
    let (dependency, witness) ← verifyNewDependency keccak input scan success resolution
    return ⟨success.2, resolution.2, some dependency, some witness, scan.logs⟩
  else do
    require (scan.updates = [] ∧ scan.dependency = none)
      (.invalid "existing dependency resolution emitted update evidence")
    return ⟨success.2, resolution.2, none, none, scan.logs⟩

/-- `VerifyVerificationReceipt`. -/
def verifyVerificationReceipt (keccak : Keccak) (input : VerificationReceiptInput) :
    Except ReceiptError VerificationReceiptBundle := do
  let receipt ← checkReceiptContext input
  let scan ← receipt.logs.foldlM (scanLog input receipt) {}
  let (success, resolution) ← scan.ends
  verifySuccessAndResolution keccak input.request success.2 resolution.2
  finishReceipt keccak input scan success resolution

end TrustMap.Mapnode
