import TrustMap.Mapnode.ChainAbi
import TrustMap.Mapnode.Request
import TrustMap.Mapnode.TrustView

/-!
What the confirmed event indexer hands to the store: the cursor of the Go package `reorg` and the
confirmed block of the package `indexer`.
-/

namespace TrustMap.Mapnode

open Checks ChainAbi

/-- `reorg.CursorState`. -/
inductive CursorState
  | healthy
  | degraded
  deriving DecidableEq, Repr

/-- `reorg.CanonicalCursor`. -/
structure CanonicalCursor where
  chainID : Bytes32
  height : Bytes32
  hash : Bytes32
  state : CursorState
  degradedReason : String
  deriving DecidableEq, Repr

/-- The errors of the package `reorg`. -/
inductive CursorError
  | canonicalMismatch
  | cursorDegraded
  | nonMonotonicCursor
  deriving DecidableEq, Repr

/-- `CanonicalCursor.Advance` to the block with the given height, hash and parent. -/
def CanonicalCursor.advance (cursor : CanonicalCursor) (recheckedHash : Bytes32)
    (height hash parentHash : Bytes32) : Except CursorError CanonicalCursor := do
  require (cursor.state ≠ .degraded) .cursorDegraded
  require (recheckedHash = cursor.hash) .canonicalMismatch
  require (parentHash = recheckedHash) .canonicalMismatch
  require (height.toNat = cursor.height.toNat + 1 ∧ hash ≠ 0) .nonMonotonicCursor
  return { cursor with height := height, hash := hash }

/-- `indexer.IndexedGatewayLog`. -/
structure IndexedGatewayLog where
  address : Address
  blockNumber : UInt64
  blockHash : Bytes32
  txHash : Bytes32
  txIndex : UInt32
  logIndex : UInt32
  eventTopic : Bytes32
  contentDigest : Bytes32
  log : ChainAbi.Log
  deriving DecidableEq

/-- `indexer.VerificationReceiptRecord`. -/
structure VerificationReceiptRecord where
  txHash : Bytes32
  blockNumber : UInt64
  blockHash : Bytes32
  txIndex : UInt32
  requestID : Bytes32
  deriving DecidableEq

/-- `indexer.RequestResolutionRecord`. -/
structure RequestResolutionRecord where
  requestID : Bytes32
  txHash : Bytes32
  dependencyKey : Bytes32
  newDependency : Bool
  homeTrustRoot : Bytes32
  logIndex : UInt32
  deriving DecidableEq

/-- `indexer.DependencyMaterialization`. -/
structure DependencyMaterialization where
  dependency : VerifiedDependency
  evidence : EvidenceRecord
  witness : GraphWitness
  fromNode : TrustNode
  toNode : TrustNode
  edge : TrustEdge
  deriving DecidableEq

/-- `indexer.ConfirmedBlock`. -/
structure ConfirmedBlock where
  chainID : Bytes32
  gateway : Address
  number : UInt64
  hash : Bytes32
  parentHash : Bytes32
  expectedCursor : CanonicalCursor
  logs : List IndexedGatewayLog
  requests : List Request
  receipts : List VerificationReceiptRecord
  resolutions : List RequestResolutionRecord
  dependencies : List DependencyMaterialization
  merkleDepth : UInt8
  pathStepCostGas : UInt64
  deriving DecidableEq

/-- `domain.NewBlockHeight` of the block number. -/
def ConfirmedBlock.height (block : ConfirmedBlock) : Bytes32 :=
  Words.ofUInt64 block.number

end TrustMap.Mapnode
