import TrustMap.Domain

/-!
The errors, events and record types of the Gateway and of the two contracts it
inherits from.
-/

namespace TrustMap.Contracts

/-- A tree depth accepted by the constructors of `PathProofVerifier` and
`TrustRootCommitment`. -/
structure TreeDepth where
  depth : UInt8
  pos : 0 < depth.toNat
  le : depth.toNat ≤ 32

theorem TreeDepth.pos_of_checked {depth : UInt8} (h : 0 < depth.toNat ∧ depth.toNat ≤ 32) :
    0 < depth.toNat := h.1

theorem TreeDepth.le_of_checked {depth : UInt8} (h : 0 < depth.toNat ∧ depth.toNat ≤ 32) :
    depth.toNat ≤ 32 := h.2

/-- The depth as a natural number. -/
def TreeDepth.levels (d : TreeDepth) : ℕ := d.depth.toNat

theorem TreeDepth.levels_pos (d : TreeDepth) : 0 < d.levels := d.pos

theorem TreeDepth.levels_le (d : TreeDepth) : d.levels ≤ 32 := d.le

/-- `uint64(1) << depth`. -/
def TreeDepth.capacity (d : TreeDepth) : UInt64 :=
  1 <<< d.depth.toUInt64

theorem TreeDepth.capacity_toNat (d : TreeDepth) : d.capacity.toNat = 2 ^ d.levels :=
  Words.uint64_one_shiftLeft (d.le.trans_lt (by decide))

/-- The custom errors, and the arithmetic panic of checked arithmetic. -/
inductive GatewayError
  | invalidCommitmentDepth
  | treeFull
  | invalidTreeDepth
  | emptyPath
  | pathLengthMismatch
  | invalidSiblingCount
  | leafIndexOutOfRange
  | finalRootMismatch
  | zeroDirectVerifier
  | directVerifierMustBeContract
  | unknownRequest
  | requestAlreadyResolved
  | sourceBlockHashMismatch
  | invalidSourceChainId
  | invalidSourceBlockHash
  | requestIdCollision
  | requestInProgress
  | arithmeticPanic
  deriving DecidableEq, Repr

/-- `PathProofVerifier.Witness`. -/
structure Witness where
  leafIndex : UInt32
  siblings : List Bytes32
  deriving DecidableEq, Repr

/-- `TrustMapGateway.VerificationRequest`. -/
structure VerificationRequest where
  requester : Address
  sourceChainId : Uint256
  sourceHeight : Uint256
  sourceBlockHash : Bytes32
  «exists» : Bool
  resolved : Bool
  processing : Bool
  deriving DecidableEq, Repr

/-- The value of an entry of the `requests` mapping that was never written. -/
def VerificationRequest.empty : VerificationRequest :=
  ⟨0, 0, 0, 0, false, false, false⟩

/-- The events of the Gateway. -/
inductive GatewayEvent
  | trustRootUpdated (requestId : Bytes32) (leafIndex : UInt32)
      (leaf oldTrustRoot newTrustRoot : Bytes32) (isAnchor : Bool)
  | verificationRequested (requestId : Bytes32) (requester : Address)
      (sourceChainId sourceHeight : Uint256) (sourceBlockHash : Bytes32)
      (requesterNonce : Uint256)
  | directVerificationSucceeded (requestId : Bytes32) (sourceChainId sourceHeight : Uint256)
      (sourceBlockHash sourceTrustRoot dependencyKey : Bytes32)
  | pathVerificationSucceeded (requestId : Bytes32) (sourceChainId sourceHeight : Uint256)
      (sourceBlockHash sourceTrustRoot : Bytes32) (hopCount : ℕ) (dependencyKey : Bytes32)
  | dependencyRecorded (dependencyKey requestId : Bytes32)
      (sourceChainId sourceHeight : Uint256) (sourceBlockHash sourceTrustRoot : Bytes32)
      (leafIndex : UInt32)
  | requestResolved (requestId : Bytes32) (requester : Address) (dependencyKey : Bytes32)
      (newDependency : Bool) (homeTrustRoot : Bytes32)
  deriving DecidableEq, Repr

end TrustMap.Contracts
