import TrustMap.Contracts.Interface
import TrustMap.Library.Checks

/-!
The Go package `chainabi`, as far as the store and the two receipt verifiers read it: the layout of
Gateway logs and the parsers of the events. `abiLog` is the encoding the contract emits.
A word fits a smaller type exactly when its leading bytes are zero, so the byte loops of the source
are comparisons here.
-/

namespace TrustMap.Mapnode.ChainAbi

open Checks Contracts

/-- The topics and the data of a log. -/
structure Log where
  topics : List Bytes32
  data : Bytes
  deriving DecidableEq, Repr

def verificationRequestedTopic : Bytes32 :=
  0x6e4486cba7e09fd23bd6d6edc0fc893ff7f02d9266d863047e298f7b132ee71a

def trustRootUpdatedTopic : Bytes32 :=
  0xa2f90931b38050126801af291616bf523773603805893f350031b8b3cdf182a2

def dependencyRecordedTopic : Bytes32 :=
  0x26fe4056692e22cb6515b58329b35b50d71b7605c18b7bcaf3bacdf8297245f5

def requestResolvedTopic : Bytes32 :=
  0x9e14f05723283ecafaae8f806553da1d3df582379f2502195bc237b3902da290

def directVerificationSucceededTopic : Bytes32 :=
  0xf823b7a644bb08196389f4340810ad3d39e780aa8e99daf540a4622416ab28ba

def pathVerificationSucceededTopic : Bytes32 :=
  0x068d0b8a6ae7f5a6b9ec3c158eb348081e3e4ce74b6d9d5294584f3bf6ec103f

/-- Why a log is not the encoding of the expected event. -/
inductive AbiError
  | invalidLayout
  | uint32Overflows
  | boolNotCanonical
  | addressNotCanonical
  | zeroChainID
  | unsupportedEvent
  | zeroHopCount
  deriving DecidableEq, Repr

/-- `VerificationSucceeded`; only the event of a path has a hop count. -/
structure VerificationSucceeded where
  requestID : Bytes32
  sourceChainID : Bytes32
  sourceHeight : Bytes32
  sourceBlockHash : Bytes32
  sourceTrustRoot : Bytes32
  dependencyKey : Bytes32
  hopCount : Option Bytes32
  deriving DecidableEq, Repr

/-- `VerificationRequested`. -/
structure VerificationRequested where
  requestID : Bytes32
  requester : Address
  sourceChainID : Bytes32
  sourceHeight : Bytes32
  sourceBlockHash : Bytes32
  requesterNonce : Bytes32
  deriving DecidableEq, Repr

/-- `TrustRootUpdated`. -/
structure TrustRootUpdated where
  requestID : Bytes32
  leafIndex : UInt32
  leaf : Bytes32
  oldTrustRoot : Bytes32
  newTrustRoot : Bytes32
  isAnchor : Bool
  deriving DecidableEq, Repr

/-- `DependencyRecorded`. -/
structure DependencyRecorded where
  dependencyKey : Bytes32
  requestID : Bytes32
  sourceChainID : Bytes32
  sourceHeight : Bytes32
  sourceBlockHash : Bytes32
  sourceTrustRoot : Bytes32
  leafIndex : UInt32
  deriving DecidableEq, Repr

/-- `RequestResolved`. -/
structure RequestResolved where
  requestID : Bytes32
  requester : Address
  dependencyKey : Bytes32
  newDependency : Bool
  homeTrustRoot : Bytes32
  deriving DecidableEq, Repr

/-- `requireEvent`, with the topics it has checked. -/
def requireEvent (log : Log) (topic : Bytes32) (topics words : ℕ) : Except AbiError Unit :=
  require (log.topics.length = topics ∧ log.data.length = words * 32 ∧
    log.topics.head? = some topic) .invalidLayout

/-- `log.Topics[i]` after `requireEvent`. -/
def topicAt (log : Log) (i : ℕ) : Bytes32 :=
  log.topics.getD i 0

/-- `wordUint32`. -/
def wordUint32 (value : Bytes32) : Except AbiError UInt32 :=
  if value.toNat < 2 ^ 32 then .ok (UInt32.ofNat value.toNat) else .error .uint32Overflows

/-- `wordBool`. -/
def wordBool (value : Bytes32) : Except AbiError Bool :=
  match wordUint32 value with
  | .ok parsed => if parsed ≤ 1 then .ok (parsed == 1) else .error .boolNotCanonical
  | .error _ => .error .boolNotCanonical

/-- `topicAddress`. -/
def topicAddress (value : Bytes32) : Except AbiError Address :=
  if value.toNat < 2 ^ 160 then .ok (value.setWidth 160) else .error .addressNotCanonical

/-- `domain.NewChainIDFromBig` of a word. -/
def newChainID (value : Bytes32) : Except AbiError Bytes32 :=
  if value = 0 then .error .zeroChainID else .ok value

/-- `ParseVerificationRequested`. -/
def parseVerificationRequested (log : Log) : Except AbiError VerificationRequested := do
  requireEvent log verificationRequestedTopic 4 3
  let chainID ← newChainID (topicAt log 3)
  let requester ← topicAddress (topicAt log 2)
  return {
    requestID := topicAt log 1
    requester := requester
    sourceChainID := chainID
    sourceHeight := Words.wordAt log.data 0
    sourceBlockHash := Words.wordAt log.data 1
    requesterNonce := Words.wordAt log.data 2 }

/-- `ParseDependencyRecorded`. -/
def parseDependencyRecorded (log : Log) : Except AbiError DependencyRecorded := do
  requireEvent log dependencyRecordedTopic 4 4
  let chainID ← newChainID (topicAt log 3)
  let leafIndex ← wordUint32 (Words.wordAt log.data 3)
  return {
    dependencyKey := topicAt log 1
    requestID := topicAt log 2
    sourceChainID := chainID
    sourceHeight := Words.wordAt log.data 0
    sourceBlockHash := Words.wordAt log.data 1
    sourceTrustRoot := Words.wordAt log.data 2
    leafIndex := leafIndex }

/-- `ParseRequestResolved`. -/
def parseRequestResolved (log : Log) : Except AbiError RequestResolved := do
  requireEvent log requestResolvedTopic 4 2
  let requester ← topicAddress (topicAt log 2)
  let newDependency ← wordBool (Words.wordAt log.data 0)
  return {
    requestID := topicAt log 1
    requester := requester
    dependencyKey := topicAt log 3
    newDependency := newDependency
    homeTrustRoot := Words.wordAt log.data 1 }

/-- `ParseTrustRootUpdated`. -/
def parseTrustRootUpdated (log : Log) : Except AbiError TrustRootUpdated := do
  requireEvent log trustRootUpdatedTopic 3 4
  let leafIndex ← wordUint32 (topicAt log 2)
  let isAnchor ← wordBool (Words.wordAt log.data 3)
  return {
    requestID := topicAt log 1
    leafIndex := leafIndex
    leaf := Words.wordAt log.data 0
    oldTrustRoot := Words.wordAt log.data 1
    newTrustRoot := Words.wordAt log.data 2
    isAnchor := isAnchor }

/-- The part of `ParseVerificationSucceeded` after the topic is known: an event of a path has one
word more, its hop count, which is not zero. -/
def parseSucceeded (log : Log) (topic : Bytes32) (path : Bool) :
    Except AbiError VerificationSucceeded := do
  let words := if path then 5 else 4
  requireEvent log topic 3 words
  let chainID ← newChainID (topicAt log 2)
  let hopCount := if path then some (Words.wordAt log.data 3) else none
  require (hopCount ≠ some 0) .zeroHopCount
  return {
    requestID := topicAt log 1
    sourceChainID := chainID
    sourceHeight := Words.wordAt log.data 0
    sourceBlockHash := Words.wordAt log.data 1
    sourceTrustRoot := Words.wordAt log.data 2
    dependencyKey := Words.wordAt log.data (words - 1)
    hopCount := hopCount }

/-- `ParseVerificationSucceeded`. -/
def parseVerificationSucceeded (log : Log) : Except AbiError VerificationSucceeded :=
  if log.topics.head? = some directVerificationSucceededTopic then
    parseSucceeded log directVerificationSucceededTopic false
  else if log.topics.head? = some pathVerificationSucceededTopic then
    parseSucceeded log pathVerificationSucceededTopic true
  else .error .unsupportedEvent

/-- A `bool` as an ABI word. -/
def boolWord (value : Bool) : Bytes32 :=
  if value then 1 else 0

/-- The log of an emitted event: the signature topic, the indexed arguments, then the others. -/
def abiLog : GatewayEvent → Log
  | .trustRootUpdated requestId leafIndex leaf oldTrustRoot newTrustRoot isAnchor =>
      { topics := [trustRootUpdatedTopic, requestId, Words.ofUInt32 leafIndex]
        data := Words.encode [leaf, oldTrustRoot, newTrustRoot, boolWord isAnchor] }
  | .verificationRequested requestId requester sourceChainId sourceHeight sourceBlockHash nonce =>
      { topics := [verificationRequestedTopic, requestId, requester.setWidth 256, sourceChainId]
        data := Words.encode [sourceHeight, sourceBlockHash, nonce] }
  | .directVerificationSucceeded requestId sourceChainId sourceHeight sourceBlockHash
      sourceTrustRoot dependencyKey =>
      { topics := [directVerificationSucceededTopic, requestId, sourceChainId]
        data := Words.encode [sourceHeight, sourceBlockHash, sourceTrustRoot, dependencyKey] }
  | .pathVerificationSucceeded requestId sourceChainId sourceHeight sourceBlockHash
      sourceTrustRoot hopCount dependencyKey =>
      { topics := [pathVerificationSucceededTopic, requestId, sourceChainId]
        data := Words.encode [sourceHeight, sourceBlockHash, sourceTrustRoot,
          BitVec.ofNat 256 hopCount, dependencyKey] }
  | .dependencyRecorded dependencyKey requestId sourceChainId sourceHeight sourceBlockHash
      sourceTrustRoot leafIndex =>
      { topics := [dependencyRecordedTopic, dependencyKey, requestId, sourceChainId]
        data := Words.encode [sourceHeight, sourceBlockHash, sourceTrustRoot,
          Words.ofUInt32 leafIndex] }
  | .requestResolved requestId requester dependencyKey newDependency homeTrustRoot =>
      { topics := [requestResolvedTopic, requestId, requester.setWidth 256, dependencyKey]
        data := Words.encode [boolWord newDependency, homeTrustRoot] }

end TrustMap.Mapnode.ChainAbi
