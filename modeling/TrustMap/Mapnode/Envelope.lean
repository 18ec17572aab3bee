import TrustMap.Mapnode.Evidence

/-!
The dependency evidence envelope of the Go package `p2p`: its canonical bytes, its message
identifier, the wire format and the check against the signed sender. SHA-256 and the test whether
bytes are a libp2p peer identifier are parameters.
-/

namespace TrustMap.Mapnode

open Checks

/-- The functions of libraries the Mapnode computes with. -/
structure Primitives where
  keccak : Keccak
  sha256 : Bytes → Bytes32
  validPeer : Bytes → Bool

/-- `peer.ID`, as its bytes. -/
abbrev PeerID := Bytes

/-- A time in nanoseconds since the Unix epoch. -/
abbrev UnixNano := Int64

/-- `p2p.DependencyEvidenceEnvelope`. -/
structure Envelope where
  protocolVersion : UInt16
  messageID : Bytes32
  originPeer : PeerID
  observedAt : UnixNano
  recordingChainID : Bytes32
  gateway : Address
  blockNumber : Bytes32
  blockHash : Bytes32
  txHash : Bytes32
  txIndex : UInt32
  logIndex : UInt32
  payloadDigest : Bytes32
  deriving DecidableEq

/-- Why an envelope or its bytes are refused. -/
inductive EnvelopeError
  | unsupportedVersion (version : UInt16)
  | originLength
  | invalidOrigin
  | observedAt
  | locator (cause : LocatorError)
  | messageIDMismatch
  | tooLarge
  | invalidSize
  | invalidMagic
  | originFraming
  | senderMismatch
  deriving DecidableEq, Repr

namespace Envelope

/-- `DependencyEvidenceProtocolVersion`. -/
def version : UInt16 := 1

/-- `MaxDependencyEvidenceEnvelopeSize`. -/
def maxSize : ℕ := 512

/-- `maxOriginPeerBytes`. -/
def maxOriginBytes : ℕ := 128

/-- `envelopeMagic`, the bytes of `TMDE`. -/
def magic : Bytes := [0x54, 0x4d, 0x44, 0x45]

/-- The domain separator of message identifiers. -/
def messageDomain : Bytes :=
  "TrustMap/DependencyEvidenceEnvelope/MessageID/v1".toList.map (fun c => UInt8.ofNat c.toNat) ++ [0]

/-- `Locator`. -/
def locator (envelope : Envelope) : Locator where
  chainID := envelope.recordingChainID
  contractAddress := envelope.gateway
  blockNumber := envelope.blockNumber
  blockHash := envelope.blockHash
  txHash := envelope.txHash
  txIndex := envelope.txIndex
  logIndex := envelope.logIndex
  payloadDigest := envelope.payloadDigest

/-- `validateContent`. -/
def validateContent (p : Primitives) (envelope : Envelope) : Except EnvelopeError Unit := do
  require (envelope.protocolVersion = version) (.unsupportedVersion envelope.protocolVersion)
  require (envelope.originPeer ≠ [] ∧ envelope.originPeer.length ≤ maxOriginBytes) .originLength
  require (p.validPeer envelope.originPeer) .invalidOrigin
  require (0 < envelope.observedAt) .observedAt
  match envelope.locator.validate with
  | .ok () => .ok ()
  | .error e => .error (.locator e)

/-- The bytes of `canonicalContent` once the content is valid. -/
def content (envelope : Envelope) : Bytes :=
  Words.bigEndian 2 envelope.protocolVersion.toNat ++
    Words.bigEndian 2 envelope.originPeer.length ++ envelope.originPeer ++
    Words.bigEndian 8 envelope.observedAt.toUInt64.toNat ++
    Words.bytes envelope.recordingChainID ++ Words.bigEndian 20 envelope.gateway.toNat ++
    Words.bytes envelope.blockNumber ++ Words.bytes envelope.blockHash ++
    Words.bytes envelope.txHash ++ Words.bigEndian 4 envelope.txIndex.toNat ++
    Words.bigEndian 4 envelope.logIndex.toNat ++ Words.bytes envelope.payloadDigest

/-- `ComputeMessageID`. -/
def computeMessageID (p : Primitives) (envelope : Envelope) : Except EnvelopeError Bytes32 := do
  envelope.validateContent p
  return p.sha256 (messageDomain ++ envelope.content)

/-- `MarshalBinary`. -/
def marshalBinary (p : Primitives) (envelope : Envelope) : Except EnvelopeError Bytes := do
  let want ← envelope.computeMessageID p
  require (envelope.messageID = want) .messageIDMismatch
  let encoded := magic ++ Words.bytes envelope.messageID ++ envelope.content
  require (encoded.length ≤ maxSize) .tooLarge
  return encoded

/-- `NewDependencyEvidenceEnvelope`. -/
def new (p : Primitives) (origin : PeerID) (observedAt : UnixNano) (locator : Locator) :
    Except EnvelopeError Envelope := do
  let envelope : Envelope := {
    protocolVersion := version
    messageID := 0
    originPeer := origin
    observedAt := observedAt
    recordingChainID := locator.chainID
    gateway := locator.contractAddress
    blockNumber := locator.blockNumber
    blockHash := locator.blockHash
    txHash := locator.txHash
    txIndex := locator.txIndex
    logIndex := locator.logIndex
    payloadDigest := locator.payloadDigest }
  let messageID ← envelope.computeMessageID p
  return { envelope with messageID := messageID }

/-- The number in a field of the wire format. -/
def field (encoded : Bytes) (offset length : ℕ) : ℕ :=
  Words.value ((encoded.drop offset).take length)

/-- The envelope in the fields of the wire format. The fields after the origin start at `rest`. -/
def decoded (encoded : Bytes) : Envelope :=
  let rest := 40 + field encoded 38 2
  { protocolVersion := UInt16.ofNat (field encoded 36 2)
    messageID := BitVec.ofNat 256 (field encoded 4 32)
    originPeer := (encoded.drop 40).take (field encoded 38 2)
    observedAt := (UInt64.ofNat (field encoded rest 8)).toInt64
    recordingChainID := BitVec.ofNat 256 (field encoded (rest + 8) 32)
    gateway := BitVec.ofNat 160 (field encoded (rest + 40) 20)
    blockNumber := BitVec.ofNat 256 (field encoded (rest + 60) 32)
    blockHash := BitVec.ofNat 256 (field encoded (rest + 92) 32)
    txHash := BitVec.ofNat 256 (field encoded (rest + 124) 32)
    txIndex := UInt32.ofNat (field encoded (rest + 156) 4)
    logIndex := UInt32.ofNat (field encoded (rest + 160) 4)
    payloadDigest := BitVec.ofNat 256 (field encoded (rest + 164) 32) }

/-- `ParseDependencyEvidenceEnvelope`. -/
def parse (p : Primitives) (encoded : Bytes) : Except EnvelopeError Envelope := do
  require (encoded.length ≤ maxSize ∧ 236 ≤ encoded.length) .invalidSize
  require (encoded.take 4 = magic) .invalidMagic
  let originLength := field encoded 38 2
  require (originLength ≠ 0 ∧ originLength ≤ maxOriginBytes ∧
    40 + originLength + 196 = encoded.length) .originFraming
  let envelope := decoded encoded
  require (p.validPeer envelope.originPeer) .invalidOrigin
  let want ← envelope.computeMessageID p
  require (want = envelope.messageID) .messageIDMismatch
  return envelope

/-- `ValidateFrom` a signed sender, with the bytes it computes. -/
def validateFrom (p : Primitives) (envelope : Envelope) (sender : PeerID) :
    Except EnvelopeError Bytes := do
  require (sender ≠ [] ∧ sender = envelope.originPeer) .senderMismatch
  envelope.marshalBinary p

end Envelope

end TrustMap.Mapnode
