import TrustMap.Contracts.PathProofVerifier
import TrustMap.Contracts.TrustRootCommitment

/-!
`TrustMapGateway`: requests, dependency recording and resolution. Every function returns
either an error, and then the caller keeps the old storage, or the new storage. Emitted
events are kept with the storage, in emission order and with the block they belong to, since a
revert discards both. `verifyDirectAndRecord` is cut at its external call: `beginRequest` runs
before it and `directVerified` after it.
-/

namespace TrustMap.Contracts.TrustMapGateway

open PathProofVerifier TrustRootCommitment

/-- An emitted event and the block of its transaction. -/
structure LogEntry where
  blockNumber : ℕ
  event : GatewayEvent
  deriving DecidableEq, Repr

/-- The storage of the Gateway and the logs of its transactions. -/
structure Gateway extends Commitment where
  requests : Bytes32 → VerificationRequest
  requestNonce : Address → Uint256
  dependencyRecorded : Bytes32 → Bool
  logs : List LogEntry

/-- What the code of one deployed Gateway reads besides its storage: the hash function, the
immutable depth, `block.chainid`, `address(this)` and `blockhash`. -/
structure Deployment where
  keccak : Keccak
  depth : TreeDepth
  chainid : Uint256
  self : Address
  blockhash : ℕ → Bytes32

/-- The storage after the constructor, for a depth that passed its check. -/
def initial (keccak : Keccak) (depth : TreeDepth) (initialTrustRoot : Bytes32) : Gateway where
  toCommitment := TrustRootCommitment.initial keccak depth initialTrustRoot
  requests _ := .empty
  requestNonce _ := 0
  dependencyRecorded _ := false
  logs := []

/-- The constructor. The base constructors run first; `verifierCodeLength` is
`address(verifier).code.length`. -/
def constructor (keccak : Keccak) (depth : UInt8) (verifier : Address) (verifierCodeLength : ℕ)
    (initialTrustRoot : Bytes32) : Except GatewayError (TreeDepth × Gateway) :=
  match TrustRootCommitment.constructor keccak depth initialTrustRoot with
  | .error e => .error e
  | .ok _ =>
      match PathProofVerifier.constructor depth with
      | .error e => .error e
      | .ok depth =>
          if verifier = 0 then .error .zeroDirectVerifier
          else if verifierCodeLength = 0 then .error .directVerifierMustBeContract
          else .ok (depth, initial keccak depth initialTrustRoot)

/-- `emit` in the block `blockNumber`. -/
def Gateway.emit (g : Gateway) (blockNumber : ℕ) (event : GatewayEvent) : Gateway :=
  { g with logs := g.logs ++ [⟨blockNumber, event⟩] }

/-- `computeRequestId`; an address is encoded as a word. -/
def computeRequestId (env : Deployment) (requester : Address)
    (nonce sourceChainId sourceHeight : Uint256) (sourceBlockHash : Bytes32) : Bytes32 :=
  env.keccak (Words.encode [env.chainid, env.self.setWidth 256, requester.setWidth 256, nonce,
    sourceChainId, sourceHeight, sourceBlockHash])

/-- `computeDependencyKey`. -/
def computeDependencyKey (keccak : Keccak) (sourceChainId sourceHeight : Uint256)
    (sourceBlockHash sourceTrustRoot : Bytes32) : Bytes32 :=
  keccak (Words.encode [sourceChainId, sourceHeight, sourceBlockHash, sourceTrustRoot])

/-- `requestVerification`. The nonce increment is checked arithmetic. -/
def requestVerification (env : Deployment) (blockNumber : ℕ) (sender : Address)
    (sourceChainId sourceHeight : Uint256) (sourceBlockHash : Bytes32) (g : Gateway) :
    Except GatewayError (Bytes32 × Gateway) :=
  if sourceChainId = 0 then .error .invalidSourceChainId
  else if sourceBlockHash = 0 then .error .invalidSourceBlockHash
  else
    let nonce := g.requestNonce sender
    if nonce = BitVec.allOnes 256 then .error .arithmeticPanic
    else
      let requestId :=
        computeRequestId env sender nonce sourceChainId sourceHeight sourceBlockHash
      if (g.requests requestId).exists then .error .requestIdCollision
      else
        let g' : Gateway :=
          { g with
            requestNonce := Function.update g.requestNonce sender (nonce + 1)
            requests := Function.update g.requests requestId
              ⟨sender, sourceChainId, sourceHeight, sourceBlockHash, true, false, false⟩ }
        .ok (requestId, g'.emit blockNumber
          (.verificationRequested requestId sender sourceChainId sourceHeight sourceBlockHash
            nonce))

/-- `_beginRequest`. -/
def beginRequest (requestId : Bytes32) (g : Gateway) : Except GatewayError Gateway :=
  let request := g.requests requestId
  if request.exists = false then .error .unknownRequest
  else if request.resolved then .error .requestAlreadyResolved
  else if request.processing then .error .requestInProgress
  else
    .ok { g with
      requests := Function.update g.requests requestId { request with processing := true } }

/-- The part of `_recordDependency` that opens the tree of a new block. -/
def openBlockTree (env : Deployment) (blockNumber : ℕ) (requestId : Bytes32) (g : Gateway) :
    Except GatewayError Gateway :=
  if g.activeTreeBlock ≠ blockNumber then
    if blockNumber = 0 then .error .arithmeticPanic
    else
      let anchorLeaf :=
        paperLeaf env.keccak g.currentTrustRoot (env.blockhash (blockNumber - 1))
      match beginBlockTree env.keccak env.depth blockNumber requestId anchorLeaf
          g.toCommitment with
      | .error e => .error e
      | .ok (commitment, event) =>
          .ok (Gateway.emit { g with toCommitment := commitment } blockNumber event)
  else .ok g

/-- The part of `_recordDependency` that appends the dependency leaf to the active tree. -/
def appendDependency (env : Deployment) (blockNumber : ℕ)
    (requestId sourceTrustRoot dependencyKey : Bytes32) (g : Gateway) :
    Except GatewayError Gateway :=
  let request := g.requests requestId
  let dependencyLeaf := paperLeaf env.keccak sourceTrustRoot request.sourceBlockHash
  match appendLeaf env.keccak env.depth blockNumber requestId dependencyLeaf false
      g.toCommitment with
  | .error e => .error e
  | .ok (leafIndex, commitment, event) =>
      let appended := Gateway.emit { g with toCommitment := commitment } blockNumber event
      let recorded : Gateway :=
        { appended with
          dependencyRecorded := Function.update appended.dependencyRecorded dependencyKey true }
      .ok (recorded.emit blockNumber
        (.dependencyRecorded dependencyKey requestId request.sourceChainId
          request.sourceHeight request.sourceBlockHash sourceTrustRoot leafIndex))

/-- `_recordDependency`. -/
def recordDependency (env : Deployment) (blockNumber : ℕ)
    (requestId sourceTrustRoot dependencyKey : Bytes32) (g : Gateway) :
    Except GatewayError (Bool × Gateway) :=
  if g.dependencyRecorded dependencyKey then .ok (false, g)
  else
    match openBlockTree env blockNumber requestId g with
    | .error e => .error e
    | .ok opened =>
        match appendDependency env blockNumber requestId sourceTrustRoot dependencyKey opened with
        | .error e => .error e
        | .ok recorded => .ok (true, recorded)

/-- `_resolve`. -/
def resolve (blockNumber : ℕ) (requestId dependencyKey : Bytes32) (newDependency : Bool)
    (g : Gateway) : Gateway :=
  let request := g.requests requestId
  let resolved : Gateway :=
    { g with
      requests := Function.update g.requests requestId
        { request with processing := false, resolved := true } }
  resolved.emit blockNumber
    (.requestResolved requestId request.requester dependencyKey newDependency
      g.currentTrustRoot)

/-- The common end of both verification functions: record the dependency, then resolve. -/
def recordAndResolve (env : Deployment) (blockNumber : ℕ)
    (requestId sourceTrustRoot dependencyKey : Bytes32) (g : Gateway) :
    Except GatewayError (Bytes32 × Bool × Gateway) :=
  match recordDependency env blockNumber requestId sourceTrustRoot dependencyKey g with
  | .error e => .error e
  | .ok (newDependency, recorded) =>
      .ok (dependencyKey, newDependency,
        resolve blockNumber requestId dependencyKey newDependency recorded)

/-- `verifyDirectAndRecord` from the return of `directVerifier.verify` on. -/
def directVerified (env : Deployment) (blockNumber : ℕ) (requestId sourceTrustRoot : Bytes32)
    (g : Gateway) : Except GatewayError (Bytes32 × Bool × Gateway) :=
  let request := g.requests requestId
  let dependencyKey := computeDependencyKey env.keccak request.sourceChainId
    request.sourceHeight request.sourceBlockHash sourceTrustRoot
  recordAndResolve env blockNumber requestId sourceTrustRoot dependencyKey
    (g.emit blockNumber
      (.directVerificationSucceeded requestId request.sourceChainId request.sourceHeight
        request.sourceBlockHash sourceTrustRoot dependencyKey))

/-- `verifyPathAndRecord`. -/
def verifyPathAndRecord (env : Deployment) (blockNumber : ℕ) (requestId baseTrustRoot : Bytes32)
    (blockHashes : List Bytes32) (witnesses : List Witness) (g : Gateway) :
    Except GatewayError (Bytes32 × Bool × Gateway) :=
  match beginRequest requestId g with
  | .error e => .error e
  | .ok begun =>
      let request := begun.requests requestId
      match blockHashes with
      | [] => .error .emptyPath
      | first :: _ =>
          if first ≠ request.sourceBlockHash then .error .sourceBlockHashMismatch
          else
            match verifyPath env.keccak env.depth begun.currentTrustRoot baseTrustRoot
                blockHashes witnesses with
            | .error e => .error e
            | .ok _ =>
                let dependencyKey := computeDependencyKey env.keccak request.sourceChainId
                  request.sourceHeight request.sourceBlockHash baseTrustRoot
                recordAndResolve env blockNumber requestId baseTrustRoot dependencyKey
                  (begun.emit blockNumber
                    (.pathVerificationSucceeded requestId request.sourceChainId
                      request.sourceHeight request.sourceBlockHash baseTrustRoot
                      blockHashes.length dependencyKey))

end TrustMap.Contracts.TrustMapGateway
