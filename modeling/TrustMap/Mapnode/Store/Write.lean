import TrustMap.Contracts.Chain
import TrustMap.Mapnode.Store.ConfirmedBlock
import TrustMap.Mapnode.Store.Gossip
import TrustMap.Mapnode.Store.Observation
import TrustMap.Mapnode.Store.Snapshot

/-!
The writes of a running Mapnode in one type, so that a history of the database is a list of them.
Every write is one transaction: it commits or leaves the database as it was.
-/

namespace TrustMap.Mapnode.Store

open Transaction

/-- A write of the production code with its arguments. -/
inductive Write
  | sync (registry : Registry)
  | bindDeployment (chainID : Bytes32) (deployment : LiveDeployment)
  | configure (config : IndexerConfig)
  | initializeCursor (cursor : CanonicalCursor)
  | save (observation : TrustRootObservation)
  | applyConfirmedBlock (outbox : Option Outbox) (block : ConfirmedBlock)
  | createSnapshot (request : SnapshotRequest)
  | receive (now : UnixNano) (envelope : Envelope) (sender : PeerID)
  | markRetryable (messageID : Bytes32) (reason : String) (next : Option UnixNano)
  | markInvalid (messageID : Bytes32) (reason : String)
  | activate (messageID : Bytes32) (validation : RemoteValidation)

/-- The database after a write. -/
def Write.perform (p : Primitives) (write : Write) (db : DB) : DB :=
  match write with
  | .sync registry => commit (Store.sync registry) db
  | .bindDeployment chainID deployment => commit (Store.bindDeployment chainID deployment) db
  | .configure config => commit (Store.configure config) db
  | .initializeCursor cursor => commit (Store.initializeCursor cursor) db
  | .save observation => commit (Store.save p.keccak observation) db
  | .applyConfirmedBlock outbox block => commit (Store.applyConfirmedBlock p outbox block) db
  | .createSnapshot request => commit (createTrustViewSnapshot p.keccak request) db
  | .receive now envelope sender => commit (Store.receive p now envelope sender) db
  | .markRetryable messageID reason next => commit (Store.markRetryable messageID reason next) db
  | .markInvalid messageID reason => commit (Store.markInvalid messageID reason) db
  | .activate messageID validation => commit (Store.activate p.keccak messageID validation) db

/-- The database after a history of writes. -/
def run (p : Primitives) (writes : List Write) (db : DB) : DB :=
  writes.foldl (fun db write => write.perform p db) db

/-- What every write of a history keeps holds after the history. -/
theorem run_invariant {p : Primitives} {P : DB → Prop} {writes : List Write}
    (hStep : ∀ write ∈ writes, ∀ db, P db → P (write.perform p db)) {db : DB} (hStart : P db) :
    P (run p writes db) := by
  induction writes generalizing db with
  | nil => exact hStart
  | cons write writes ih =>
      apply ih
      · intro other hMem
        exact hStep other (List.mem_cons_of_mem write hMem)
      · exact hStep write List.mem_cons_self db hStart

/-! ## A small history

The home chain 1 records a dependency on block 3 of a source chain, which may be the home chain
itself. Used where the model is evaluated on concrete inputs. -/

namespace Toy

open ChainAbi Contracts

/-- The toy hash for both hash functions; every sender is a peer. -/
def primitives : Primitives where
  keccak := Chain.toyKeccak
  sha256 := Chain.toyKeccak
  validPeer _ := true

/-- A catalog with the home chain 1 and the chain 2. -/
def registry : Registry where
  chains := [⟨"home", 1, "", 2, "", true⟩, ⟨"remote", 2, "", 2, "", false⟩]
  valid := by decide
  unique := by decide
  homeEntry := ⟨"home", 1, "", 2, "", true⟩
  home_mem := by decide
  home_only := by decide

/-- The home Gateway, deployed in block 1 with root 44. In block 5 a request for block 3 of the
source chain is made and verified directly. -/
def gateway (source : Bytes32) : TrustMapGateway.Gateway :=
  (Chain.run Chain.toyDeployment (Chain.deploy Chain.toyDeployment 44 1)
    [.nextBlock, .nextBlock, .nextBlock, .nextBlock, .requestVerification 7 source 3 1003,
      .verifyDirectAndRecord
        (TrustMapGateway.computeRequestId Chain.toyDeployment 7 0 source 3 1003) [],
      .verifierReturns 44]).gateway

/-- The root after the request is resolved. -/
def homeRoot (source : Bytes32) : Bytes32 :=
  (gateway source).currentTrustRoot

/-- The request for block 3 of the source chain. -/
def requestID (source : Bytes32) : Bytes32 :=
  TrustMapGateway.computeRequestId Chain.toyDeployment 7 0 source 3 1003

/-- An observation of a root two blocks deep. -/
def observation (chainID height blockHash root : Bytes32) : TrustRootObservation :=
  let content : ObservationContent := {
    chainID := chainID
    height := height
    blockHash := blockHash
    gateway := 10
    trustRoot := root
    gatewayCodeHash := 77
    requiredConfirmations := 2
    confirmedHeadHeight := height + 2
    confirmedHeadHash := blockHash + 2 }
  { content with id := content.computeID Chain.toyKeccak }

/-- The node of home block 5. -/
def fromNode (source : Bytes32) : TrustNode :=
  (observation 1 5 1005 (homeRoot source)).trustNode Chain.toyKeccak

/-- The node of the source block. -/
def toNode (source : Bytes32) : TrustNode :=
  (observation source 3 1003 44).trustNode Chain.toyKeccak

/-- The dependency as the indexer reads it from the log, before it knows its evidence. -/
def dependency (source evidenceID : Bytes32) : VerifiedDependency :=
  newVerifiedDependency Chain.toyKeccak (requestID source) source 3 1003 44 1 evidenceID

/-- The coordinates of the `DependencyRecorded` log: the fifth log of the block. -/
def locator (source : Bytes32) : Locator where
  chainID := 1
  contractAddress := 10
  blockNumber := 5
  blockHash := 1005
  txHash := 501
  txIndex := 1
  logIndex := 4
  payloadDigest := (dependency source 0).payloadDigest Chain.toyKeccak

/-- The evidence of the dependency. -/
def evidenceID (source : Bytes32) : EvidenceID :=
  Chain.toyKeccak (locator source).encoded

/-- The witness of the dependency leaf, next to the leaf of the parent block. -/
def witness (source : Bytes32) : GraphWitness :=
  newGraphWitness Chain.toyKeccak (evidenceID source) 1
    [leafHash Chain.toyKeccak 44 1004, hashPair Chain.toyKeccak 0 0]

/-- What the indexer makes of the dependency. -/
def material (source : Bytes32) : DependencyMaterialization where
  dependency := dependency source (evidenceID source)
  evidence := ⟨evidenceID source, locator source, .candidate, ""⟩
  witness := witness source
  fromNode := fromNode source
  toNode := toNode source
  edge := {
    id := Chain.toyKeccak
      (edgeEncoded (fromNode source).id (toNode source).id (evidenceID source) 1)
    fromID := (fromNode source).id
    toID := (toNode source).id
    evidenceID := evidenceID source
    leafIndex := 1
    witnessID := some (witness source).id
    pathStepCost := 5 }

/-- The logs of block 5: the first is the request, the others are of the verification. -/
def indexedLog (index : ℕ) (event : GatewayEvent) : IndexedGatewayLog where
  address := 10
  blockNumber := 5
  blockHash := 1005
  txHash := if index = 0 then 500 else 501
  txIndex := if index = 0 then 0 else 1
  logIndex := UInt32.ofNat index
  eventTopic := (abiLog event).topics.headD 0
  contentDigest := 1
  log := abiLog event

/-- The cursor at block 4. -/
def cursor : CanonicalCursor := ⟨1, 4, 1004, .healthy, ""⟩

/-- Block 5 as the indexer hands it to the store. -/
def block (source : Bytes32) : ConfirmedBlock where
  chainID := 1
  gateway := 10
  number := 5
  hash := 1005
  parentHash := 1004
  expectedCursor := cursor
  logs := (gateway source).logs.mapIdx fun index entry => indexedLog index entry.event
  requests := [⟨⟨requestID source, 1, 10, 7, 0, source, 3, 1003⟩, .observed, "", 1⟩]
  receipts := [⟨501, 5, 1005, 1, requestID source⟩]
  resolutions := [⟨requestID source, 501, (dependency source 0).dependencyKey, true,
    homeRoot source, 5⟩]
  dependencies := [material source]
  merkleDepth := 2
  pathStepCostGas := 5

/-- The writes before block 5 is applied. -/
def setup (source : Bytes32) : List Write :=
  [.sync registry, .bindDeployment 1 ⟨10, 77, 1⟩, .bindDeployment 2 ⟨10, 77, 1⟩,
    .configure ⟨1, 10, 77, 1, 2, 5⟩, .initializeCursor cursor, .save (observation source 3 1003 44),
    .save (observation 1 5 1005 (homeRoot source))]

/-- A snapshot for the request of the block. -/
def snapshotRequest (source : Bytes32) : SnapshotRequest where
  requestID := requestID source
  attempt := 0
  homeChainID := 1
  expectedHomeTrustRoot := homeRoot source
  startNodeID := (fromNode source).id
  targetNodeID := (toNode source).id

/-- The whole history: block 5 is applied and a snapshot is taken for its request. -/
def history (source : Bytes32) : List Write :=
  setup source ++ [.applyConfirmedBlock none (block source), .createSnapshot (snapshotRequest source)]

end Toy

end TrustMap.Mapnode.Store
