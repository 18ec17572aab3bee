import TrustMap.Mapnode.Store.Database

/-!
The writes that come before any confirmed block: the catalog of live chains and its deployments,
the configuration and the first cursor of the indexer, and `TrustRootObservationRepository.Save`,
which brings the nodes of the graph.
-/

namespace TrustMap.Mapnode.Store

open Transaction

/-! ## Opening the store -/

/-- `INSERT INTO live_chains … ON CONFLICT(chain_id) DO NOTHING`; the name is unique. -/
def insertLiveChain (entry : Chain) : DBTx Unit := fun db =>
  match db.liveChains.insert? ⟨entry, none⟩ with
  | some liveChains =>
      if ∃ row ∈ db.liveChains.rows, row.chain.name = entry.name then .error .constraint
      else .ok ((), { db with liveChains := liveChains })
  | none => .ok ((), db)

/-- One turn of the loop of `LiveChainRepository.Sync`. -/
def syncChain (entry : Chain) : DBTx Bool := do
  require (entry.confirmations.toNat ≤ maxInt64)
    (.invalidInput "live chain confirmations exceed SQLite INTEGER range")
  insertLiveChain entry
  let row ← gets (·.liveChains.find? entry.chainID)
  let persisted ← expect row .recordNotFound
  require (persisted.chain = entry) .recordConflict
  return true

/-- `LiveChainRepository.Sync`. -/
def sync (registry : Registry) : DBTx Unit := do
  let _ ← anyChanged syncChain registry.chains
  let rows ← gets (·.liveChains.rows)
  require (rows.length = registry.chains.length ∧ rows.countP (·.chain.home) = 1) .recordConflict

/-- `LiveChainRepository.BindDeployment`. -/
def bindDeployment (chainID : Bytes32) (deployment : LiveDeployment) : DBTx Unit := do
  require (deployment.gateway ≠ 0 ∧ deployment.gatewayCodeHash ≠ 0)
    (.invalidInput "validated Gateway deployment is incomplete")
  let row ← gets (·.liveChains.find? chainID)
  let persisted ← expect row .recordNotFound
  match persisted.deployment with
  | none =>
      modify fun db => { db with
        liveChains := db.liveChains.modify chainID
          (fun row => { row with deployment := some deployment }) fun _ => rfl }
  | some bound => require (bound = deployment) .recordConflict

/-- `IndexerRepository.Configure`. -/
def configure (config : IndexerConfig) : DBTx Unit := do
  require (config.chainID ≠ 0 ∧ config.gateway ≠ 0 ∧ config.gatewayCodeHash ≠ 0 ∧
    config.merkleDepth ≠ 0 ∧ config.merkleDepth ≤ 32 ∧ config.pathStepCostGas ≠ 0 ∧
    config.pathStepCostGas.toNat ≤ maxInt64) (.invalidInput "invalid trusted indexer configuration")
  let row ← gets (·.liveChains.find? config.chainID)
  let live ← expect (row.bind (·.deployment)) .noRows
  require (live = ⟨config.gateway, config.gatewayCodeHash, config.deploymentBlock⟩) .recordConflict
  match ← gets (·.configs.find? config.chainID) with
  | some persisted => require (persisted = config) .recordConflict
  | none => modify fun db => { db with configs := db.configs.insertIgnore config }

/-- `CanonicalCursorRepository.Initialize`; the chain has to be in the catalog. -/
def initializeCursor (cursor : CanonicalCursor) : DBTx Unit := do
  require (cursor.state = .healthy ∧ cursor.hash ≠ 0 ∧ cursor.degradedReason = "")
    (.invalidInput "initial canonical cursor must be healthy")
  match ← gets (·.cursors.find? cursor.chainID) with
  | some persisted => require (persisted = cursor) .recordConflict
  | none =>
      let row ← gets (·.liveChains.find? cursor.chainID)
      let _ ← expect row .constraint
      modify fun db => { db with cursors := db.cursors.insertIgnore cursor }

/-! ## Observations -/

/-- `scanTrustRootObservation` of a row, if there is one. -/
def scanObservation (keccak : Keccak) (row : Option ObservationRow) :
    DBTx (Option TrustRootObservation) :=
  match row with
  | none => pure none
  | some row => do
      require (row.observation.id = row.observation.computeID keccak ∧
        row.evidenceID = (row.observation.syntheticEvidence keccak).id) .recordConflict
      return some row.observation

/-- `sameObservationTarget`. -/
def sameObservationTarget (left right : ObservationContent) : Prop :=
  left.chainID = right.chainID ∧ left.height = right.height ∧ left.blockHash = right.blockHash ∧
    left.gateway = right.gateway ∧ left.trustRoot = right.trustRoot ∧
    left.gatewayCodeHash = right.gatewayCodeHash ∧
    left.requiredConfirmations = right.requiredConfirmations

instance (left right : ObservationContent) : Decidable (sameObservationTarget left right) :=
  inferInstanceAs (Decidable (_ ∧ _))

/-- The unique columns of `trust_root_observations`. -/
def ObservationRow.tuple (row : ObservationRow) : Bytes32 × Bytes32 × Bytes32 × Address :=
  (row.observation.chainID, row.observation.height, row.observation.blockHash,
    row.observation.gateway)

/-- `INSERT INTO trust_root_observations`; the evidence has to be active and synthetic for the
observed block. -/
def insertObservation (row : ObservationRow) : DBTx Unit := fun db =>
  if (∃ other ∈ db.observations.rows,
        other.evidenceID = row.evidenceID ∨ other.tuple = row.tuple) ∨
      ¬ ∃ evidence ∈ db.evidence.rows, evidence.id = row.evidenceID ∧ evidence.state = .active ∧
        evidence.locator.chainID = row.observation.chainID ∧
        evidence.locator.contractAddress = row.observation.gateway ∧
        evidence.locator.blockNumber = row.observation.height ∧
        evidence.locator.blockHash = row.observation.blockHash ∧ evidence.locator.txHash = 0 ∧
        evidence.locator.txIndex = 0 ∧ evidence.locator.logIndex = 0 then .error .constraint
  else
    match db.observations.insert? row with
    | some observations => .ok ((), { db with observations := observations })
    | none => .error .constraint

/-- The part of `Save` for an observation that is not stored yet. -/
def saveNew (keccak : Keccak) (observation : TrustRootObservation) :
    DBTx (TrustRootObservation × TrustNode × Bool) := do
  let row ← gets (·.liveChains.find? observation.chainID)
  let live ← expect row .recordNotFound
  let deployment ← expect live.deployment .recordConflict
  require (deployment.gateway = observation.gateway ∧
    deployment.gatewayCodeHash = observation.gatewayCodeHash ∧
    live.chain.confirmations = observation.requiredConfirmations) .recordConflict
  let record := observation.syntheticEvidence keccak
  insertEvidence record
  activateEvidence false record.id "TrustRootObservation RPC validation"
  insertObservation ⟨observation, record.id⟩
  let node := observation.trustNode keccak
  let _ ← mergeTrustNode node
  bumpGraphRevision
  return (observation, node, true)

/-- `TrustRootObservationRepository.Save`. -/
def save (keccak : Keccak) (observation : TrustRootObservation) :
    DBTx (TrustRootObservation × TrustNode × Bool) := do
  check observation.validate .trustView
  require (observation.id = observation.computeID keccak) .recordConflict
  require (observation.requiredConfirmations.toNat ≤ maxInt64)
    (.invalidInput "observation confirmations exceed SQLite INTEGER range")
  let row ← gets (·.observations.find? observation.id)
  match ← scanObservation keccak row with
  | some persisted =>
      require (persisted = observation) .recordConflict
      return (persisted, persisted.trustNode keccak, false)
  | none =>
      let row ← gets fun db =>
        db.observations.rows.find? fun row => row.tuple = ObservationRow.tuple ⟨observation, 0⟩
      match ← scanObservation keccak row with
      | some persisted =>
          require (sameObservationTarget persisted.toObservationContent
            observation.toObservationContent) .recordConflict
          return (persisted, persisted.trustNode keccak, false)
      | none => saveNew keccak observation

end TrustMap.Mapnode.Store
