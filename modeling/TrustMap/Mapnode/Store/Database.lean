import TrustMap.Library.Table
import TrustMap.Library.Transaction
import TrustMap.Mapnode.Chain
import TrustMap.Mapnode.Envelope
import TrustMap.Mapnode.Indexer

/-!
The SQLite database of the Mapnode and its statements. A table is keyed by its primary key; the
other constraints of the schema (unique columns, foreign keys, checks and triggers) are part of the
statement that can violate them, which then fails with `constraint`. Times that only record when a
row was written are left out.
-/

namespace TrustMap.Mapnode.Store

open Transaction ChainAbi

/-- The errors of the store; `constraint` is a statement that the database refuses and `noRows` a
query without the expected row. -/
inductive StoreError
  | recordNotFound
  | recordConflict
  | concurrentUpdate
  | inactiveEvidence
  | graphConflict
  | evidenceBinding
  | constraint
  | noRows
  | revisionExhausted
  | invalidInput (reason : String)
  | trustView (cause : TrustViewError)
  | cursor (cause : CursorError)
  | locator (cause : LocatorError)
  | envelope (cause : EnvelopeError)
  | transition (cause : TransitionError)
  deriving DecidableEq, Repr

/-- A row of `evidence_transitions`. -/
structure EvidenceTransition where
  evidenceID : EvidenceID
  fromState : EvidenceState
  toState : EvidenceState
  reason : String
  deriving DecidableEq

/-- A row of `trust_edges`; the witness is in a table of its own. -/
structure EdgeRow where
  id : EdgeID
  fromID : NodeID
  toID : NodeID
  evidenceID : EvidenceID
  active : Bool
  leafIndex : UInt32
  pathStepCost : UInt64
  deriving DecidableEq

/-- A row of `trust_root_observations`. -/
structure ObservationRow where
  observation : TrustRootObservation
  evidenceID : EvidenceID
  deriving DecidableEq

/-- The deployment columns of `live_chains`, set once a chain is validated. -/
structure LiveDeployment where
  gateway : Address
  gatewayCodeHash : Bytes32
  deploymentBlock : Bytes32
  deriving DecidableEq

/-- A row of `live_chains`. -/
structure LiveChainRow where
  chain : Chain
  deployment : Option LiveDeployment
  deriving DecidableEq

/-- A row of `live_indexer_configs`. -/
structure IndexerConfig where
  chainID : Bytes32
  gateway : Address
  gatewayCodeHash : Bytes32
  deploymentBlock : Bytes32
  merkleDepth : UInt8
  pathStepCostGas : UInt64
  deriving DecidableEq

/-- The primary key of `indexed_gateway_logs`. -/
structure LogKey where
  chainID : Bytes32
  blockHash : Bytes32
  txHash : Bytes32
  txIndex : UInt32
  logIndex : UInt32
  deriving DecidableEq

/-- A row of `indexed_gateway_logs`. -/
structure LogRow where
  key : LogKey
  gateway : Address
  blockNumber : Bytes32
  eventTopic : Bytes32
  contentDigest : Bytes32
  log : ChainAbi.Log
  deriving DecidableEq

/-- A row of `verification_receipts`; the status is always one. -/
structure ReceiptRow where
  chainID : Bytes32
  txHash : Bytes32
  blockNumber : Bytes32
  blockHash : Bytes32
  txIndex : UInt32
  requestID : Bytes32
  deriving DecidableEq

/-- A row of `request_resolutions`. -/
structure ResolutionRow where
  requestID : Bytes32
  chainID : Bytes32
  txHash : Bytes32
  dependencyKey : Bytes32
  newDependency : Bool
  homeTrustRoot : Bytes32
  logIndex : UInt32
  deriving DecidableEq

/-- `store.InboxState`. -/
inductive InboxState
  | pending
  | retryable
  | validated
  | invalid
  deriving DecidableEq, Repr

/-- A row of `evidence_inbox`. -/
structure InboxRow where
  messageID : Bytes32
  evidenceID : EvidenceID
  originPeer : PeerID
  envelope : Bytes
  state : InboxState
  invalidReason : String
  attempts : ℕ
  nextAttemptAt : UnixNano
  receivedAt : UnixNano
  deriving DecidableEq

/-- A row of `evidence_outbox` when it is written; publishing is not part of the model. -/
structure OutboxRow where
  messageID : Bytes32
  evidenceID : EvidenceID
  originPeer : PeerID
  envelope : Bytes
  deriving DecidableEq

/-- The tables the modelled operations read and write. A snapshot holds its nodes and edges. -/
structure DB where
  evidence : Table EvidenceRecord.id
  transitions : Table fun row : EvidenceTransition => (row.evidenceID, row.fromState, row.toState)
  requests : Table fun row : Request => row.id
  revision : ℕ
  nodes : Table TrustNode.id
  edges : Table EdgeRow.id
  witnesses : Table GraphWitness.id
  observations : Table fun row : ObservationRow => row.observation.id
  liveChains : Table fun row : LiveChainRow => row.chain.chainID
  cursors : Table CanonicalCursor.chainID
  configs : Table IndexerConfig.chainID
  logs : Table LogRow.key
  receipts : Table fun row : ReceiptRow => (row.chainID, row.txHash)
  resolutions : Table ResolutionRow.requestID
  inbox : Table InboxRow.messageID
  outbox : Table OutboxRow.messageID
  snapshots : Table TrustViewSnapshot.id

/-- The database after the migrations. -/
def DB.empty : DB where
  evidence := .empty
  transitions := .empty
  requests := .empty
  revision := 0
  nodes := .empty
  edges := .empty
  witnesses := .empty
  observations := .empty
  liveChains := .empty
  cursors := .empty
  configs := .empty
  logs := .empty
  receipts := .empty
  resolutions := .empty
  inbox := .empty
  outbox := .empty
  snapshots := .empty

/-- A transaction on the database. -/
abbrev DBTx (α : Type) := Tx DB StoreError α

/-- `math.MaxInt64`. -/
def maxInt64 : ℕ := 9223372036854775807

/-! ## Evidence -/

/-- Whether the evidence exists in state `active`. -/
def DB.evidenceActive (db : DB) (id : EvidenceID) : Bool :=
  db.evidence.rows.any fun row => row.id = id ∧ row.state = .active

/-- `INSERT INTO evidence`; the locator is unique. -/
def insertEvidence (row : EvidenceRecord) : DBTx Unit := fun db =>
  if ∃ other ∈ db.evidence.rows, other.locator = row.locator then .error .constraint
  else
    match db.evidence.insert? row with
    | some evidence => .ok ((), { db with evidence := evidence })
    | none => .error .constraint

/-- `INSERT INTO evidence … ON CONFLICT(id) DO NOTHING`: whether a row was inserted. -/
def insertEvidenceIfAbsent (row : EvidenceRecord) : DBTx Bool := do
  match ← gets (·.evidence.find? row.id) with
  | some _ => return false
  | none =>
      insertEvidence row
      return true

/-- The columns an update of `evidence` sets. -/
def EvidenceRecord.move (row : EvidenceRecord) (toState : EvidenceState) (reason : Option String) :
    EvidenceRecord :=
  { row with state := toState, invalidReason := reason.getD row.invalidReason }

theorem EvidenceRecord.move_id (toState : EvidenceState) (reason : Option String)
    (row : EvidenceRecord) : (EvidenceRecord.move row toState reason).id = row.id := rfl

/-- `UPDATE evidence SET state=? … WHERE id=? AND state=?`, with a new `invalid_reason` if one is
given: whether a row was updated. The evidence of an observation is immutable. -/
def updateEvidenceState (id : EvidenceID) (fromState toState : EvidenceState)
    (reason : Option String) : DBTx Bool := fun db =>
  if db.evidence.rows.any fun row => row.id = id ∧ row.state = fromState then
    if ∃ row ∈ db.observations.rows, row.evidenceID = id then .error .constraint
    else .ok (true, { db with
      evidence := db.evidence.modify id (fun row => EvidenceRecord.move row toState reason)
        (EvidenceRecord.move_id toState reason) })
  else .ok (false, db)

/-- `INSERT INTO evidence_transitions`. -/
def insertTransition (row : EvidenceTransition) : DBTx Unit := fun db =>
  match db.transitions.insert? row with
  | some transitions => .ok ((), { db with transitions := transitions })
  | none => .error .constraint

/-- One turn of the loops that take evidence from `candidate` to `active`. The loop of
`TrustRootObservationRepository.Save` does not look at the number of updated rows. -/
def advanceEvidence (counted : Bool) (id : EvidenceID) (reason : String)
    (fromState toState : EvidenceState) : DBTx Unit := do
  let changed ← updateEvidenceState id fromState toState none
  require (counted → changed) .concurrentUpdate
  insertTransition ⟨id, fromState, toState, reason⟩

/-- The loop over the states `verified`, `confirmed` and `active`. -/
def activateEvidence (counted : Bool) (id : EvidenceID) (reason : String) : DBTx Unit := do
  advanceEvidence counted id reason .candidate .verified
  advanceEvidence counted id reason .verified .confirmed
  advanceEvidence counted id reason .confirmed .active

/-- `loadActiveEvidence`. -/
def loadActiveEvidence (id : EvidenceID) : DBTx EvidenceRecord := do
  let row ← gets (·.evidence.find? id)
  let record ← expect row .inactiveEvidence
  require (record.state = .active) .inactiveEvidence
  return record

/-! ## The graph -/

/-- The nodes whose evidence is active. -/
def DB.activeNodes (db : DB) : List TrustNode :=
  db.nodes.rows.filter fun node => db.evidenceActive node.evidenceID

/-- The edge of a row with the given witness. -/
def EdgeRow.edge (row : EdgeRow) (witnessID : Option WitnessID) : TrustEdge where
  id := row.id
  fromID := row.fromID
  toID := row.toID
  evidenceID := row.evidenceID
  leafIndex := row.leafIndex
  witnessID := witnessID
  pathStepCost := row.pathStepCost

/-- An edge with the witness of its evidence. -/
def DB.edgeOf (db : DB) (row : EdgeRow) : TrustEdge :=
  row.edge ((db.witnesses.rows.find? fun witness => witness.evidenceID = row.evidenceID).map (·.id))

/-- The active edges whose evidence is active. -/
def DB.activeEdges (db : DB) : List TrustEdge :=
  (db.edges.rows.filter fun row => row.active ∧ db.evidenceActive row.evidenceID).map db.edgeOf

/-- `loadActiveTrustNode`. -/
def loadActiveTrustNode (id : NodeID) : DBTx TrustNode := do
  let node ← gets fun db => db.activeNodes.find? fun node => node.id = id
  expect node .recordNotFound

/-- `verifyActiveNodeContent`. -/
def verifyActiveNodeContent (node : TrustNode) : DBTx Unit := do
  let persisted ← loadActiveTrustNode node.id
  require (persisted = node) .graphConflict

/-- `INSERT INTO trust_nodes`; the key is unique and the evidence has to be active. -/
def insertTrustNode (node : TrustNode) : DBTx Unit := fun db =>
  if (∃ other ∈ db.nodes.rows, other.key = node.key) ∨ ¬ db.evidenceActive node.evidenceID then
    .error .constraint
  else
    match db.nodes.insert? node with
    | some nodes => .ok ((), { db with nodes := nodes })
    | none => .error .constraint

/-- `mergeTrustNode`: whether the node was inserted. -/
def mergeTrustNode (node : TrustNode) : DBTx Bool := do
  match ← gets fun db => db.nodes.rows.find? fun row => row.key = node.key with
  | some row =>
      require (row.id = node.id) .graphConflict
      require (row.root = node.root) (.trustView .trustRootConflict)
      require (row.evidenceID = node.evidenceID) .graphConflict
      return false
  | none =>
      insertTrustNode node
      return true

/-- What the triggers of `trust_edges` ask of an active edge. -/
def DB.edgeAdmissible (db : DB) (fromID toID : NodeID) (evidenceID : EvidenceID) : Prop :=
  db.evidenceActive evidenceID ∧ (∀ row ∈ db.observations.rows, row.evidenceID ≠ evidenceID) ∧
    (∃ node ∈ db.nodes.rows, node.id = fromID) ∧ ∃ node ∈ db.nodes.rows, node.id = toID

instance (db : DB) (fromID toID : NodeID) (evidenceID : EvidenceID) :
    Decidable (db.edgeAdmissible fromID toID evidenceID) :=
  inferInstanceAs (Decidable (_ ∧ _))

/-- The row of an active edge. -/
def edgeRow (edge : TrustEdge) : EdgeRow :=
  ⟨edge.id, edge.fromID, edge.toID, edge.evidenceID, true, edge.leafIndex, edge.pathStepCost⟩

/-- `INSERT INTO trust_edges` of an active edge; its cost is a non-negative `INTEGER`. -/
def insertTrustEdge (edge : TrustEdge) : DBTx Unit := fun db =>
  if edge.pathStepCost.toNat ≤ maxInt64 ∧
      db.edgeAdmissible edge.fromID edge.toID edge.evidenceID then
    match db.edges.insert? (edgeRow edge) with
    | some edges => .ok ((), { db with edges := edges })
    | none => .error .constraint
  else .error .constraint

/-- The column an update of `trust_edges` sets. -/
def EdgeRow.activate (row : EdgeRow) : EdgeRow :=
  { row with active := true }

theorem EdgeRow.activate_id (row : EdgeRow) : row.activate.id = row.id := rfl

/-- `UPDATE trust_edges SET active=1 WHERE edge_id=?` of a stored row. -/
def activateTrustEdge (row : EdgeRow) : DBTx Unit := fun db =>
  if db.edgeAdmissible row.fromID row.toID row.evidenceID then
    .ok ((), { db with edges := db.edges.modify row.id EdgeRow.activate EdgeRow.activate_id })
  else .error .constraint

/-- `mergeTrustEdge`: whether the edge was inserted or activated. -/
def mergeTrustEdge (edge : TrustEdge) : DBTx Bool := do
  match ← gets (·.edges.find? edge.id) with
  | some row =>
      require (row.fromID = edge.fromID ∧ row.toID = edge.toID ∧
        row.evidenceID = edge.evidenceID ∧ row.leafIndex = edge.leafIndex ∧
        row.pathStepCost = edge.pathStepCost) .graphConflict
      if row.active then return false
      else
        activateTrustEdge row
        return true
  | none =>
      let taken ← gets fun db => db.edges.rows.any fun row => row.evidenceID = edge.evidenceID
      require (¬ taken) .graphConflict
      insertTrustEdge edge
      return true

/-- `INSERT INTO membership_witnesses` with the siblings; the evidence has one witness. -/
def insertWitness (witness : GraphWitness) : DBTx Unit := fun db =>
  if ∃ other ∈ db.witnesses.rows, other.evidenceID = witness.evidenceID then .error .constraint
  else
    match db.witnesses.insert? witness with
    | some witnesses => .ok ((), { db with witnesses := witnesses })
    | none => .error .constraint

/-- Insert the witness of an evidence, or compare it with the stored one: whether it was inserted.
Both writers of edges do this. -/
def mergeWitness (witness : GraphWitness) : DBTx Bool := do
  match ← gets fun db => db.witnesses.rows.find? fun row => row.evidenceID = witness.evidenceID with
  | some row =>
      require (row.id = witness.id) .graphConflict
      return false
  | none =>
      insertWitness witness
      return true

/-- `bumpGraphRevision`. -/
def bumpGraphRevision : DBTx Unit := fun db =>
  if db.revision < maxInt64 then .ok ((), { db with revision := db.revision + 1 })
  else .error .revisionExhausted

/-! ## What a statement has done when it succeeds -/

section Success

variable {db db' : DB}

theorem DB.evidenceActive_iff {id : EvidenceID} :
    db.evidenceActive id ↔ ∃ row ∈ db.evidence.rows, row.id = id ∧ row.state = .active := by
  simp [DB.evidenceActive]

variable {u : Unit}

theorem insertEvidence_ok {row : EvidenceRecord} (hRun : insertEvidence row db = .ok (u, db')) :
    (∀ other ∈ db.evidence.rows, other.locator ≠ row.locator) ∧
      ∃ evidence, db.evidence.insert? row = some evidence ∧ db' = { db with evidence } := by
  unfold insertEvidence at hRun
  split at hRun
  · cases hRun
  · rename_i hFree
    cases hInsert : db.evidence.insert? row with
    | none =>
        rw [hInsert] at hRun
        cases hRun
    | some evidence =>
        rw [hInsert] at hRun
        cases hRun
        refine ⟨?_, evidence, rfl, rfl⟩
        intro other hMem hLocator
        exact hFree ⟨other, hMem, hLocator⟩

theorem updateEvidenceState_ok {id : EvidenceID} {fromState toState : EvidenceState}
    {reason : Option String} {changed : Bool}
    (hRun : updateEvidenceState id fromState toState reason db = .ok (changed, db')) :
    db' = db ∨ ((∃ row ∈ db.evidence.rows, row.id = id ∧ row.state = fromState) ∧
      db' = { db with
        evidence := db.evidence.modify id (fun row => EvidenceRecord.move row toState reason)
          (EvidenceRecord.move_id toState reason) }) := by
  unfold updateEvidenceState at hRun
  split at hRun
  · rename_i hAny
    split at hRun
    · cases hRun
    · cases hRun
      exact Or.inr ⟨by simpa using hAny, rfl⟩
  · cases hRun
    exact Or.inl rfl

theorem insertTransition_ok {row : EvidenceTransition}
    (hRun : insertTransition row db = .ok (u, db')) :
    ∃ transitions, db.transitions.insert? row = some transitions ∧ db' = { db with transitions } := by
  unfold insertTransition at hRun
  split at hRun
  · rename_i transitions hInsert
    cases hRun
    exact ⟨transitions, hInsert, rfl⟩
  · cases hRun

theorem insertTrustNode_ok {node : TrustNode} (hRun : insertTrustNode node db = .ok (u, db')) :
    db.evidenceActive node.evidenceID ∧
      ∃ nodes, db.nodes.insert? node = some nodes ∧ db' = { db with nodes } := by
  unfold insertTrustNode at hRun
  split at hRun
  · cases hRun
  · rename_i hFree
    split at hRun
    · rename_i nodes hInsert
      cases hRun
      exact ⟨by simpa using (not_or.mp hFree).2, nodes, hInsert, rfl⟩
    · cases hRun

theorem insertTrustEdge_ok {edge : TrustEdge} (hRun : insertTrustEdge edge db = .ok (u, db')) :
    ∃ edges, db.edges.insert? (edgeRow edge) = some edges ∧ db' = { db with edges } := by
  unfold insertTrustEdge at hRun
  split at hRun
  · split at hRun
    · rename_i edges hInsert
      cases hRun
      exact ⟨edges, hInsert, rfl⟩
    · cases hRun
  · cases hRun

/-- The triggers let an edge in only with active evidence. -/
theorem insertTrustEdge_active {edge : TrustEdge} (hRun : insertTrustEdge edge db = .ok (u, db')) :
    db.evidenceActive edge.evidenceID := by
  unfold insertTrustEdge at hRun
  split at hRun
  · rename_i hAdmitted
    exact hAdmitted.2.1
  · cases hRun

theorem activateTrustEdge_active {row : EdgeRow} (hRun : activateTrustEdge row db = .ok (u, db')) :
    db.evidenceActive row.evidenceID := by
  unfold activateTrustEdge at hRun
  split at hRun
  · rename_i hAdmitted
    exact hAdmitted.1
  · cases hRun

theorem activateTrustEdge_ok {row : EdgeRow} (hRun : activateTrustEdge row db = .ok (u, db')) :
    db' = { db with edges := db.edges.modify row.id EdgeRow.activate EdgeRow.activate_id } := by
  unfold activateTrustEdge at hRun
  split at hRun
  · cases hRun
    rfl
  · cases hRun

theorem insertWitness_ok {witness : GraphWitness} (hRun : insertWitness witness db = .ok (u, db')) :
    ∃ witnesses, db.witnesses.insert? witness = some witnesses ∧ db' = { db with witnesses } := by
  unfold insertWitness at hRun
  split at hRun
  · cases hRun
  · split at hRun
    · rename_i witnesses hInsert
      cases hRun
      exact ⟨witnesses, hInsert, rfl⟩
    · cases hRun

theorem bumpGraphRevision_ok (hRun : bumpGraphRevision db = .ok (u, db')) :
    db.revision < maxInt64 ∧ db' = { db with revision := db.revision + 1 } := by
  unfold bumpGraphRevision at hRun
  split at hRun
  · rename_i hRange
    cases hRun
    exact ⟨hRange, rfl⟩
  · cases hRun

/-- A node whose content was verified is stored. -/
theorem verifyActiveNodeContent_mem {P : DB → Prop} (node : TrustNode) :
    Ensures P (verifyActiveNodeContent node) fun _ db => P db ∧ node ∈ db.nodes.rows := by
  refine .bind (R := fun persisted db => P db ∧ persisted ∈ db.nodes.rows) ?_
    fun persisted => .require_last ?_
  · refine .gets fun found => ?_
    cases found with
    | none => exact .throw
    | some stored =>
        refine .pure fun db h => ⟨h.1, ?_⟩
        exact (List.mem_filter.mp (List.mem_of_find?_eq_some h.2)).1
  · rintro rfl db h
    exact h

end Success

end TrustMap.Mapnode.Store
