import TrustMap.Mapnode.Planner
import TrustMap.Mapnode.Store.Write

/-!
The stored graph as an invariant of the database. Most statements keep the graph: they leave its
tables alone and never take evidence out of `active`. What is left are the three statements that
insert a node, an edge or a snapshot.
-/

namespace TrustMap.Mapnode.Store

open Transaction

/-! ## Statements that keep the graph -/

/-- The tables of the graph are the same and active evidence is still active. -/
structure KeepsGraph (db db' : DB) : Prop where
  nodes : db'.nodes = db.nodes
  edges : db'.edges = db.edges
  snapshots : db'.snapshots = db.snapshots
  active : ∀ id, db.evidenceActive id → db'.evidenceActive id

instance : IsPreorder DB KeepsGraph where
  refl _ := ⟨rfl, rfl, rfl, fun _ h => h⟩
  trans _ _ _ h h' := ⟨h'.nodes.trans h.nodes, h'.edges.trans h.edges,
    h'.snapshots.trans h.snapshots, fun id hActive => h'.active id (h.active id hActive)⟩

/-- The witnesses are the same as well. -/
structure KeepsMaterial (db db' : DB) : Prop extends KeepsGraph db db' where
  witnesses : db'.witnesses = db.witnesses

instance : IsPreorder DB KeepsMaterial where
  refl db := ⟨refl_of KeepsGraph db, rfl⟩
  trans _ _ _ h h' :=
    ⟨trans_of KeepsGraph h.toKeepsGraph h'.toKeepsGraph, h'.witnesses.trans h.witnesses⟩

theorem KeepsGraph.of_evidence_eq {db db' : DB} (hNodes : db'.nodes = db.nodes)
    (hEdges : db'.edges = db.edges) (hSnapshots : db'.snapshots = db.snapshots)
    (hEvidence : db'.evidence = db.evidence) : KeepsGraph db db' where
  nodes := hNodes
  edges := hEdges
  snapshots := hSnapshots
  active id h := by
    unfold DB.evidenceActive at h ⊢
    rwa [hEvidence]

/-- `evidenceLocatorMatchesNode`: the locator of a log in the block of the node. -/
abbrev evidenceLocatorMatchesNode (locator : Locator) (node : TrustNode) : Prop :=
  locator.chainID = node.key.chainID ∧ locator.blockNumber = node.key.height ∧
    locator.blockHash = node.key.blockHash

/-- A record some statements later: what it locates is the same, and its state has only changed
along the transitions of the package `evidence`. -/
structure EvidenceRecord.Later (record record' : EvidenceRecord) : Prop where
  id : record'.id = record.id
  locator : record'.locator = record.locator
  state : Relation.ReflTransGen EvidenceState.Moves record.state record'.state

theorem EvidenceRecord.Later.refl (record : EvidenceRecord) : EvidenceRecord.Later record record :=
  ⟨rfl, rfl, .refl⟩

theorem EvidenceRecord.Later.trans {first second third : EvidenceRecord}
    (h : EvidenceRecord.Later first second) (h' : EvidenceRecord.Later second third) :
    EvidenceRecord.Later first third :=
  ⟨h'.id.trans h.id, h'.locator.trans h.locator, h.state.trans h'.state⟩

/-- A revision of the graph some statements later; it stays in the range of SQLite. -/
def RevisionClimbs (revision revision' : ℕ) : Prop :=
  revision ≤ revision' ∧ (revision ≤ maxInt64 → revision' ≤ maxInt64)

theorem RevisionClimbs.refl (revision : ℕ) : RevisionClimbs revision revision :=
  ⟨le_rfl, fun h => h⟩

theorem RevisionClimbs.trans {first second third : ℕ} (h : RevisionClimbs first second)
    (h' : RevisionClimbs second third) : RevisionClimbs first third :=
  ⟨h.1.trans h'.1, fun hRange => h'.2 (h.2 hRange)⟩

/-- The material is the same, no record of evidence is lost and the revision does not fall. -/
structure KeepsEvidence (db db' : DB) : Prop extends KeepsMaterial db db' where
  records : ∀ record ∈ db.evidence.rows, ∃ record' ∈ db'.evidence.rows,
    EvidenceRecord.Later record record'
  revision : RevisionClimbs db.revision db'.revision

instance : IsPreorder DB KeepsEvidence where
  refl db :=
    ⟨refl_of KeepsMaterial db, fun record hMem => ⟨record, hMem, .refl record⟩, .refl db.revision⟩
  trans _ _ _ h h' := by
    refine ⟨trans_of KeepsMaterial h.toKeepsMaterial h'.toKeepsMaterial, fun record hMem => ?_,
      h.revision.trans h'.revision⟩
    obtain ⟨middle, hMiddle, hLater⟩ := h.records record hMem
    obtain ⟨last, hLast, hLater'⟩ := h'.records middle hMiddle
    exact ⟨last, hLast, hLater.trans hLater'⟩

theorem KeepsEvidence.of_evidence_eq {db db' : DB} (hNodes : db'.nodes = db.nodes)
    (hEdges : db'.edges = db.edges) (hSnapshots : db'.snapshots = db.snapshots)
    (hEvidence : db'.evidence = db.evidence) (hWitnesses : db'.witnesses = db.witnesses)
    (hRevision : RevisionClimbs db.revision db'.revision) : KeepsEvidence db db' := by
  refine ⟨⟨.of_evidence_eq hNodes hEdges hSnapshots hEvidence, hWitnesses⟩, fun record hMem => ?_,
    hRevision⟩
  exact ⟨record, hEvidence ▸ hMem, .refl record⟩

theorem insertEvidence_keeps (row : EvidenceRecord) : Within KeepsEvidence (insertEvidence row) := by
  intro db u db' hRun
  obtain ⟨-, evidence, hInsert, rfl⟩ := insertEvidence_ok hRun
  have hOld : ∀ record ∈ db.evidence.rows, record ∈ evidence.rows := by
    intro record hMem
    rw [(Table.insert?_eq_some.mp hInsert).2]
    exact List.mem_append_left _ hMem
  refine ⟨⟨⟨rfl, rfl, rfl, fun id hActive => ?_⟩, rfl⟩, fun record hMem => ?_, .refl _⟩
  · obtain ⟨other, hMem, hOther⟩ := DB.evidenceActive_iff.mp hActive
    exact DB.evidenceActive_iff.mpr ⟨other, hOld other hMem, hOther⟩
  · exact ⟨record, hOld record hMem, .refl record⟩

theorem insertEvidenceIfAbsent_keeps (row : EvidenceRecord) :
    Within KeepsEvidence (insertEvidenceIfAbsent row) := by
  refine .bind .gets fun found => ?_
  cases found with
  | some _ => exact .pure
  | none => exact .bind (insertEvidence_keeps row) fun _ => .pure

theorem updateEvidenceState_keeps {id : EvidenceID} {fromState toState : EvidenceState}
    {reason : Option String} (hLegal : fromState.legal toState) :
    Within KeepsEvidence (updateEvidenceState id fromState toState reason) := by
  intro db changed db' hRun
  obtain rfl | ⟨⟨row, hMem, hID, hState⟩, rfl⟩ := updateEvidenceState_ok hRun
  · exact refl_of KeepsEvidence _
  refine ⟨⟨⟨rfl, rfl, rfl, fun activeID hActive => ?_⟩, rfl⟩, fun record hRecord => ?_, .refl _⟩
  · obtain ⟨other, hOther, hOtherID, hOtherState⟩ := DB.evidenceActive_iff.mp hActive
    refine DB.evidenceActive_iff.mpr ⟨other, ?_, hOtherID, hOtherState⟩
    -- the updated row is in another state, so it is not this one
    rw [Table.mem_modify]
    refine Or.inl ⟨hOther, fun hSame => ?_⟩
    obtain rfl := Table.eq_of_key hMem hOther (hID.trans hSame.symm)
    rw [← hState, hOtherState] at hLegal
    exact EvidenceState.not_moves_active (EvidenceState.moves_of_legal hLegal)
  · by_cases hSame : record.id = id
    · obtain rfl := Table.eq_of_key hMem hRecord (hID.trans hSame.symm)
      refine ⟨EvidenceRecord.move row toState reason, ?_, rfl, rfl, .single ?_⟩
      · rw [Table.mem_modify]
        exact Or.inr ⟨row, hMem, hID, rfl⟩
      · rw [hState]
        exact EvidenceState.moves_of_legal hLegal
    · refine ⟨record, ?_, .refl record⟩
      rw [Table.mem_modify]
      exact Or.inl ⟨hRecord, hSame⟩

theorem insertTransition_keeps (row : EvidenceTransition) :
    Within KeepsEvidence (insertTransition row) := by
  intro db u db' hRun
  obtain ⟨transitions, -, rfl⟩ := insertTransition_ok hRun
  exact .of_evidence_eq rfl rfl rfl rfl rfl (.refl _)

theorem activateEvidence_keeps (counted : Bool) (id : EvidenceID) (reason : String) :
    Within KeepsEvidence (activateEvidence counted id reason) := by
  have hStep : ∀ fromState toState : EvidenceState, fromState.legal toState →
      Within KeepsEvidence (advanceEvidence counted id reason fromState toState) :=
    fun fromState toState hLegal => .bind (updateEvidenceState_keeps hLegal) fun _ =>
      .bind .require fun _ => insertTransition_keeps _
  exact .bind (hStep _ _ rfl) fun _ => .bind (hStep _ _ rfl) fun _ => hStep _ _ rfl

theorem verifyActiveNodeContent_keeps (node : TrustNode) :
    Within KeepsEvidence (verifyActiveNodeContent node) :=
  .bind (.bind .gets fun _ => .expect) fun _ => .require

theorem mergeWitness_keeps (witness : GraphWitness) : Within KeepsGraph (mergeWitness witness) := by
  refine .bind .gets fun found => ?_
  cases found with
  | some row => exact .bind .require fun _ => .pure
  | none =>
      refine .bind ?_ fun _ => .pure
      intro db u db' hRun
      obtain ⟨witnesses, -, rfl⟩ := insertWitness_ok hRun
      exact .of_evidence_eq rfl rfl rfl rfl

theorem bumpGraphRevision_keeps : Within KeepsEvidence bumpGraphRevision := by
  intro db u db' hRun
  obtain ⟨hRange, rfl⟩ := bumpGraphRevision_ok hRun
  exact .of_evidence_eq rfl rfl rfl rfl rfl ⟨Nat.le_succ _, fun _ => hRange⟩

theorem insertLiveChain_keeps (entry : Chain) : Within KeepsEvidence (insertLiveChain entry) := by
  intro db u db' hRun
  unfold insertLiveChain at hRun
  repeat' split at hRun
  all_goals cases hRun <;> exact .of_evidence_eq rfl rfl rfl rfl rfl (.refl _)

theorem sync_keeps (registry : Registry) : Within KeepsEvidence (sync registry) := by
  refine .bind (.anyChanged fun entry => ?_) fun _ => .bind .gets fun _ => .require
  exact .bind .require fun _ => .bind (insertLiveChain_keeps entry) fun _ => .bind .gets fun _ =>
    .bind .expect fun _ => .bind .require fun _ => .pure

theorem bindDeployment_keeps (chainID : Bytes32) (deployment : LiveDeployment) :
    Within KeepsEvidence (bindDeployment chainID deployment) := by
  refine .bind .require fun _ => .bind .gets fun _ => .bind .expect fun persisted => ?_
  cases persisted.deployment with
  | none => exact .modify fun db => .of_evidence_eq rfl rfl rfl rfl rfl (.refl _)
  | some bound => exact .require

theorem configure_keeps (config : IndexerConfig) : Within KeepsEvidence (configure config) := by
  refine .bind .require fun _ => .bind .gets fun _ => .bind .expect fun _ => .bind .require fun _ =>
    .bind .gets fun found => ?_
  cases found with
  | none => exact .modify fun db => .of_evidence_eq rfl rfl rfl rfl rfl (.refl _)
  | some persisted => exact .require

theorem initializeCursor_keeps (cursor : CanonicalCursor) :
    Within KeepsEvidence (initializeCursor cursor) := by
  refine .bind .require fun _ => .bind .gets fun found => ?_
  cases found with
  | some persisted => exact .require
  | none =>
      refine .bind .gets fun _ => .bind .expect fun _ => ?_
      exact .modify fun db => .of_evidence_eq rfl rfl rfl rfl rfl (.refl _)

theorem insertObservation_keeps (row : ObservationRow) :
    Within KeepsEvidence (insertObservation row) := by
  intro db u db' hRun
  unfold insertObservation at hRun
  repeat' split at hRun
  all_goals cases hRun <;> exact .of_evidence_eq rfl rfl rfl rfl rfl (.refl _)

theorem scanObservation_keeps (keccak : Keccak) (row : Option ObservationRow) :
    Within KeepsEvidence (scanObservation keccak row) := by
  cases row with
  | none => exact .pure
  | some row => exact .bind .require fun _ => .pure

/-! ### The confirmed block -/

section ConfirmedBlock

variable (block : ConfirmedBlock)

theorem requireIndexerConfig_keeps : Within KeepsEvidence (requireIndexerConfig block) :=
  .bind .gets fun _ => .bind .expect fun _ => .require

theorem blockCursor_keeps : Within KeepsEvidence (blockCursor block) := by
  refine .bind .gets fun _ => .bind .expect fun current => .bind .require fun _ => .ite ?_ ?_
  · exact .bind .require fun _ => .pure
  · exact .bind .require fun _ => .bind .check fun _ => .pure

theorem updateCursor_keeps (advanced : CanonicalCursor) :
    Within KeepsEvidence (updateCursor advanced) :=
  .modify fun _ => .of_evidence_eq rfl rfl rfl rfl rfl (.refl _)

theorem insertIndexedGatewayLog_keeps (item : IndexedGatewayLog) :
    Within KeepsEvidence (insertIndexedGatewayLog block item) := by
  refine .bind .require fun _ => .bind .gets fun found => ?_
  cases found with
  | some row => exact .bind .require fun _ => .pure
  | none => exact .bind (.modify fun db => .of_evidence_eq rfl rfl rfl rfl rfl (.refl _)) fun _ => .pure

theorem insertObservedRequest_keeps (keccak : Keccak) (request : Request) :
    Within KeepsEvidence (insertObservedRequest keccak request) := by
  have hInsert : Within KeepsEvidence (insertRequest request) := by
    intro db changed db' hRun
    unfold insertRequest at hRun
    repeat' split at hRun
    all_goals
      cases hRun
      exact .of_evidence_eq rfl rfl rfl rfl rfl (.refl _)
  exact .bind .require fun _ => .bind .require fun _ => .bind hInsert fun _ => .bind .gets fun _ =>
    .bind .expect fun _ => .bind .require fun _ => .pure

theorem applyReceipt_keeps (receipt : VerificationReceiptRecord) :
    Within KeepsEvidence (applyReceipt block receipt) := by
  have hInsert : ∀ row, Within KeepsEvidence (insertReceiptRow row) := by
    intro row db changed db' hRun
    unfold insertReceiptRow at hRun
    repeat' split at hRun
    all_goals cases hRun <;> exact .of_evidence_eq rfl rfl rfl rfl rfl (.refl _)
  refine .bind .require fun _ => .bind (hInsert _) fun _ => .bind ?_ fun _ => .pure
  exact .bind .gets fun _ => .bind .expect fun _ => .require

theorem applyResolution_keeps (resolution : RequestResolutionRecord) :
    Within KeepsEvidence (applyResolution block resolution) := by
  have hInsert : ∀ row, Within KeepsEvidence (insertResolutionRow row) := by
    intro row db changed db' hRun
    unfold insertResolutionRow at hRun
    repeat' split at hRun
    all_goals cases hRun <;> exact .of_evidence_eq rfl rfl rfl rfl rfl (.refl _)
  refine .bind (hInsert _) fun _ => .bind ?_ fun _ => .bind ?_ fun _ => .pure
  · exact .bind .gets fun _ => .bind .expect fun _ => .require
  · exact .bind .gets fun _ => .bind .expect fun _ => .bind .require fun _ => .bind .check fun _ =>
      .bind .require fun _ => .bind .gets fun _ => .bind .expect fun _ => .require

theorem verifyDependencyReceiptAndResolution_keeps (material : DependencyMaterialization) :
    Within KeepsEvidence (verifyDependencyReceiptAndResolution block material) :=
  .bind .gets fun _ => .bind .expect fun _ => .bind .gets fun _ => .bind .expect fun _ => .require

theorem verifyDependencyIndexedLog_keeps (material : DependencyMaterialization) :
    Within KeepsEvidence (verifyDependencyIndexedLog block material) :=
  .bind .gets fun _ => .bind .expect fun _ => .bind .require fun _ => .bind .check fun _ => .require

theorem applyEvidence_keeps (material : DependencyMaterialization) :
    Within KeepsEvidence (applyEvidence material) := by
  refine .bind (insertEvidenceIfAbsent_keeps _) fun inserted => .ite ?_ ?_
  · exact .bind (activateEvidence_keeps _ _ _) fun _ => .pure
  · refine .bind ?_ fun _ => .bind .require fun _ => .pure
    exact .bind .gets fun _ => .bind .expect fun _ => .bind .require fun _ => .pure

theorem enqueueActiveEvidenceOutbox_keeps (p : Primitives) (outbox : Outbox)
    (material : DependencyMaterialization) :
    Within KeepsEvidence (enqueueActiveEvidenceOutbox p outbox block material) := by
  refine .bind .require fun _ =>
    .bind (verifyDependencyReceiptAndResolution_keeps block material) fun _ =>
    .bind (verifyDependencyIndexedLog_keeps block material) fun _ => .bind .gets fun _ =>
    .bind .expect fun _ => .bind .require fun _ => .bind .gets fun found => ?_
  cases found with
  | some row => exact .bind .check fun _ => .bind .require fun _ => .pure
  | none =>
      refine .bind .check fun _ => .bind .check fun _ => .bind .gets fun _ => .bind .require fun _ => ?_
      exact .bind (.modify fun db => .of_evidence_eq rfl rfl rfl rfl rfl (.refl _)) fun _ => .pure

end ConfirmedBlock

/-! ### The inbox -/

theorem receive_keeps (p : Primitives) (now : UnixNano) (envelope : Envelope) (sender : PeerID) :
    Within KeepsEvidence (receive p now envelope sender) := by
  have hInsert : ∀ row, Within KeepsEvidence (insertInbox row) := by
    intro row db inserted db' hRun
    unfold insertInbox at hRun
    repeat' split at hRun
    all_goals cases hRun <;> exact .of_evidence_eq rfl rfl rfl rfl rfl (.refl _)
  refine .bind .check fun _ => .bind .check fun _ => .bind (insertEvidenceIfAbsent_keeps _) fun _ =>
    .bind .gets fun _ => .bind .expect fun _ => .bind .require fun _ => .bind (hInsert _) fun _ =>
    .ite .pure ?_
  exact .bind .gets fun _ => .bind .expect fun _ => .bind .require fun _ => .pure

theorem updateInbox_keeps {messageID : Bytes32} {f : InboxRow → InboxRow}
    {hKey : ∀ row, (f row).messageID = row.messageID} :
    Within KeepsEvidence (updateInbox messageID f hKey) :=
  .modify fun _ => .of_evidence_eq rfl rfl rfl rfl rfl (.refl _)

theorem markRetryable_keeps (messageID : Bytes32) (reason : String) (next : Option UnixNano) :
    Within KeepsEvidence (markRetryable messageID reason next) :=
  .bind .require fun _ => .bind .expect fun _ => .bind .gets fun _ => .bind .expect fun _ =>
    .bind .require fun _ => updateInbox_keeps

theorem markInvalid_keeps (messageID : Bytes32) (reason : String) :
    Within KeepsEvidence (markInvalid messageID reason) := by
  refine .bind .require fun _ => .bind .gets fun _ => .bind .expect fun _ => .bind .require fun _ =>
    .ite .pure ?_
  refine .bind updateInbox_keeps fun _ => .bind (updateEvidenceState_keeps rfl) fun _ => ?_
  exact .when (insertTransition_keeps _)

/-! ## The invariant -/

/-- Every stored node is valid and has active evidence, every stored edge is valid and goes between
stored nodes of two chains, and the graph of every snapshot is accepted by `Plan`. -/
structure GraphInvariant (keccak : Keccak) (db : DB) : Prop where
  nodeValid : ∀ node ∈ db.nodes.rows, node.validate keccak = .ok ()
  nodeActive : ∀ node ∈ db.nodes.rows, db.evidenceActive node.evidenceID
  edgeValid : ∀ row ∈ db.edges.rows, ∀ witnessID, (row.edge witnessID).validate keccak = .ok ()
  crossChain : ∀ row ∈ db.edges.rows, ∀ witnessID, CrossChain db.nodes.rows (row.edge witnessID)
  snapshots : ∀ snapshot ∈ db.snapshots.rows, snapshot.checkGraph keccak = .ok ()

variable {node : TrustNode} {edge : TrustEdge}

section Invariant

variable {keccak : Keccak} {db db' : DB}

theorem graphInvariant_empty : GraphInvariant keccak DB.empty := by
  constructor
  all_goals simp [DB.empty]

/-- Steps that keep the graph keep its invariant. -/
theorem GraphInvariant.keeps (h : GraphInvariant keccak db) (hKeeps : KeepsGraph db db') :
    GraphInvariant keccak db' where
  nodeValid := hKeeps.nodes ▸ h.nodeValid
  nodeActive node hNode := hKeeps.active _ (h.nodeActive node (hKeeps.nodes ▸ hNode))
  edgeValid := hKeeps.edges ▸ h.edgeValid
  crossChain := by
    rw [hKeeps.edges, hKeeps.nodes]
    exact h.crossChain
  snapshots := hKeeps.snapshots ▸ h.snapshots

theorem GraphInvariant.validNodes (h : GraphInvariant keccak db) :
    ValidNodes keccak db.activeNodes where
  valid node hNode := h.nodeValid node (List.mem_filter.mp hNode).1
  unique _ hNode _ hNode' := Table.eq_of_key (List.mem_filter.mp hNode).1 (List.mem_filter.mp hNode').1

/-- The evidence of every stored node is active. -/
def NodesActive (db : DB) : Prop :=
  ∀ node ∈ db.nodes.rows, db.evidenceActive node.evidenceID

theorem NodesActive.mem_activeNodes (h : NodesActive db) (hNode : node ∈ db.nodes.rows) :
    node ∈ db.activeNodes :=
  List.mem_filter.mpr ⟨hNode, h node hNode⟩

theorem GraphInvariant.nodesActive (h : GraphInvariant keccak db) : NodesActive db :=
  h.nodeActive

theorem mem_activeEdges :
    edge ∈ db.activeEdges ↔
      ∃ row ∈ db.edges.rows, (row.active ∧ db.evidenceActive row.evidenceID) ∧
        db.edgeOf row = edge := by
  simp [DB.activeEdges, and_assoc]

theorem GraphInvariant.validEdges (h : GraphInvariant keccak db) :
    ValidEdges keccak db.activeNodes db.activeEdges where
  valid edge hEdge := by
    obtain ⟨row, hRow, -, rfl⟩ := mem_activeEdges.mp hEdge
    exact h.edgeValid row hRow _
  crossChain edge hEdge := by
    obtain ⟨row, hRow, -, rfl⟩ := mem_activeEdges.mp hEdge
    obtain ⟨fromNode, hFrom, toNode, hTo, hChains⟩ := h.crossChain row hRow _
    exact ⟨fromNode, h.nodesActive.mem_activeNodes hFrom, toNode,
      h.nodesActive.mem_activeNodes hTo, hChains⟩
  unique edge hEdge edge' hEdge' hID := by
    obtain ⟨row, hRow, -, rfl⟩ := mem_activeEdges.mp hEdge
    obtain ⟨row', hRow', -, rfl⟩ := mem_activeEdges.mp hEdge'
    rw [Table.eq_of_key hRow hRow' hID]

/-- The current view of the graph is accepted. -/
theorem GraphInvariant.currentTrustView (h : GraphInvariant keccak db) :
    ∃ view, db.currentTrustView keccak = .ok view :=
  ⟨_, newTrustView_eq_ok.mpr ⟨h.validNodes, h.validEdges, rfl⟩⟩

/-- The nodes of a new snapshot are the active nodes without their evidence. -/
theorem mem_snapshotNodes :
    node ∈ db.snapshotNodes ↔ ∃ stored ∈ db.activeNodes, { stored with evidenceID := 0 } = node := by
  simp [DB.snapshotNodes]

theorem mem_snapshotEdges : edge ∈ db.snapshotEdges ↔ edge ∈ db.activeEdges := by
  simp [DB.snapshotEdges]

theorem snapshotNodes_nodup : db.snapshotNodes.Nodup := by
  refine (List.perm_insertionSort _ _).nodup_iff.mpr ?_
  apply List.Nodup.of_map TrustNode.id
  rw [List.map_map]
  exact db.nodes.nodup.sublist (List.filter_sublist.map TrustNode.id)

theorem snapshotEdges_nodup : db.snapshotEdges.Nodup := by
  refine (List.perm_insertionSort _ _).nodup_iff.mpr ?_
  apply List.Nodup.of_map TrustEdge.id
  rw [DB.activeEdges, List.map_map]
  exact db.edges.nodup.sublist (List.filter_sublist.map EdgeRow.id)

/-- The graph of a snapshot of the moment is accepted. -/
theorem GraphInvariant.checkGraph (h : GraphInvariant keccak db) {snapshot : TrustViewSnapshot}
    (hNodes : snapshot.nodes = db.snapshotNodes) (hEdges : snapshot.edges = db.snapshotEdges) :
    snapshot.checkGraph keccak = .ok () := by
  apply TrustViewSnapshot.checkGraph_of_valid
  · rw [hNodes]
    constructor
    · intro node hNode
      obtain ⟨stored, hStored, rfl⟩ := mem_snapshotNodes.mp hNode
      exact TrustNode.validate_eq_ok.mpr (TrustNode.validate_eq_ok.mp (h.validNodes.valid stored hStored))
    · intro node hNode node' hNode' hID
      obtain ⟨stored, hStored, rfl⟩ := mem_snapshotNodes.mp hNode
      obtain ⟨stored', hStored', rfl⟩ := mem_snapshotNodes.mp hNode'
      rw [h.validNodes.unique stored hStored stored' hStored' hID]
  · rw [hNodes, hEdges]
    apply ValidEdges.of_subset _ fun edge => mem_snapshotEdges.mp
    refine ⟨h.validEdges.valid, fun edge hEdge => ?_, h.validEdges.unique⟩
    obtain ⟨fromNode, hFrom, toNode, hTo, hChains⟩ := h.validEdges.crossChain edge hEdge
    exact ⟨_, mem_snapshotNodes.mpr ⟨fromNode, hFrom, rfl⟩, _,
      mem_snapshotNodes.mpr ⟨toNode, hTo, rfl⟩, hChains⟩
  · rw [hNodes]
    exact snapshotNodes_nodup
  · rw [hEdges]
    exact snapshotEdges_nodup

end Invariant

/-! ## The statements that change the graph -/

variable {p : Primitives}

section Writers

variable {keccak : Keccak}

theorem graphInvariant_of_within {α : Type} {m : DBTx α} (hm : Within KeepsEvidence m) :
    Ensures (GraphInvariant keccak) m fun _ => GraphInvariant keccak :=
  .of_within hm fun _ _ hKeeps h => h.keeps hKeeps.toKeepsGraph

theorem insertTrustNode_invariant (hNode : node.validate keccak = .ok ()) :
    Ensures (GraphInvariant keccak) (insertTrustNode node) fun _ => GraphInvariant keccak := by
  intro db h u db' hRun
  obtain ⟨hActive, nodes, hInsert, rfl⟩ := insertTrustNode_ok hRun
  have hRows : nodes.rows = db.nodes.rows ++ [node] := (Table.insert?_eq_some.mp hInsert).2
  refine ⟨?_, ?_, h.edgeValid, ?_, h.snapshots⟩
  · intro other hOther
    rw [hRows, List.mem_append, List.mem_singleton] at hOther
    rcases hOther with hOther | rfl
    · exact h.nodeValid other hOther
    · exact hNode
  · intro other hOther
    rw [hRows, List.mem_append, List.mem_singleton] at hOther
    rcases hOther with hOther | rfl
    · exact h.nodeActive other hOther
    · exact hActive
  · intro row hRow witnessID
    obtain ⟨fromNode, hFrom, toNode, hTo, hChains⟩ := h.crossChain row hRow witnessID
    refine ⟨fromNode, ?_, toNode, ?_, hChains⟩
    all_goals
      rw [hRows]
      exact List.mem_append_left _ ‹_›

theorem mergeTrustNode_invariant (hNode : node.validate keccak = .ok ()) :
    Ensures (GraphInvariant keccak) (mergeTrustNode node) fun _ => GraphInvariant keccak := by
  refine .read fun found => ?_
  cases found with
  | some row =>
      exact graphInvariant_of_within
        (.bind .require fun _ => .bind .require fun _ => .bind .require fun _ => .pure)
  | none => exact .seq (insertTrustNode_invariant hNode) fun _ => .pure fun _ h => h

/-- An edge that may be added: it is valid and its ends are blocks of two chains. -/
structure Admitted (keccak : Keccak) (edge : TrustEdge) (fromNode toNode : TrustNode) : Prop where
  valid : edge.validate keccak = .ok ()
  fromID : fromNode.id = edge.fromID
  toID : toNode.id = edge.toID
  chains : fromNode.key.chainID ≠ toNode.key.chainID

/-- The invariant while an edge between two stored nodes is being written. -/
def WithNodes (keccak : Keccak) (fromNode toNode : TrustNode) (db : DB) : Prop :=
  GraphInvariant keccak db ∧ fromNode ∈ db.nodes.rows ∧ toNode ∈ db.nodes.rows

variable {fromNode toNode : TrustNode}

theorem WithNodes.keeps {db db' : DB} (h : WithNodes keccak fromNode toNode db)
    (hKeeps : KeepsGraph db db') : WithNodes keccak fromNode toNode db' :=
  ⟨h.1.keeps hKeeps, hKeeps.nodes ▸ h.2.1, hKeeps.nodes ▸ h.2.2⟩

theorem withNodes_of_within {α : Type} {m : DBTx α} (hm : Within KeepsEvidence m) :
    Ensures (WithNodes keccak fromNode toNode) m fun _ => WithNodes keccak fromNode toNode :=
  .of_within hm fun _ _ hKeeps h => h.keeps hKeeps.toKeepsGraph

theorem mergeWitness_withNodes (witness : GraphWitness) :
    Ensures (WithNodes keccak fromNode toNode) (mergeWitness witness)
      fun _ => WithNodes keccak fromNode toNode :=
  .of_within (mergeWitness_keeps witness) fun _ _ hKeeps h => h.keeps hKeeps

theorem insertTrustEdge_invariant (hEdge : Admitted keccak edge fromNode toNode) :
    Ensures (WithNodes keccak fromNode toNode) (insertTrustEdge edge)
      fun _ => GraphInvariant keccak := by
  rintro db ⟨h, hFrom, hTo⟩ u db' hRun
  obtain ⟨edges, hInsert, rfl⟩ := insertTrustEdge_ok hRun
  have hRows := (Table.insert?_eq_some.mp hInsert).2
  refine ⟨h.nodeValid, h.nodeActive, ?_, ?_, h.snapshots⟩
  · intro row hRow witnessID
    rw [hRows, List.mem_append, List.mem_singleton] at hRow
    rcases hRow with hRow | rfl
    · exact h.edgeValid row hRow witnessID
    · have hFields := TrustEdge.validate_eq_ok.mp hEdge.valid
      exact TrustEdge.validate_eq_ok.mpr hFields
  · intro row hRow witnessID
    rw [hRows, List.mem_append, List.mem_singleton] at hRow
    rcases hRow with hRow | rfl
    · exact h.crossChain row hRow witnessID
    · exact ⟨fromNode, hFrom, toNode, hTo, hEdge.fromID, hEdge.toID, hEdge.chains⟩

theorem activateTrustEdge_invariant (row : EdgeRow) :
    Ensures (GraphInvariant keccak) (activateTrustEdge row) fun _ => GraphInvariant keccak := by
  intro db h u db' hRun
  obtain rfl := activateTrustEdge_ok hRun
  -- an activated row stands for the same edge
  have hRow : ∀ row', row' ∈ (db.edges.modify row.id EdgeRow.activate EdgeRow.activate_id).rows →
      ∃ stored ∈ db.edges.rows, ∀ witnessID, stored.edge witnessID = row'.edge witnessID := by
    intro row' hMem
    rw [Table.mem_modify] at hMem
    rcases hMem with ⟨hMem, -⟩ | ⟨stored, hMem, -, rfl⟩
    · exact ⟨row', hMem, fun _ => rfl⟩
    · exact ⟨stored, hMem, fun _ => rfl⟩
  refine ⟨h.nodeValid, h.nodeActive, ?_, ?_, h.snapshots⟩
  · intro row' hMem witnessID
    obtain ⟨stored, hStored, hSame⟩ := hRow row' hMem
    exact hSame witnessID ▸ h.edgeValid stored hStored witnessID
  · intro row' hMem witnessID
    obtain ⟨stored, hStored, hSame⟩ := hRow row' hMem
    exact hSame witnessID ▸ h.crossChain stored hStored witnessID

/-- An admitted edge may be merged. -/
theorem mergeTrustEdge_invariant (hEdge : Admitted keccak edge fromNode toNode) :
    Ensures (WithNodes keccak fromNode toNode) (mergeTrustEdge edge)
      fun _ => GraphInvariant keccak := by
  refine .read fun found => ?_
  cases found with
  | some row =>
      refine .require fun _ => .ite (fun _ => .pure fun _ h => h.1) fun _ => ?_
      refine .bind (R := fun _ => GraphInvariant keccak) ?_ fun _ => .pure fun _ h => h
      intro db h
      exact activateTrustEdge_invariant row db h.1
  | none =>
      refine .read fun taken => .require fun _ => ?_
      exact .bind (insertTrustEdge_invariant hEdge) fun _ => .pure fun _ h => h

theorem verifyActiveNodeContent_withNodes (fromNode toNode : TrustNode) :
    Ensures (fun db => GraphInvariant keccak db ∧ fromNode ∈ db.nodes.rows)
      (verifyActiveNodeContent toNode) fun _ => WithNodes keccak fromNode toNode :=
  (verifyActiveNodeContent_mem toNode).mono fun _ _ h => ⟨h.1.1, h.1.2, h.2⟩

theorem createTrustViewSnapshot_invariant (request : SnapshotRequest) :
    Ensures (GraphInvariant keccak) (createTrustViewSnapshot keccak request)
      fun _ => GraphInvariant keccak := by
  have hLoad : ∀ id, Within KeepsEvidence (loadActiveTrustNode id) :=
    fun _ => .bind .gets fun _ => .expect
  refine .require fun _ => .require fun _ => .read fun revision =>
    .read fun _ => .expect fun persisted _ => .require fun _ =>
    .seq (graphInvariant_of_within (hLoad _)) fun start =>
    .seq (graphInvariant_of_within (hLoad _)) fun target => .require fun _ => .require fun _ =>
    .read fun found => ?_
  cases found with
  | some existing => exact .pure fun _ h => h
  | none =>
      refine .read fun _ => .require fun _ => .gets fun nodes =>
        .gets fun edges => .bind (.modify ?_) fun _ => .pure fun _ h => h
      rintro db ⟨⟨h, hNodes⟩, hEdges⟩
      refine ⟨h.nodeValid, h.nodeActive, h.edgeValid, h.crossChain, ?_⟩
      intro snapshot hMem
      rcases Table.mem_insertIgnore hMem with hMem | rfl
      · exact h.snapshots snapshot hMem
      · exact h.checkGraph hNodes.symm hEdges.symm

theorem saveNew_invariant {observation : TrustRootObservation}
    (hNode : (observation.trustNode keccak).validate keccak = .ok ()) :
    Ensures (GraphInvariant keccak) (saveNew keccak observation) fun _ => GraphInvariant keccak :=
  .read fun _ => .expect fun _ _ => .expect fun _ _ =>
    .require fun _ => .seq (graphInvariant_of_within (insertEvidence_keeps _)) fun _ =>
    .seq (graphInvariant_of_within (activateEvidence_keeps _ _ _)) fun _ =>
    .seq (graphInvariant_of_within (insertObservation_keeps _)) fun _ =>
    .seq (mergeTrustNode_invariant hNode) fun _ =>
    .seq (graphInvariant_of_within bumpGraphRevision_keeps) fun _ => .pure fun _ h => h

/-- Saving an observation keeps the invariant, as long as its node does not hash to zero. -/
theorem save_invariant {observation : TrustRootObservation}
    (hID : (observation.trustNode keccak).id ≠ 0) :
    Ensures (GraphInvariant keccak) (save keccak observation) fun _ => GraphInvariant keccak := by
  refine .check fun _ hValid => .require fun _ => .require fun _ =>
    .read fun _ =>
    .seq (graphInvariant_of_within (scanObservation_keeps keccak _)) fun found => ?_
  have hFields := ObservationContent.validate_eq_ok.mp hValid
  have hNode : (observation.trustNode keccak).validate keccak = .ok () :=
    TrustNode.validate_eq_ok.mpr ⟨hFields.1, hFields.2.1.1, hID, rfl⟩
  cases found with
  | some persisted => exact .require fun _ => .pure fun _ h => h
  | none =>
      refine .read fun _ =>
        .seq (graphInvariant_of_within (scanObservation_keeps keccak _)) fun found => ?_
      cases found with
      | some persisted => exact .require fun _ => .pure fun _ h => h
      | none => exact saveNew_invariant hNode

theorem applyDependencyMaterialization_invariant {block : ConfirmedBlock}
    {material : DependencyMaterialization}
    (hChains : material.dependency.sourceChainID ≠ block.chainID) :
    Ensures (GraphInvariant keccak) (applyDependencyMaterialization keccak block material)
      fun _ => GraphInvariant keccak := by
  refine .bind bindMaterial_bound fun _ => .fact fun hBound => ?_
  have hEdge : Admitted keccak material.edge material.fromNode material.toNode := {
    valid := hBound.edge
    fromID := hBound.fromID
    toID := hBound.toID
    chains := by
      rw [hBound.fromChain, VerifiedDependency.validate_chain hBound.dependency]
      exact hChains.symm }
  exact .bind (verifyActiveNodeContent_mem _) fun _ =>
    .bind (verifyActiveNodeContent_withNodes _ _) fun _ =>
    .seq (withNodes_of_within (verifyDependencyReceiptAndResolution_keeps block material)) fun _ =>
    .require fun _ =>
    .seq (withNodes_of_within (verifyDependencyIndexedLog_keeps block material)) fun _ =>
    .seq (withNodes_of_within (applyEvidence_keeps material)) fun _ => .require fun _ =>
    .seq (mergeWitness_withNodes _) fun _ =>
    .bind (mergeTrustEdge_invariant hEdge) fun _ => .pure fun _ h => h

variable {outbox : Option Outbox}

theorem applyDependency_invariant {block : ConfirmedBlock} {material : DependencyMaterialization}
    (hChains : material.dependency.sourceChainID ≠ block.chainID) :
    Ensures (GraphInvariant p.keccak) (applyDependency p outbox block material)
      fun _ => GraphInvariant p.keccak := by
  refine .read fun existed =>
    .seq (applyDependencyMaterialization_invariant hChains) fun changed => ?_
  cases outbox with
  | none => exact .pure fun _ h => h
  | some outbox =>
      refine .ite (fun _ => .pure fun _ h => h) fun _ => ?_
      exact .seq (graphInvariant_of_within (enqueueActiveEvidenceOutbox_keeps block p outbox material))
        fun _ => .pure fun _ h => h

theorem applyDependencies_invariant {block : ConfirmedBlock}
    {materials : List DependencyMaterialization}
    (hChains : ∀ material ∈ materials, material.dependency.sourceChainID ≠ block.chainID) :
    Ensures (GraphInvariant p.keccak) (applyDependencies p outbox block materials)
      fun _ => GraphInvariant p.keccak := by
  induction materials with
  | nil => exact .pure fun _ h => h
  | cons material materials ih =>
      refine .seq (applyDependency_invariant (hChains material List.mem_cons_self)) fun _ => ?_
      refine .seq (ih fun other hMem => hChains other (List.mem_cons_of_mem material hMem)) fun _ => ?_
      exact .pure fun _ h => h

/-- Applying a block keeps the invariant. -/
theorem applyConfirmedBlock_invariant {block : ConfirmedBlock}
    (hChains : ∀ material ∈ block.dependencies, material.dependency.sourceChainID ≠ block.chainID) :
    Ensures (GraphInvariant p.keccak) (applyConfirmedBlock p outbox block)
      fun _ => GraphInvariant p.keccak := by
  exact .require fun _ => .seq (graphInvariant_of_within (requireIndexerConfig_keeps block)) fun _ =>
    .seq (graphInvariant_of_within (blockCursor_keeps block)) fun cursor =>
    .seq (graphInvariant_of_within (.anyChanged (insertIndexedGatewayLog_keeps block))) fun _ =>
    .seq (graphInvariant_of_within (.anyChanged (insertObservedRequest_keeps p.keccak))) fun _ =>
    .seq (graphInvariant_of_within (.anyChanged (applyReceipt_keeps block))) fun _ =>
    .seq (graphInvariant_of_within (.anyChanged (applyResolution_keeps block))) fun _ =>
    .require fun _ => .require fun _ => .seq (applyDependencies_invariant hChains) fun changed =>
    .require fun _ => .seq (graphInvariant_of_within (.when bumpGraphRevision_keeps)) fun _ =>
    .seq (graphInvariant_of_within (.when (updateCursor_keeps _))) fun _ => .pure fun _ h => h

/-- The edge `Activate` builds joins the two observed blocks. -/
theorem RemoteValidation.bindEdge_admitted {v : RemoteValidation}
    (hBind : v.bindEdge keccak = .ok edge)
    (hChains : v.dependency.sourceChainID ≠ v.record.locator.chainID) :
    Admitted keccak edge (v.homeObservation.node keccak) (v.sourceObservation.node keccak) := by
  have hBound := RemoteValidation.bindEdge_ok hBind
  obtain ⟨hFields, rfl⟩ := newTrustEdge_eq_ok.mp hBound.edge
  refine ⟨TrustEdge.validate_eq_ok.mpr ⟨hFields, rfl⟩, rfl, rfl, ?_⟩
  intro hSame
  exact hChains (hBound.sourceChain.symm.trans (hSame.symm.trans hBound.homeChain))

/-- So does activating remote evidence. -/
theorem activate_invariant {messageID : Bytes32} {v : RemoteValidation}
    (hChains : v.dependency.sourceChainID ≠ v.record.locator.chainID) :
    Ensures (GraphInvariant keccak) (activate keccak messageID v) fun _ => GraphInvariant keccak :=
  .check fun _ hBind => .read fun _ => .expect fun _ _ =>
    .require fun _ => .require fun _ => .read fun _ =>
    .expect fun _ _ => .require fun _ => .require fun _ =>
    .bind (verifyActiveNodeContent_mem _) fun _ =>
    .bind (verifyActiveNodeContent_withNodes _ _) fun _ =>
    .seq (withNodes_of_within (.when (activateEvidence_keeps _ _ _))) fun _ =>
    .seq (mergeWitness_withNodes _) fun _ =>
    .bind (mergeTrustEdge_invariant (v.bindEdge_admitted hBind hChains)) fun _ =>
    .seq (graphInvariant_of_within (.when bumpGraphRevision_keeps)) fun _ =>
    .seq (graphInvariant_of_within (.when updateInbox_keeps)) fun _ => .pure fun _ h => h

end Writers

/-! ## Histories -/

/-- The dependencies a write brings into the graph name a source chain other than the chain that
recorded them. -/
def Write.CrossChain : Write → Prop
  | .applyConfirmedBlock _ block => ∀ material ∈ block.dependencies,
      material.dependency.sourceChainID ≠ block.chainID
  | .activate _ v => v.dependency.sourceChainID ≠ v.record.locator.chainID
  | _ => True

/-- The hash assumption: the node of a saved observation does not get the zero identifier. -/
def Write.NonzeroNode (keccak : Keccak) : Write → Prop
  | .save observation => (observation.trustNode keccak).id ≠ 0
  | _ => True

instance : DecidablePred Write.CrossChain
  | .applyConfirmedBlock _ block => inferInstanceAs (Decidable (∀ material ∈ block.dependencies, _))
  | .activate _ v => inferInstanceAs (Decidable (v.dependency.sourceChainID ≠ _))
  | .sync _ | .bindDeployment _ _ | .configure _ | .initializeCursor _ | .save _
  | .createSnapshot _ | .receive _ _ _ | .markRetryable _ _ _ | .markInvalid _ _ => .isTrue trivial

instance (keccak : Keccak) : DecidablePred (Write.NonzeroNode keccak)
  | .save observation => inferInstanceAs (Decidable ((observation.trustNode keccak).id ≠ 0))
  | .sync _ | .bindDeployment _ _ | .configure _ | .initializeCursor _ | .applyConfirmedBlock _ _
  | .createSnapshot _ | .receive _ _ _ | .markRetryable _ _ _ | .markInvalid _ _
  | .activate _ _ => .isTrue trivial

/-- The writes to the graph and to the snapshots. -/
def Write.writesGraph : Write → Bool
  | .save _ | .applyConfirmedBlock _ _ | .createSnapshot _ | .activate _ _ => true
  | .sync _ | .bindDeployment _ _ | .configure _ | .initializeCursor _ | .receive _ _ _
  | .markRetryable _ _ _ | .markInvalid _ _ => false

/-- The other writes keep the graph and its evidence. -/
theorem Write.perform_keeps {write : Write} (hOther : write.writesGraph = false) (db : DB) :
    KeepsEvidence db (write.perform p db) := by
  cases write with
  | sync registry => exact (sync_keeps registry).commit db
  | bindDeployment chainID deployment => exact (bindDeployment_keeps chainID deployment).commit db
  | configure config => exact (configure_keeps config).commit db
  | initializeCursor cursor => exact (initializeCursor_keeps cursor).commit db
  | receive now envelope sender => exact (receive_keeps p now envelope sender).commit db
  | markRetryable messageID reason next => exact (markRetryable_keeps messageID reason next).commit db
  | markInvalid messageID reason => exact (markInvalid_keeps messageID reason).commit db
  | _ => cases hOther

/-- A write whose dependencies are across chains keeps the graph valid. -/
theorem Write.perform_invariant {write : Write} (hNode : write.NonzeroNode p.keccak)
    (hCross : write.CrossChain) {db : DB} (h : GraphInvariant p.keccak db) :
    GraphInvariant p.keccak (write.perform p db) := by
  cases write with
  | save observation => exact (save_invariant hNode).commit h
  | applyConfirmedBlock outbox block => exact (applyConfirmedBlock_invariant hCross).commit h
  | createSnapshot request => exact (createTrustViewSnapshot_invariant request).commit h
  | activate messageID v => exact (activate_invariant hCross).commit h
  | _ => exact h.keeps (Write.perform_keeps rfl db).toKeepsGraph

/-- After every history of writes whose dependencies are across chains, the stored graph is a
TrustView, and the checks of `Plan` on a stored snapshot, which come before its step cost is looked
at, fail for no reason that lies in the graph. -/
theorem run_trustView_valid (p : Primitives) (writes : List Write)
    (hNodes : ∀ write ∈ writes, write.NonzeroNode p.keccak)
    (hCross : ∀ write ∈ writes, write.CrossChain) :
    (∃ view, (run p writes DB.empty).currentTrustView p.keccak = .ok view) ∧
      ∀ snapshot ∈ (run p writes DB.empty).snapshots.rows, ∀ request e,
        planSnapshot p.keccak request snapshot = .error e → e.isGraph = false := by
  have hGraph : GraphInvariant p.keccak (run p writes DB.empty) := by
    refine run_invariant (fun write hMem db h => ?_) graphInvariant_empty
    exact Write.perform_invariant (hNodes write hMem) (hCross write hMem) h
  refine ⟨hGraph.currentTrustView, fun snapshot hMem request e hPlan => ?_⟩
  exact planSnapshot_isGraph (hGraph.snapshots snapshot hMem) hPlan

theorem run_trustView_valid_toy :
    ∃ view, (run Toy.primitives (Toy.history 2) DB.empty).currentTrustView Toy.primitives.keccak =
      .ok view :=
  (run_trustView_valid Toy.primitives (Toy.history 2) (by decide +kernel) (by decide +kernel)).1

/-- The home chain records a dependency on one of its own blocks. The block is applied with the logs
the Gateway has emitted; after that the stored graph is refused, and so is the snapshot that a
request is planned on. -/
theorem sameChain_trustView_refused :
    let db := run Toy.primitives (Toy.history 1) DB.empty
    (Toy.block 1).logs.map (·.log) =
        (Toy.gateway 1).logs.map (fun entry => ChainAbi.abiLog entry.event) ∧
      (∀ write ∈ Toy.history 1, write.NonzeroNode Toy.primitives.keccak) ∧
      db.currentTrustView Toy.primitives.keccak = .error .invalidTrustEdge ∧
      ∃ snapshot ∈ db.snapshots.rows,
        planSnapshot Toy.primitives.keccak ⟨Toy.requestID 1, 0, snapshot.id, 1⟩ snapshot =
          .error (.graph .invalidTrustEdge) := by
  decide +kernel

end TrustMap.Mapnode.Store
