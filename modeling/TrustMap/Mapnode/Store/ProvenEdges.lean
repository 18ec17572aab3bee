import TrustMap.Mapnode.Store.Material

/-!
The evidence of the stored edges as an invariant of the database. Together with the witnesses this
is the whole backing of an edge: its evidence is active and locates the block the edge leaves, both
ends are active, and the witness leads from the one root to the other.
-/

namespace TrustMap.Mapnode.Store

open Transaction

/-- The evidence with this identifier is stored and locates the block of the node. -/
def EvidenceLocates (db : DB) (evidenceID : EvidenceID) (node : TrustNode) : Prop :=
  ∃ record ∈ db.evidence.rows, record.id = evidenceID ∧ evidenceLocatorMatchesNode record.locator node

/-- Every stored edge is active, as is its evidence, which locates the block the edge leaves and
belongs to no other edge. The evidence of an earlier database `start` is still there. -/
structure LocatedEdges (start db : DB) : Prop where
  nodes : NodesActive db
  active : ∀ row ∈ db.edges.rows, row.active = true ∧ db.evidenceActive row.evidenceID
  located : ∀ row ∈ db.edges.rows, ∃ fromNode ∈ db.nodes.rows, fromNode.id = row.fromID ∧
    EvidenceLocates db row.evidenceID fromNode
  unique : ∀ row ∈ db.edges.rows, ∀ other ∈ db.edges.rows,
    row.evidenceID = other.evidenceID → row = other
  records : ∀ record ∈ start.evidence.rows, ∃ record' ∈ db.evidence.rows,
    EvidenceRecord.Later record record'

variable {evidenceID : EvidenceID}

section Invariant

variable {start db db' : DB}

theorem locatedEdges_empty : LocatedEdges DB.empty DB.empty := by
  constructor
  all_goals simp [DB.empty, NodesActive]

/-- The earlier database can be the present one. -/
theorem LocatedEdges.restart (h : LocatedEdges start db) : LocatedEdges db db :=
  { h with records := fun record hMem => ⟨record, hMem, .refl record⟩ }

theorem EvidenceLocates.keeps {node : TrustNode} (h : EvidenceLocates db evidenceID node)
    (hKeeps : KeepsEvidence db db') : EvidenceLocates db' evidenceID node := by
  obtain ⟨record, hMem, hID, hLocates⟩ := h
  obtain ⟨record', hMem', hLater⟩ := hKeeps.records record hMem
  refine ⟨record', hMem', hLater.id.trans hID, ?_⟩
  rw [hLater.locator]
  exact hLocates

theorem LocatedEdges.keeps (h : LocatedEdges start db) (hKeeps : KeepsEvidence db db') :
    LocatedEdges start db' := by
  constructor
  case nodes =>
    intro node hNode
    rw [hKeeps.nodes] at hNode
    exact hKeeps.active _ (h.nodes node hNode)
  case active =>
    intro row hRow
    rw [hKeeps.edges] at hRow
    exact ⟨(h.active row hRow).1, hKeeps.active _ (h.active row hRow).2⟩
  case located =>
    intro row hRow
    rw [hKeeps.edges] at hRow
    obtain ⟨fromNode, hFrom, hID, hLocates⟩ := h.located row hRow
    refine ⟨fromNode, ?_, hID, hLocates.keeps hKeeps⟩
    rw [hKeeps.nodes]
    exact hFrom
  case unique =>
    rw [hKeeps.edges]
    exact h.unique
  case records =>
    intro record hMem
    obtain ⟨middle, hMiddle, hLater⟩ := h.records record hMem
    obtain ⟨last, hLast, hLater'⟩ := hKeeps.records middle hMiddle
    exact ⟨last, hLast, hLater.trans hLater'⟩

end Invariant

/-! ## The statements that write edges -/

section Statements

variable {start : DB}

theorem locatedEdges_of_within {α : Type} {m : DBTx α} (hm : Within KeepsEvidence m) :
    Ensures (LocatedEdges start) m fun _ => LocatedEdges start :=
  .of_within hm fun _ _ hKeeps h => h.keeps hKeeps

theorem mergeTrustNode_located (node : TrustNode) :
    Ensures (LocatedEdges start) (mergeTrustNode node) fun _ => LocatedEdges start := by
  refine .read fun found => ?_
  cases found with
  | some row =>
      exact locatedEdges_of_within
        (.bind .require fun _ => .bind .require fun _ => .bind .require fun _ => .pure)
  | none =>
      refine .seq ?_ fun _ => .pure fun _ h => h
      intro db h u db' hRun
      obtain ⟨hActive, nodes, hInsert, rfl⟩ := insertTrustNode_ok hRun
      have hRows : nodes.rows = db.nodes.rows ++ [node] := (Table.insert?_eq_some.mp hInsert).2
      refine ⟨fun other hOther => ?_, h.active, fun row hRow => ?_, h.unique, h.records⟩
      · rw [hRows, List.mem_append, List.mem_singleton] at hOther
        rcases hOther with hOther | rfl
        · exact h.nodes other hOther
        · exact hActive
      · obtain ⟨fromNode, hFrom, hLocated⟩ := h.located row hRow
        refine ⟨fromNode, ?_, hLocated⟩
        rw [hRows]
        exact List.mem_append_left _ hFrom

/-- What is stored when an edge is about to be written: the node it leaves and its evidence. -/
structure EdgeReady (start : DB) (evidenceID : EvidenceID) (fromNode : TrustNode) (db : DB) : Prop where
  edges : LocatedEdges start db
  stored : fromNode ∈ db.nodes.rows
  evidence : EvidenceLocates db evidenceID fromNode

theorem edgeReady_of_within {fromNode : TrustNode} {α : Type} {m : DBTx α}
    (hm : Within KeepsEvidence m) :
    Ensures (EdgeReady start evidenceID fromNode) m fun _ => EdgeReady start evidenceID fromNode :=
  .of_within hm fun _ _ hKeeps h =>
    ⟨h.edges.keeps hKeeps, hKeeps.nodes ▸ h.stored, h.evidence.keeps hKeeps⟩

theorem mergeWitness_ready {fromNode : TrustNode} (witness : GraphWitness) :
    Ensures (EdgeReady start evidenceID fromNode) (mergeWitness witness)
      fun _ => EdgeReady start evidenceID fromNode := by
  refine .read fun found => ?_
  cases found with
  | some row => exact .require fun _ => .pure fun _ h => h
  | none =>
      refine .seq ?_ fun _ => .pure fun _ h => h
      intro db h u db' hRun
      obtain ⟨witnesses, -, rfl⟩ := insertWitness_ok hRun
      exact ⟨⟨h.edges.nodes, h.edges.active, h.edges.located, h.edges.unique, h.edges.records⟩,
        h.stored, h.evidence⟩

theorem mergeTrustEdge_located {edge : TrustEdge} {fromNode : TrustNode}
    (hFrom : fromNode.id = edge.fromID) (hEvidence : edge.evidenceID = evidenceID) :
    Ensures (EdgeReady start evidenceID fromNode) (mergeTrustEdge edge) fun _ => LocatedEdges start := by
  subst hEvidence
  refine .gets fun found => ?_
  cases found with
  | some row =>
      refine .require fun _ => .ite (fun _ => .pure fun _ h => h.1.edges) fun hInactive => ?_
      -- no stored edge is inactive
      refine .learn (p := False) (fun db h => hInactive ?_) False.elim
      exact (h.1.edges.active row (Table.find?_eq_some.mp h.2).1).1
  | none =>
      refine .gets fun taken => .require fun hFree => ?_
      refine .bind (R := fun _ => LocatedEdges start) ?_ fun _ => .pure fun _ h => h
      rintro db ⟨⟨h, -⟩, hTaken⟩ u db' hRun
      have hNone : ∀ row ∈ db.edges.rows, row.evidenceID ≠ edge.evidenceID := by
        rw [← hTaken] at hFree
        simpa using hFree
      have hActive := insertTrustEdge_active hRun
      obtain ⟨edges, hInsert, rfl⟩ := insertTrustEdge_ok hRun
      have hRows : edges.rows = db.edges.rows ++ [edgeRow edge] :=
        (Table.insert?_eq_some.mp hInsert).2
      refine ⟨h.edges.nodes, fun row hRow => ?_, fun row hRow => ?_, fun row hRow other hOther => ?_,
        h.edges.records⟩
      · rw [hRows, List.mem_append, List.mem_singleton] at hRow
        rcases hRow with hRow | rfl
        · exact h.edges.active row hRow
        · exact ⟨rfl, hActive⟩
      · rw [hRows, List.mem_append, List.mem_singleton] at hRow
        rcases hRow with hRow | rfl
        · exact h.edges.located row hRow
        · exact ⟨fromNode, h.stored, hFrom, h.evidence⟩
      · intro hSame
        rw [hRows, List.mem_append, List.mem_singleton] at hRow hOther
        rcases hRow with hRow | rfl
        · rcases hOther with hOther | rfl
          · exact h.edges.unique row hRow other hOther hSame
          · exact absurd hSame (hNone row hRow)
        · rcases hOther with hOther | rfl
          · exact absurd hSame.symm (hNone other hOther)
          · rfl

end Statements

/-! ## The writers -/

section Writers

variable {keccak : Keccak} {start : DB}

theorem save_located (observation : TrustRootObservation) :
    Ensures (LocatedEdges start) (save keccak observation) fun _ => LocatedEdges start := by
  have hNew : Ensures (LocatedEdges start) (saveNew keccak observation) fun _ => LocatedEdges start :=
    .read fun _ => .expect fun _ _ => .expect fun _ _ => .require fun _ =>
      .seq (locatedEdges_of_within (insertEvidence_keeps _)) fun _ =>
      .seq (locatedEdges_of_within (activateEvidence_keeps _ _ _)) fun _ =>
      .seq (locatedEdges_of_within (insertObservation_keeps _)) fun _ =>
      .seq (mergeTrustNode_located _) fun _ =>
      .seq (locatedEdges_of_within bumpGraphRevision_keeps) fun _ => .pure fun _ h => h
  refine .check fun _ _ => .require fun _ => .require fun _ => .read fun _ =>
    .seq (locatedEdges_of_within (scanObservation_keeps keccak _)) fun found => ?_
  cases found with
  | some persisted => exact .require fun _ => .pure fun _ h => h
  | none =>
      refine .read fun _ =>
        .seq (locatedEdges_of_within (scanObservation_keeps keccak _)) fun found => ?_
      cases found with
      | some persisted => exact .require fun _ => .pure fun _ h => h
      | none => exact hNew

theorem createTrustViewSnapshot_located (request : SnapshotRequest) :
    Ensures (LocatedEdges start) (createTrustViewSnapshot keccak request) fun _ => LocatedEdges start := by
  have hLoad : ∀ id, Ensures (LocatedEdges start) (loadActiveTrustNode id) fun _ => LocatedEdges start :=
    fun _ => locatedEdges_of_within (.bind .gets fun _ => .expect)
  refine .require fun _ => .require fun _ => .read fun _ => .read fun _ => .expect fun _ _ =>
    .require fun _ => .seq (hLoad _) fun _ => .seq (hLoad _) fun _ => .require fun _ =>
    .require fun _ => .read fun found => ?_
  cases found with
  | some existing => exact .pure fun _ h => h
  | none =>
      refine .read fun _ => .require fun _ => .read fun _ => .read fun _ =>
        .bind (.modify fun db h => ?_) fun _ => .pure fun _ h => h
      exact ⟨h.nodes, h.active, h.located, h.unique, h.records⟩

variable {block : ConfirmedBlock} {material : DependencyMaterialization}

/-- What `bindMaterial` has checked about the evidence of the edge. -/
theorem bindMaterial_locates {P : DB → Prop} :
    Ensures P (bindMaterial keccak block material) fun _ db => P db ∧
      (evidenceLocatorMatchesNode material.evidence.locator material.fromNode ∧
        material.fromNode.id = material.edge.fromID ∧
        material.edge.evidenceID = material.evidence.id) := by
  refine .require fun hIDs => .require fun hLocator => .require fun _ =>
    .require_last fun hNodes db hP => ⟨hP, ?_, hNodes.1, hIDs.2.2.2.1⟩
  exact ⟨hLocator.2.1.trans hNodes.2.2.2.1.symm, hLocator.2.2.2.1.trans hNodes.2.2.2.2.1.symm,
    hLocator.2.2.2.2.trans hNodes.2.2.2.2.2.symm⟩

theorem insertEvidenceIfAbsent_stored {P : DB → Prop} (row : EvidenceRecord)
    (hP : ∀ db db', KeepsEvidence db db' → P db → P db') :
    Ensures P (insertEvidenceIfAbsent row)
      fun inserted db => P db ∧ (inserted = true → row ∈ db.evidence.rows) := by
  refine .read fun found => ?_
  cases found with
  | some _ => exact .pure fun _ h => ⟨h, fun hFalse => absurd hFalse Bool.false_ne_true⟩
  | none =>
      refine .bind (R := fun _ db => P db ∧ row ∈ db.evidence.rows) ?_
        fun _ => .pure fun _ h => ⟨h.1, fun _ => h.2⟩
      intro db h u db' hRun
      refine ⟨hP db db' (insertEvidence_keeps row db u db' hRun) h, ?_⟩
      obtain ⟨-, evidence, hInsert, rfl⟩ := insertEvidence_ok hRun
      rw [(Table.insert?_eq_some.mp hInsert).2]
      exact List.mem_append_right _ (List.mem_singleton_self row)

/-- Whether it was stored before or not, the evidence of the dependency is there afterwards, with
the locator of the dependency. -/
theorem applyEvidence_ready
    (hLocates : evidenceLocatorMatchesNode material.evidence.locator material.fromNode) :
    Ensures (fun db => LocatedEdges start db ∧ material.fromNode ∈ db.nodes.rows)
      (applyEvidence material) fun _ => EdgeReady start material.evidence.id material.fromNode := by
  refine .bind (insertEvidenceIfAbsent_stored _ ?_) fun inserted => .ite (fun hInserted => ?_)
    fun _ => ?_
  · intro db db' hKeeps h
    exact ⟨h.1.keeps hKeeps, hKeeps.nodes ▸ h.2⟩
  · refine .pre (P := EdgeReady start material.evidence.id material.fromNode) ?_
      (.seq (edgeReady_of_within (activateEvidence_keeps _ _ _)) fun _ => .pure fun _ h => h)
    rintro db ⟨⟨hEdges, hFrom⟩, hStored⟩
    exact ⟨hEdges, hFrom, _, hStored hInserted, rfl, hLocates⟩
  · refine .bind (R := fun persisted db => (LocatedEdges start db ∧ material.fromNode ∈ db.nodes.rows) ∧
      persisted ∈ db.evidence.rows ∧ persisted.id = material.evidence.id) ?_
      fun persisted => .require fun hSame => .pure fun db h => ?_
    · refine .gets fun found => .expect fun record hFound => .require fun _ => .pure fun db h => ?_
      rw [hFound] at h
      exact ⟨h.1.1, Table.find?_eq_some.mp h.2⟩
    · refine ⟨h.1.1, h.1.2, persisted, h.2.1, h.2.2, ?_⟩
      rw [hSame.1]
      exact hLocates

theorem applyDependencyMaterialization_located :
    Ensures (LocatedEdges start) (applyDependencyMaterialization keccak block material)
      fun _ => LocatedEdges start := by
  refine .bind bindMaterial_locates fun _ => .fact fun hBound => ?_
  obtain ⟨hLocates, hFrom, hEvidence⟩ := hBound
  have hKept : ∀ {α : Type} {m : DBTx α}, Within KeepsEvidence m →
      Ensures (fun db => LocatedEdges start db ∧ material.fromNode ∈ db.nodes.rows) m
        fun _ db => LocatedEdges start db ∧ material.fromNode ∈ db.nodes.rows :=
    fun hm => .of_within hm fun _ _ hKeeps h => ⟨h.1.keeps hKeeps, hKeeps.nodes ▸ h.2⟩
  exact .bind (verifyActiveNodeContent_mem _) fun _ =>
    .seq (hKept (verifyActiveNodeContent_keeps _)) fun _ =>
    .seq (hKept (verifyDependencyReceiptAndResolution_keeps block material)) fun _ =>
    .require fun _ => .seq (hKept (verifyDependencyIndexedLog_keeps block material)) fun _ =>
    .bind (applyEvidence_ready hLocates) fun _ => .require fun _ =>
    .seq (mergeWitness_ready _) fun _ =>
    .bind (mergeTrustEdge_located hFrom hEvidence) fun _ => .pure fun _ h => h

theorem applyDependencies_located {p : Primitives} {outbox : Option Outbox}
    {materials : List DependencyMaterialization} :
    Ensures (LocatedEdges start) (applyDependencies p outbox block materials) fun _ => LocatedEdges start := by
  induction materials with
  | nil => exact .pure fun _ h => h
  | cons material materials ih =>
      refine .seq (.read fun existed => .seq applyDependencyMaterialization_located fun _ => ?_)
        fun _ => .seq ih fun _ => .pure fun _ h => h
      cases outbox with
      | none => exact .pure fun _ h => h
      | some outbox =>
          refine .ite (fun _ => .pure fun _ h => h) fun _ => ?_
          exact .seq (locatedEdges_of_within
            (enqueueActiveEvidenceOutbox_keeps block p outbox material)) fun _ => .pure fun _ h => h

theorem applyConfirmedBlock_located {p : Primitives} {outbox : Option Outbox} :
    Ensures (LocatedEdges start) (applyConfirmedBlock p outbox block) fun _ => LocatedEdges start :=
  .require fun _ => .seq (locatedEdges_of_within (requireIndexerConfig_keeps block)) fun _ =>
    .seq (locatedEdges_of_within (blockCursor_keeps block)) fun _ =>
    .seq (locatedEdges_of_within (.anyChanged (insertIndexedGatewayLog_keeps block))) fun _ =>
    .seq (locatedEdges_of_within (.anyChanged (insertObservedRequest_keeps p.keccak))) fun _ =>
    .seq (locatedEdges_of_within (.anyChanged (applyReceipt_keeps block))) fun _ =>
    .seq (locatedEdges_of_within (.anyChanged (applyResolution_keeps block))) fun _ =>
    .require fun _ => .require fun _ => .seq applyDependencies_located fun _ =>
    .require fun _ => .seq (locatedEdges_of_within (.when bumpGraphRevision_keeps)) fun _ =>
    .seq (locatedEdges_of_within (.when (updateCursor_keeps _))) fun _ => .pure fun _ h => h

/-- `Activate` accepts a locator of the home block only. -/
theorem RemoteValidation.bindEdge_locates {v : RemoteValidation} {edge : TrustEdge}
    (hBind : v.bindEdge keccak = .ok edge) :
    evidenceLocatorMatchesNode v.record.locator (v.homeObservation.node keccak) := by
  simp only [RemoteValidation.bindEdge, Checks.check_bind_eq_ok, Checks.require_eq_ok] at hBind
  obtain ⟨-, -, -, hNodes, -⟩ := hBind
  exact ⟨hNodes.2.1.symm, hNodes.2.2.1.symm, hNodes.2.2.2.1.symm⟩

theorem activate_located {messageID : Bytes32} {v : RemoteValidation} :
    Ensures (LocatedEdges start) (activate keccak messageID v) fun _ => LocatedEdges start := by
  refine .check fun edge hBind => .read fun _ => .expect fun _ _ => .require fun _ =>
    .require fun _ => .gets fun found => .expect fun record hFound => .require fun hSame =>
    .require fun _ => ?_
  have hLocates := RemoteValidation.bindEdge_locates hBind
  have hEdge := (RemoteValidation.bindEdge_ok hBind).edge
  obtain ⟨-, rfl⟩ := newTrustEdge_eq_ok.mp hEdge
  refine .pre (P := fun db => LocatedEdges start db ∧
    EvidenceLocates db v.record.id (v.homeObservation.node keccak)) ?_ ?_
  · rintro db ⟨hEdges, hFind⟩
    rw [hFound] at hFind
    obtain ⟨hMem, hID⟩ := Table.find?_eq_some.mp hFind
    exact ⟨hEdges, record, hMem, hID, hSame ▸ hLocates⟩
  · refine .bind (verifyActiveNodeContent_mem _) fun _ => .pre
      (P := EdgeReady start v.record.id (v.homeObservation.node keccak)) (fun db h => ⟨h.1.1, h.2, h.1.2⟩) ?_
    exact .seq (edgeReady_of_within (verifyActiveNodeContent_keeps _)) fun _ =>
      .seq (edgeReady_of_within (.when (activateEvidence_keeps _ _ _))) fun _ =>
      .seq (mergeWitness_ready _) fun _ => .bind (mergeTrustEdge_located rfl rfl) fun _ =>
      .seq (locatedEdges_of_within (.when bumpGraphRevision_keeps)) fun _ =>
      .seq (locatedEdges_of_within (.when updateInbox_keeps)) fun _ => .pure fun _ h => h

end Writers

/-! ## Histories -/

/-- A write keeps the evidence of the edges. -/
theorem Write.perform_located {p : Primitives} {write : Write} {start db : DB}
    (h : LocatedEdges start db) :
    LocatedEdges start (write.perform p db) := by
  cases write with
  | save observation => exact (save_located observation).commit h
  | applyConfirmedBlock outbox block => exact applyConfirmedBlock_located.commit h
  | createSnapshot request => exact (createTrustViewSnapshot_located request).commit h
  | activate messageID v => exact activate_located.commit h
  | _ => exact h.keeps (Write.perform_keeps rfl db)

/-- What stands behind an edge: active evidence for a log in the block the edge leaves, and a witness
from the leaf of the block it leads to. -/
structure EdgeProof (keccak : Keccak) (row : EdgeRow) (record : EvidenceRecord)
    (fromNode toNode : TrustNode) (witness : GraphWitness) : Prop where
  evidenceID : record.id = row.evidenceID
  active : record.state = .active
  locates : evidenceLocatorMatchesNode record.locator fromNode
  fromID : fromNode.id = row.fromID
  toID : toNode.id = row.toID
  witnessEvidence : witness.evidenceID = row.evidenceID
  leafIndex : witness.leafIndex = row.leafIndex
  root : Internal.Proof.rootFromWitness keccak (leafHash keccak toNode.root toNode.key.blockHash)
    witness.leafIndex witness.siblings (UInt8.ofNat witness.siblings.length) = .ok fromNode.root

/-- The two invariants together are the proof of an edge. -/
theorem LocatedEdges.edgeProof {keccak : Keccak} {start db : DB} (h : LocatedEdges start db)
    (hMaterial : MaterialInvariant keccak db) {row : EdgeRow} (hRow : row ∈ db.edges.rows) :
    ∃ record ∈ db.evidence.rows, ∃ fromNode ∈ db.activeNodes, ∃ toNode ∈ db.activeNodes,
      ∃ witness ∈ db.witnesses.rows, EdgeProof keccak row record fromNode toNode witness := by
  obtain ⟨active, hActive, hActiveID, hState⟩ := DB.evidenceActive_iff.mp (h.active row hRow).2
  obtain ⟨locating, hLocating, hLocatingID, record, hRecord, hRecordID, hLocates⟩ :=
    h.located row hRow
  obtain ⟨witnessID, fromNode, hFrom, toNode, hTo, witness, hWitness, hBacking⟩ :=
    hMaterial.edges row hRow
  -- both ways to the node and to the record lead to the same row
  obtain rfl : fromNode = locating :=
    Table.eq_of_key hFrom hLocating (hBacking.fromID.trans hLocatingID.symm)
  obtain rfl : record = active :=
    Table.eq_of_key hRecord hActive (hRecordID.trans hActiveID.symm)
  refine ⟨record, hRecord, fromNode, h.nodes.mem_activeNodes hFrom, toNode,
    h.nodes.mem_activeNodes hTo, witness, hWitness, ?_⟩
  exact {
    evidenceID := hRecordID
    active := hState
    locates := hLocates
    fromID := hBacking.fromID
    toID := hBacking.toID
    witnessEvidence := hBacking.evidenceID
    leafIndex := hBacking.leafIndex
    root := by
      rw [hBacking.leafIndex]
      exact hBacking.root }

theorem run_located (p : Primitives) (writes : List Write) :
    LocatedEdges DB.empty (run p writes DB.empty) ∧
      MaterialInvariant p.keccak (run p writes DB.empty) := by
  refine run_invariant (P := fun db => LocatedEdges DB.empty db ∧ MaterialInvariant p.keccak db)
    (fun write _ db h => ?_) ⟨locatedEdges_empty, materialInvariant_empty⟩
  exact ⟨Write.perform_located h.1, Write.perform_material h.1.nodes h.2⟩

/-- After every history of writes, every active edge has its proof and no two edges share one. The
next write loses no evidence, and changes its state only along `ValidateTransition`; active evidence
stays active. -/
theorem run_edges_proven (p : Primitives) (writes : List Write) :
    let db := run p writes DB.empty
    (∀ row ∈ db.edges.rows, row.active →
      ∃ record ∈ db.evidence.rows, ∃ fromNode ∈ db.activeNodes, ∃ toNode ∈ db.activeNodes,
        ∃ witness ∈ db.witnesses.rows, EdgeProof p.keccak row record fromNode toNode witness) ∧
    (∀ row ∈ db.edges.rows, ∀ other ∈ db.edges.rows,
      row.evidenceID = other.evidenceID → row = other) ∧
    ∀ write : Write, ∀ record ∈ db.evidence.rows,
      ∃ record' ∈ (write.perform p db).evidence.rows, record'.id = record.id ∧
        record'.locator = record.locator ∧
        Relation.ReflTransGen EvidenceState.Moves record.state record'.state ∧
        (record.state = .active → record'.state = .active) := by
  intro db
  obtain ⟨hLocated, hMaterial⟩ := run_located p writes
  refine ⟨fun row hRow _ => hLocated.edgeProof hMaterial hRow, hLocated.unique, ?_⟩
  intro write record hMem
  have hNext : LocatedEdges db (write.perform p db) := Write.perform_located hLocated.restart
  obtain ⟨record', hMem', hLater⟩ := hNext.records record hMem
  refine ⟨record', hMem', hLater.id, hLater.locator, hLater.state, fun hActive => ?_⟩
  exact EvidenceState.eq_active_of_moves (hActive ▸ hLater.state)

end TrustMap.Mapnode.Store
