import TrustMap.Mapnode.Store.GraphInvariant

/-!
The witnesses of the stored graph as an invariant of the database: every edge, also in a snapshot,
has a stored witness that leads from the leaf of the node it points to up to the root of the node it
leaves. The depth is the one of the chain that recorded the edge.
-/

namespace TrustMap.Mapnode.Store

open Transaction

/-- The witness leads from the leaf of `toNode` to the root of `fromNode`, over as many levels as it
has siblings. -/
structure Backing (keccak : Keccak) (edge : TrustEdge) (fromNode toNode : TrustNode)
    (witness : GraphWitness) : Prop where
  fromID : fromNode.id = edge.fromID
  toID : toNode.id = edge.toID
  witnessID : edge.witnessID = some witness.id
  evidenceID : witness.evidenceID = edge.evidenceID
  leafIndex : witness.leafIndex = edge.leafIndex
  hash : (newGraphWitness keccak edge.evidenceID edge.leafIndex witness.siblings).id = witness.id
  root : Internal.Proof.rootFromWitness keccak (leafHash keccak toNode.root toNode.key.blockHash)
    edge.leafIndex witness.siblings (UInt8.ofNat witness.siblings.length) = .ok fromNode.root

/-- An edge between two of the nodes that is backed by one of the witnesses. -/
def Backed (keccak : Keccak) (nodes : List TrustNode) (witnesses : List GraphWitness)
    (edge : TrustEdge) : Prop :=
  ∃ fromNode ∈ nodes, ∃ toNode ∈ nodes, ∃ witness ∈ witnesses,
    Backing keccak edge fromNode toNode witness

/-- Every stored edge and every edge of a snapshot is backed, evidence has one witness, and every
witness is the one of an edge. -/
structure MaterialInvariant (keccak : Keccak) (db : DB) : Prop where
  edges : ∀ row ∈ db.edges.rows, ∃ witnessID,
    Backed keccak db.nodes.rows db.witnesses.rows (row.edge witnessID)
  used : ∀ witness ∈ db.witnesses.rows, ∃ row ∈ db.edges.rows, row.evidenceID = witness.evidenceID
  unique : ∀ witness ∈ db.witnesses.rows, ∀ other ∈ db.witnesses.rows,
    witness.evidenceID = other.evidenceID → witness = other
  snapshots : ∀ snapshot ∈ db.snapshots.rows, ∀ edge ∈ snapshot.edges,
    Backed keccak snapshot.nodes db.witnesses.rows edge

variable {edge : TrustEdge}

section Invariant

variable {keccak : Keccak} {db db' : DB}

theorem Backed.mono {nodes nodes' : List TrustNode} {witnesses witnesses' : List GraphWitness}
    (h : Backed keccak nodes witnesses edge) (hNodes : ∀ node ∈ nodes, node ∈ nodes')
    (hWitnesses : ∀ witness ∈ witnesses, witness ∈ witnesses') :
    Backed keccak nodes' witnesses' edge := by
  obtain ⟨fromNode, hFrom, toNode, hTo, witness, hWitness, hBacking⟩ := h
  exact ⟨fromNode, hNodes _ hFrom, toNode, hNodes _ hTo, witness, hWitnesses _ hWitness, hBacking⟩

theorem materialInvariant_empty : MaterialInvariant keccak DB.empty := by
  constructor
  all_goals simp [DB.empty]

theorem MaterialInvariant.keeps (h : MaterialInvariant keccak db) (hKeeps : KeepsMaterial db db') :
    MaterialInvariant keccak db' := by
  constructor
  · rw [hKeeps.edges, hKeeps.nodes, hKeeps.witnesses]
    exact h.edges
  · rw [hKeeps.edges, hKeeps.witnesses]
    exact h.used
  · rw [hKeeps.witnesses]
    exact h.unique
  · rw [hKeeps.snapshots, hKeeps.witnesses]
    exact h.snapshots

/-- The edges of the moment carry their witnesses. -/
theorem MaterialInvariant.edgeOf_backed (h : MaterialInvariant keccak db) {row : EdgeRow}
    (hRow : row ∈ db.edges.rows) :
    Backed keccak db.nodes.rows db.witnesses.rows (db.edgeOf row) := by
  obtain ⟨witnessID, fromNode, hFrom, toNode, hTo, witness, hWitness, hBacking⟩ := h.edges row hRow
  have hOwn : witness.evidenceID = row.evidenceID := hBacking.evidenceID
  have hFind : (db.witnesses.rows.find? fun stored => stored.evidenceID = row.evidenceID) =
      some witness := by
    cases hStored : db.witnesses.rows.find? fun stored => stored.evidenceID = row.evidenceID with
    | none =>
        have hEvidence := List.find?_eq_none.mp hStored witness hWitness
        exact absurd hOwn (by simpa using hEvidence)
    | some stored =>
        have hEvidence : stored.evidenceID = row.evidenceID := by simpa using List.find?_some hStored
        rw [h.unique stored (List.mem_of_find?_eq_some hStored) witness hWitness
          (hEvidence.trans hOwn.symm)]
  refine ⟨fromNode, hFrom, toNode, hTo, witness, hWitness, hBacking.fromID, hBacking.toID, ?_,
    hBacking.evidenceID, hBacking.leafIndex, hBacking.hash, hBacking.root⟩
  simp [DB.edgeOf, EdgeRow.edge, hFind]

/-- A snapshot of the moment has backed edges. -/
theorem MaterialInvariant.snapshotEdges_backed (h : MaterialInvariant keccak db)
    (hNodes : NodesActive db) (hEdge : edge ∈ db.snapshotEdges) :
    Backed keccak db.snapshotNodes db.witnesses.rows edge := by
  obtain ⟨row, hRow, -, rfl⟩ := mem_activeEdges.mp (mem_snapshotEdges.mp hEdge)
  obtain ⟨fromNode, hFrom, toNode, hTo, witness, hWitness, hBacking⟩ := h.edgeOf_backed hRow
  exact ⟨_, mem_snapshotNodes.mpr ⟨fromNode, hNodes.mem_activeNodes hFrom, rfl⟩,
    _, mem_snapshotNodes.mpr ⟨toNode, hNodes.mem_activeNodes hTo, rfl⟩, witness, hWitness,
    hBacking.fromID, hBacking.toID, hBacking.witnessID, hBacking.evidenceID, hBacking.leafIndex,
    hBacking.hash, hBacking.root⟩

end Invariant

/-! ## The statements that change the material -/

variable {p : Primitives}

section Writers

variable {keccak : Keccak}

theorem materialInvariant_of_within {α : Type} {m : DBTx α} (hm : Within KeepsEvidence m) :
    Ensures (MaterialInvariant keccak) m fun _ => MaterialInvariant keccak :=
  .of_within hm fun _ _ hKeeps h => h.keeps hKeeps.toKeepsMaterial

theorem mergeTrustNode_material (node : TrustNode) :
    Ensures (MaterialInvariant keccak) (mergeTrustNode node) fun _ => MaterialInvariant keccak := by
  refine .read fun found => ?_
  cases found with
  | some row =>
      exact materialInvariant_of_within
        (.bind .require fun _ => .bind .require fun _ => .bind .require fun _ => .pure)
  | none =>
      refine .seq ?_ fun _ => .pure fun _ h => h
      intro db h u db' hRun
      obtain ⟨-, nodes, hInsert, rfl⟩ := insertTrustNode_ok hRun
      refine ⟨fun row hRow => ?_, h.used, h.unique, h.snapshots⟩
      obtain ⟨witnessID, hBacked⟩ := h.edges row hRow
      refine ⟨witnessID, hBacked.mono (fun other hOther => ?_) fun _ hWitness => hWitness⟩
      rw [(Table.insert?_eq_some.mp hInsert).2]
      exact List.mem_append_left _ hOther

/-- The invariant between the statements for the witness and for the edge: the evidence had a witness
before, or it has just got its first one. -/
def WitnessMerged (keccak : Keccak) (fromNode toNode : TrustNode) (witness : GraphWitness)
    (db : DB) : Prop :=
  (MaterialInvariant keccak db ∧
      ∃ stored ∈ db.witnesses.rows, stored.evidenceID = witness.evidenceID) ∨
    ∃ before, MaterialInvariant keccak before ∧ fromNode ∈ before.nodes.rows ∧
      toNode ∈ before.nodes.rows ∧
      (∀ stored ∈ before.witnesses.rows, stored.evidenceID ≠ witness.evidenceID) ∧
      ∃ witnesses, witnesses.rows = before.witnesses.rows ++ [witness] ∧
        db = { before with witnesses }

theorem mergeWitness_merged {fromNode toNode : TrustNode} (witness : GraphWitness) :
    Ensures (fun db => MaterialInvariant keccak db ∧ fromNode ∈ db.nodes.rows ∧
        toNode ∈ db.nodes.rows)
      (mergeWitness witness) fun _ => WitnessMerged keccak fromNode toNode witness := by
  refine .gets fun found => ?_
  cases found with
  | some stored =>
      refine .require fun _ => .pure fun db h => Or.inl ⟨h.1.1, stored, ?_, ?_⟩
      · exact List.mem_of_find?_eq_some h.2
      · simpa using List.find?_some h.2
  | none =>
      refine .bind (R := fun _ => WitnessMerged keccak fromNode toNode witness) ?_
        fun _ => .pure fun _ h => h
      rintro db ⟨⟨h, hFrom, hTo⟩, hNone⟩ u db' hRun
      obtain ⟨witnesses, hInsert, rfl⟩ := insertWitness_ok hRun
      have hFresh : ∀ stored ∈ db.witnesses.rows, stored.evidenceID ≠ witness.evidenceID := by
        simpa using hNone
      exact Or.inr ⟨db, h, hFrom, hTo, hFresh, witnesses, (Table.insert?_eq_some.mp hInsert).2, rfl⟩

theorem activateTrustEdge_material (row : EdgeRow) :
    Ensures (MaterialInvariant keccak) (activateTrustEdge row)
      fun _ => MaterialInvariant keccak := by
  intro db h u db' hRun
  obtain rfl := activateTrustEdge_ok hRun
  refine ⟨fun row' hRow' => ?_, fun witness hWitness => ?_, h.unique, h.snapshots⟩
  · rw [Table.mem_modify] at hRow'
    rcases hRow' with ⟨hStored, -⟩ | ⟨stored, hStored, -, rfl⟩
    · exact h.edges row' hStored
    · exact h.edges stored hStored
  · obtain ⟨stored, hStored, hEvidence⟩ := h.used witness hWitness
    by_cases hSame : stored.id = row.id
    · refine ⟨stored.activate, ?_, hEvidence⟩
      rw [Table.mem_modify]
      exact Or.inr ⟨stored, hStored, hSame, rfl⟩
    · refine ⟨stored, ?_, hEvidence⟩
      rw [Table.mem_modify]
      exact Or.inl ⟨hStored, hSame⟩

/-- A new edge comes with the first witness of its evidence: evidence that had one before has an edge
already. -/
theorem mergeTrustEdge_material {fromNode toNode : TrustNode} {witness : GraphWitness}
    (hBacking : Backing keccak edge fromNode toNode witness) :
    Ensures (WitnessMerged keccak fromNode toNode witness) (mergeTrustEdge edge)
      fun _ => MaterialInvariant keccak := by
  refine .gets fun found => ?_
  cases found with
  | some row =>
      refine .require fun hSame => ?_
      refine .pre (P := MaterialInvariant keccak) ?_ ?_
      · rintro db ⟨⟨h, -⟩ | ⟨before, h, -, -, hFresh, witnesses, -, rfl⟩, hFind⟩
        · exact h
        · -- the stored edge has a witness of its own
          obtain ⟨hRow, -⟩ := Table.find?_eq_some.mp hFind
          obtain ⟨witnessID, _, -, _, -, stored, hStored, hOther⟩ := h.edges row hRow
          refine absurd ?_ (hFresh stored hStored)
          exact hOther.evidenceID.trans (hSame.2.2.1.trans hBacking.evidenceID.symm)
      · refine .ite (fun _ => .pure fun _ h => h) fun _ => ?_
        exact .seq (activateTrustEdge_material row) fun _ => .pure fun _ h => h
  | none =>
      refine .gets fun taken => .require fun hFree => ?_
      refine .bind (R := fun _ => MaterialInvariant keccak) ?_ fun _ => .pure fun _ h => h
      rintro db ⟨⟨hMerged, -⟩, hTaken⟩ u db' hRun
      have hNone : ∀ row ∈ db.edges.rows, row.evidenceID ≠ edge.evidenceID := by
        rw [← hTaken] at hFree
        simpa using hFree
      rcases hMerged with ⟨h, stored, hStored, hEvidence⟩ |
        ⟨before, h, hFrom, hTo, hFresh, witnesses, hRows, rfl⟩
      · obtain ⟨row, hRow, hUsed⟩ := h.used stored hStored
        exact absurd (hUsed.trans (hEvidence.trans hBacking.evidenceID)) (hNone row hRow)
      · obtain ⟨edges, hInsert, rfl⟩ := insertTrustEdge_ok hRun
        have hEdges := (Table.insert?_eq_some.mp hInsert).2
        have hOld : ∀ stored ∈ before.witnesses.rows, stored ∈ witnesses.rows := by
          intro stored hStored
          rw [hRows]
          exact List.mem_append_left _ hStored
        have hNew : witness ∈ witnesses.rows := by
          rw [hRows]
          exact List.mem_append_right _ (List.mem_singleton_self witness)
        constructor
        case edges =>
          intro row hRow
          rw [hEdges, List.mem_append, List.mem_singleton] at hRow
          rcases hRow with hRow | rfl
          · obtain ⟨witnessID, hBacked⟩ := h.edges row hRow
            exact ⟨witnessID, hBacked.mono (fun _ hNode => hNode) hOld⟩
          · exact ⟨edge.witnessID, fromNode, hFrom, toNode, hTo, witness, hNew, hBacking.fromID,
              hBacking.toID, hBacking.witnessID, hBacking.evidenceID, hBacking.leafIndex,
              hBacking.hash, hBacking.root⟩
        case used =>
          intro stored hStored
          rw [hRows, List.mem_append, List.mem_singleton] at hStored
          rw [hEdges]
          rcases hStored with hStored | rfl
          · obtain ⟨row, hRow, hUsed⟩ := h.used stored hStored
            exact ⟨row, List.mem_append_left _ hRow, hUsed⟩
          · exact ⟨edgeRow edge, List.mem_append_right _ (List.mem_singleton_self _),
              hBacking.evidenceID.symm⟩
        case unique =>
          intro stored hStored other hOther hEvidence
          rw [hRows, List.mem_append, List.mem_singleton] at hStored hOther
          rcases hStored with hStored | rfl
          · rcases hOther with hOther | rfl
            · exact h.unique stored hStored other hOther hEvidence
            · exact absurd hEvidence (hFresh stored hStored)
          · rcases hOther with hOther | rfl
            · exact absurd hEvidence.symm (hFresh other hOther)
            · rfl
        case snapshots =>
          intro snapshot hSnapshot other hOther
          exact (h.snapshots snapshot hSnapshot other hOther).mono (fun _ hNode => hNode) hOld

theorem createTrustViewSnapshot_material (request : SnapshotRequest) :
    Ensures (fun db => NodesActive db ∧ MaterialInvariant keccak db)
      (createTrustViewSnapshot keccak request) fun _ => MaterialInvariant keccak := by
  have hLoad : ∀ id, Ensures (fun db => NodesActive db ∧ MaterialInvariant keccak db)
      (loadActiveTrustNode id) fun _ db => NodesActive db ∧ MaterialInvariant keccak db :=
    fun id => .of_within (R := Eq) (.bind .gets fun _ => .expect) fun _ _ hEq h => hEq ▸ h
  refine .require fun _ => .require fun _ => .read fun revision => .read fun _ =>
    .expect fun persisted _ => .require fun _ => .seq (hLoad _) fun start =>
    .seq (hLoad _) fun target => .require fun _ => .require fun _ => .read fun found => ?_
  cases found with
  | some existing => exact .pure fun _ h => h.2
  | none =>
      refine .read fun _ => .require fun _ => .gets fun nodes =>
        .gets fun edges => .bind (.modify ?_) fun _ => .pure fun _ h => h
      rintro db ⟨⟨⟨hNodes, h⟩, rfl⟩, rfl⟩
      refine ⟨h.edges, h.used, h.unique, fun snapshot hMem edge hEdge => ?_⟩
      rcases Table.mem_insertIgnore hMem with hMem | rfl
      · exact h.snapshots snapshot hMem edge hEdge
      · exact h.snapshotEdges_backed hNodes hEdge

theorem save_material (observation : TrustRootObservation) :
    Ensures (MaterialInvariant keccak) (save keccak observation)
      fun _ => MaterialInvariant keccak := by
  have hNew : Ensures (MaterialInvariant keccak) (saveNew keccak observation)
      fun _ => MaterialInvariant keccak :=
    .read fun _ => .expect fun _ _ => .expect fun _ _ => .require fun _ =>
      .seq (materialInvariant_of_within (insertEvidence_keeps _)) fun _ =>
      .seq (materialInvariant_of_within (activateEvidence_keeps _ _ _)) fun _ =>
      .seq (materialInvariant_of_within (insertObservation_keeps _)) fun _ =>
      .seq (mergeTrustNode_material _) fun _ =>
      .seq (materialInvariant_of_within bumpGraphRevision_keeps) fun _ => .pure fun _ h => h
  refine .check fun _ _ => .require fun _ => .require fun _ => .read fun _ =>
    .seq (materialInvariant_of_within (scanObservation_keeps keccak _)) fun found => ?_
  cases found with
  | some persisted => exact .require fun _ => .pure fun _ h => h
  | none =>
      refine .read fun _ => .seq (materialInvariant_of_within (scanObservation_keeps keccak _)) fun found => ?_
      cases found with
      | some persisted => exact .require fun _ => .pure fun _ h => h
      | none => exact hNew

/-- The invariant while an edge between two stored nodes is being written. -/
def MaterialWithNodes (keccak : Keccak) (fromNode toNode : TrustNode) (db : DB) : Prop :=
  MaterialInvariant keccak db ∧ fromNode ∈ db.nodes.rows ∧ toNode ∈ db.nodes.rows

theorem materialWithNodes_of_within {fromNode toNode : TrustNode} {α : Type} {m : DBTx α}
    (hm : Within KeepsEvidence m) :
    Ensures (MaterialWithNodes keccak fromNode toNode) m
      fun _ => MaterialWithNodes keccak fromNode toNode :=
  .of_within hm fun _ _ hKeeps h =>
    ⟨h.1.keeps hKeeps.toKeepsMaterial, hKeeps.nodes ▸ h.2.1, hKeeps.nodes ▸ h.2.2⟩

theorem verifyActiveNodeContent_material (fromNode toNode : TrustNode) :
    Ensures (fun db => MaterialInvariant keccak db ∧ fromNode ∈ db.nodes.rows)
      (verifyActiveNodeContent toNode) fun _ => MaterialWithNodes keccak fromNode toNode :=
  (verifyActiveNodeContent_mem toNode).mono fun _ _ h => ⟨h.1.1, h.1.2, h.2⟩

variable {block : ConfirmedBlock}

/-- The edge of a dependency is backed by its witness, at the depth of the block. -/
theorem BoundMaterial.backing {material : DependencyMaterialization}
    (hBound : BoundMaterial keccak block material)
    (hRoot : Internal.Proof.rootFromWitness keccak (leafHash keccak material.dependency.sourceTrustRoot material.dependency.sourceBlockHash) material.witness.leafIndex material.witness.siblings block.merkleDepth = .ok material.fromNode.root)
    (hHash : (newGraphWitness keccak material.evidence.id material.witness.leafIndex material.witness.siblings).id = material.witness.id)
    (hLength : material.witness.siblings.length = block.merkleDepth.toNat) :
    Backing keccak material.edge material.fromNode material.toNode material.witness := by
  obtain ⟨hBlockHash, hTrustRoot⟩ := VerifiedDependency.validate_leaf hBound.dependency
  have hLeaf : material.witness.leafIndex = material.edge.leafIndex :=
    hBound.witnessLeaf.trans hBound.edgeLeaf.symm
  have hDepth : UInt8.ofNat material.witness.siblings.length = block.merkleDepth := by
    rw [hLength, UInt8.ofNat_toNat]
  refine ⟨hBound.fromID, hBound.toID, hBound.witnessID,
    hBound.witnessEvidence.trans hBound.edgeEvidence.symm, hLeaf, ?_, ?_⟩
  · rw [hBound.edgeEvidence, ← hLeaf]
    exact hHash
  · rw [hDepth, ← hLeaf, ← hBlockHash, ← hTrustRoot]
    exact hRoot

theorem applyDependencyMaterialization_material {material : DependencyMaterialization} :
    Ensures (MaterialInvariant keccak) (applyDependencyMaterialization keccak block material)
      fun _ => MaterialInvariant keccak := by
  refine .bind bindMaterial_bound fun _ => .fact fun hBound => ?_
  refine .bind (verifyActiveNodeContent_mem _) fun _ =>
    .bind (verifyActiveNodeContent_material _ _) fun _ =>
    .seq (materialWithNodes_of_within (verifyDependencyReceiptAndResolution_keeps block material))
      fun _ => .require fun hRoot =>
    .seq (materialWithNodes_of_within (verifyDependencyIndexedLog_keeps block material)) fun _ =>
    .seq (materialWithNodes_of_within (applyEvidence_keeps material)) fun _ =>
    .require fun hWitness => ?_
  have hBacking := hBound.backing hRoot hWitness.1 hWitness.2
  exact .bind (mergeWitness_merged _) fun _ => .bind (mergeTrustEdge_material hBacking) fun _ =>
    .pure fun _ h => h

theorem applyDependencies_material {outbox : Option Outbox}
    {materials : List DependencyMaterialization} :
    Ensures (MaterialInvariant p.keccak) (applyDependencies p outbox block materials)
      fun _ => MaterialInvariant p.keccak := by
  induction materials with
  | nil => exact .pure fun _ h => h
  | cons material materials ih =>
      refine .seq (.read fun existed => .seq applyDependencyMaterialization_material fun changed => ?_)
        fun _ => .seq ih fun _ => .pure fun _ h => h
      cases outbox with
      | none => exact .pure fun _ h => h
      | some outbox =>
          refine .ite (fun _ => .pure fun _ h => h) fun _ => ?_
          exact .seq (materialInvariant_of_within
            (enqueueActiveEvidenceOutbox_keeps block p outbox material)) fun _ => .pure fun _ h => h

theorem applyConfirmedBlock_material {outbox : Option Outbox} :
    Ensures (MaterialInvariant p.keccak) (applyConfirmedBlock p outbox block)
      fun _ => MaterialInvariant p.keccak :=
  .require fun _ => .seq (materialInvariant_of_within (requireIndexerConfig_keeps block)) fun _ =>
    .seq (materialInvariant_of_within (blockCursor_keeps block)) fun _ =>
    .seq (materialInvariant_of_within (.anyChanged (insertIndexedGatewayLog_keeps block))) fun _ =>
    .seq (materialInvariant_of_within (.anyChanged (insertObservedRequest_keeps p.keccak))) fun _ =>
    .seq (materialInvariant_of_within (.anyChanged (applyReceipt_keeps block))) fun _ =>
    .seq (materialInvariant_of_within (.anyChanged (applyResolution_keeps block))) fun _ =>
    .require fun _ => .require fun _ => .seq applyDependencies_material fun _ =>
    .require fun _ => .seq (materialInvariant_of_within (.when bumpGraphRevision_keeps)) fun _ =>
    .seq (materialInvariant_of_within (.when (updateCursor_keeps _))) fun _ => .pure fun _ h => h

/-- The edge `Activate` builds is backed by the siblings it was given. -/
theorem RemoteValidation.bindEdge_backing {v : RemoteValidation}
    (hBind : v.bindEdge keccak = .ok edge) :
    Backing keccak edge (v.homeObservation.node keccak) (v.sourceObservation.node keccak)
      (v.witness keccak) := by
  have hBound := RemoteValidation.bindEdge_ok hBind
  obtain ⟨-, rfl⟩ := newTrustEdge_eq_ok.mp hBound.edge
  refine ⟨rfl, rfl, rfl, rfl, rfl, rfl, ?_⟩
  have hRoot := hBound.root
  rw [← hBound.sourceRoot, ← hBound.sourceHash] at hRoot
  exact hRoot

theorem activate_material {messageID : Bytes32} {v : RemoteValidation} :
    Ensures (MaterialInvariant keccak) (activate keccak messageID v)
      fun _ => MaterialInvariant keccak :=
  .check fun _ hBind => .read fun _ => .expect fun _ _ => .require fun _ => .require fun _ =>
    .read fun _ => .expect fun _ _ => .require fun _ => .require fun _ =>
    .bind (verifyActiveNodeContent_mem _) fun _ =>
    .bind (verifyActiveNodeContent_material _ _) fun _ =>
    .seq (materialWithNodes_of_within (.when (activateEvidence_keeps _ _ _))) fun _ =>
    .bind (mergeWitness_merged _) fun _ =>
    .bind (mergeTrustEdge_material (v.bindEdge_backing hBind)) fun _ =>
    .seq (materialInvariant_of_within (.when bumpGraphRevision_keeps)) fun _ =>
    .seq (materialInvariant_of_within (.when updateInbox_keeps)) fun _ => .pure fun _ h => h

end Writers

/-! ## Histories -/

/-- A write keeps the material of the graph. -/
theorem Write.perform_material {write : Write} {db : DB} (hNodes : NodesActive db)
    (h : MaterialInvariant p.keccak db) : MaterialInvariant p.keccak (write.perform p db) := by
  cases write with
  | save observation => exact (save_material observation).commit h
  | applyConfirmedBlock outbox block => exact applyConfirmedBlock_material.commit h
  | createSnapshot request =>
      exact (createTrustViewSnapshot_material request).commit_of (fun _ h => h.2) ⟨hNodes, h⟩
  | activate messageID v => exact activate_material.commit h
  | _ => exact h.keeps (Write.perform_keeps rfl db).toKeepsMaterial

/-- After every history of writes whose dependencies are across chains, the edges of the stored
snapshots are backed by stored witnesses. -/
theorem run_material {writes : List Write} (hNodes : ∀ write ∈ writes, write.NonzeroNode p.keccak)
    (hCross : ∀ write ∈ writes, write.CrossChain) :
    GraphInvariant p.keccak (run p writes DB.empty) ∧
      MaterialInvariant p.keccak (run p writes DB.empty) := by
  refine run_invariant (P := fun db => GraphInvariant p.keccak db ∧ MaterialInvariant p.keccak db)
    (fun write hMem db h => ?_) ⟨graphInvariant_empty, materialInvariant_empty⟩
  exact ⟨Write.perform_invariant (hNodes write hMem) (hCross write hMem) h.1,
    Write.perform_material h.1.nodesActive h.2⟩

end TrustMap.Mapnode.Store
