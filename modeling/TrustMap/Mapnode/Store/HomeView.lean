import TrustMap.Mapnode.Store.Write

/-!
The part of the database that gossip does not own. Gossip owns the rows of the evidence it has
received; the home view leaves these rows out. The writes of the home node run on the view as they
run on the whole database, as long as their own evidence was not received by gossip.
-/

namespace TrustMap.Mapnode.Store

open Transaction

/-- The evidence received by gossip, and the byte strings whose hashes identify rows. -/
structure Gossip where
  keccak : Keccak
  received : List EvidenceID
  inputs : Set Bytes
  injOn : Set.InjOn keccak inputs

/-- The bytes hashed for the identifier of a stored edge. -/
def EdgeRow.encoded (row : EdgeRow) : Bytes :=
  edgeEncoded row.fromID row.toID row.evidenceID row.leafIndex

namespace Gossip

variable (g : Gossip)

/-- Whether the evidence was not received by gossip. -/
def ours (id : EvidenceID) : Bool :=
  id ∉ g.received

/-- The database without the rows of received evidence, without the inbox and the snapshots, and
with the revision forgotten. -/
def view (db : DB) : DB :=
  { db with
    evidence := db.evidence.filter fun row => g.ours row.id
    transitions := db.transitions.filter fun row => g.ours row.evidenceID
    revision := 0
    edges := db.edges.filter fun row => g.ours row.evidenceID
    witnesses := db.witnesses.filter fun row => g.ours row.evidenceID
    inbox := .empty
    snapshots := .empty }

/-- What holds of the rows of received evidence, and a bound on the revision. Nodes are never
bound to received evidence. -/
structure Apart (n : ℕ) (db : DB) : Prop where
  evidence : ∀ row ∈ db.evidence.rows, ¬ g.ours row.id →
    row.locator.computeID g.keccak = .ok row.id
  edges : ∀ row ∈ db.edges.rows, ¬ g.ours row.evidenceID →
    g.keccak row.encoded = row.id ∧ row.encoded ∈ g.inputs
  witnesses : ∀ row ∈ db.witnesses.rows, ¬ g.ours row.evidenceID →
    g.keccak row.encoded = row.id ∧ row.encoded ∈ g.inputs
  nodes : ∀ node ∈ db.nodes.rows, g.ours node.evidenceID
  inbox : ∀ row ∈ db.inbox.rows, ¬ g.ours row.evidenceID
  revision : db.revision ≤ n

/-- Two databases that differ only in what gossip owns. -/
abbrev Same (n : ℕ) : DB → DB → Prop :=
  SameView g.view (g.Apart n)

/-- A transaction of the home node: it has the same outcome in databases that differ only in what
gossip owns, and they still do so afterwards. -/
abbrev Home {α : Type} (n : ℕ) (m : DBTx α) : Prop :=
  Respects (g.Same n) m (g.Same n)

variable {g} {n : ℕ}

/-! ## Reading through the view -/

section Reads

variable {db : DB} {id : EvidenceID}

theorem view_observations : (g.view db).observations = db.observations := rfl

theorem view_nodes : (g.view db).nodes = db.nodes := rfl

theorem view_find?_evidence (hID : g.ours id) :
    (g.view db).evidence.find? id = db.evidence.find? id := by
  apply Table.rows_find?_filter
  intro row _ hRow
  rwa [of_decide_eq_true hRow]

theorem view_evidenceActive (hID : g.ours id) :
    (g.view db).evidenceActive id = db.evidenceActive id := by
  apply Table.any_filter
  intro row _ hRow
  rwa [(of_decide_eq_true hRow).1]

/-- Gossip owns no node. -/
theorem view_activeNodes (h : g.Apart n db) : (g.view db).activeNodes = db.activeNodes := by
  refine List.filter_congr fun node hNode => ?_
  exact view_evidenceActive (h.nodes node hNode)

theorem view_edgeAdmissible {fromID toID : NodeID} (hID : g.ours id) :
    (g.view db).edgeAdmissible fromID toID id ↔ db.edgeAdmissible fromID toID id := by
  unfold DB.edgeAdmissible
  rw [view_evidenceActive hID]
  exact Iff.rfl

end Reads

/-! ## The statements of the home node -/

section Statements

/-- A statement that changes none of the tables `Apart` speaks about. -/
theorem Apart.of_eq {db db' : DB} (h : g.Apart n db) (hEvidence : db'.evidence = db.evidence)
    (hEdges : db'.edges = db.edges) (hWitnesses : db'.witnesses = db.witnesses)
    (hNodes : db'.nodes = db.nodes) (hInbox : db'.inbox = db.inbox)
    (hRevision : db'.revision = db.revision) : g.Apart n db' where
  evidence := hEvidence ▸ h.evidence
  edges := hEdges ▸ h.edges
  witnesses := hWitnesses ▸ h.witnesses
  nodes := hNodes ▸ h.nodes
  inbox := hInbox ▸ h.inbox
  revision := hRevision ▸ h.revision

/-- A received row is not in the way of an own one. -/
theorem insertEvidence_home {row : EvidenceRecord} (hID : g.ours row.id)
    (hLocator : ∀ id, row.locator.computeID g.keccak = .ok id → g.ours id) :
    g.Home n (insertEvidence row) := by
  apply SameView.respects
  · intro db h
    -- a received row with the same locator would have the identifier of that locator
    have hTaken : (∃ other ∈ (g.view db).evidence.rows, other.locator = row.locator) ↔
        ∃ other ∈ db.evidence.rows, other.locator = row.locator := by
      apply Table.exists_filter
      intro other hMem hSame
      by_contra hReceived
      exact hReceived (hLocator other.id (hSame ▸ h.evidence other hMem hReceived))
    have hInsert : (db.evidence.filter fun other => g.ours other.id).insert? row =
        (db.evidence.insert? row).map fun evidence => evidence.filter fun other =>
          g.ours other.id :=
      Table.filter_insert? hID fun other _ hReceived hKey => hReceived (hKey ▸ hID)
    unfold insertEvidence
    rw [if_congr hTaken rfl rfl]
    split
    · rfl
    · simp only [view, hInsert]
      cases db.evidence.insert? row <;> rfl
  · intro db h u db' hRun
    obtain ⟨-, evidence, hInsert, rfl⟩ := insertEvidence_ok hRun
    refine ⟨?_, h.edges, h.witnesses, h.nodes, h.inbox, h.revision⟩
    intro other hMem hReceived
    rw [(Table.insert?_eq_some.mp hInsert).2, List.mem_append, List.mem_singleton] at hMem
    rcases hMem with hMem | rfl
    · exact h.evidence other hMem hReceived
    · exact absurd hID hReceived

theorem updateEvidenceState_home {id : EvidenceID} (hID : g.ours id)
    (fromState toState : EvidenceState) (reason : Option String) :
    g.Home n (updateEvidenceState id fromState toState reason) := by
  apply SameView.respects
  · intro db h
    have hAny : ((g.view db).evidence.rows.any fun row => row.id = id ∧ row.state = fromState) =
        db.evidence.rows.any fun row => row.id = id ∧ row.state = fromState := by
      apply Table.any_filter
      intro row _ hRow
      rwa [(of_decide_eq_true hRow).1]
    have hModify : (db.evidence.modify id (fun row => EvidenceRecord.move row toState reason)
          (EvidenceRecord.move_id toState reason)).filter (fun row => g.ours row.id) =
        (db.evidence.filter fun row => g.ours row.id).modify id
          (fun row => EvidenceRecord.move row toState reason)
          (EvidenceRecord.move_id toState reason) :=
      Table.filter_modify fun _ _ _ => rfl
    unfold updateEvidenceState
    rw [hAny, view_observations]
    split
    · split
      · rfl
      · simp only [Except.map, Prod.map, id_eq, view, hModify]
    · rfl
  · intro db h changed db' hRun
    obtain rfl | ⟨-, rfl⟩ := updateEvidenceState_ok hRun
    · exact h
    refine ⟨?_, h.edges, h.witnesses, h.nodes, h.inbox, h.revision⟩
    intro other hMem hReceived
    rw [Table.mem_modify] at hMem
    rcases hMem with ⟨hMem, -⟩ | ⟨stored, -, hKey, rfl⟩
    · exact h.evidence other hMem hReceived
    · exact absurd (hKey ▸ hID) hReceived

theorem insertEvidenceIfAbsent_home {row : EvidenceRecord} (hID : g.ours row.id)
    (hLocator : ∀ id, row.locator.computeID g.keccak = .ok id → g.ours id) :
    g.Home n (insertEvidenceIfAbsent row) := by
  refine .bind (SameView.gets fun _ _ => view_find?_evidence hID) fun found => ?_
  cases found with
  | some _ => exact .pure
  | none => exact .bind (insertEvidence_home hID hLocator) fun _ => .pure

theorem insertTransition_home {row : EvidenceTransition} (hID : g.ours row.evidenceID) :
    g.Home n (insertTransition row) := by
  apply SameView.respects
  · intro db h
    have hInsert : (db.transitions.filter fun other => g.ours other.evidenceID).insert? row =
        (db.transitions.insert? row).map fun transitions =>
          transitions.filter fun other => g.ours other.evidenceID :=
      Table.filter_insert? hID fun other _ hReceived hKey => by
        rw [(Prod.mk.inj hKey).1] at hReceived
        exact hReceived hID
    unfold insertTransition
    simp only [view, hInsert]
    cases db.transitions.insert? row <;> rfl
  · intro db h u db' hRun
    obtain ⟨transitions, -, rfl⟩ := insertTransition_ok hRun
    exact h.of_eq rfl rfl rfl rfl rfl rfl

theorem activateEvidence_home {id : EvidenceID} (hID : g.ours id) (counted : Bool)
    (reason : String) : g.Home n (activateEvidence counted id reason) := by
  have hStep : ∀ fromState toState, g.Home n (advanceEvidence counted id reason fromState
      toState) :=
    fun fromState toState => .bind (updateEvidenceState_home hID fromState toState none) fun _ =>
      .bind .require fun _ => insertTransition_home hID
  exact .bind (hStep _ _) fun _ => .bind (hStep _ _) fun _ => hStep _ _

theorem loadActiveEvidence_home {id : EvidenceID} (hID : g.ours id) :
    g.Home n (loadActiveEvidence id) :=
  .bind (SameView.gets fun _ _ => view_find?_evidence hID) fun _ => .bind .expect fun _ =>
    .bind .require fun _ => .pure

theorem loadActiveTrustNode_home (id : NodeID) : g.Home n (loadActiveTrustNode id) :=
  .bind (SameView.gets fun _ h => by rw [view_activeNodes h]) fun _ => .expect

theorem verifyActiveNodeContent_home (node : TrustNode) :
    g.Home n (verifyActiveNodeContent node) :=
  .bind (loadActiveTrustNode_home node.id) fun _ => .require

/-- A row of our evidence does not share its identifier with a row of received evidence. -/
theorem Apart.edge_ne {db : DB} (h : g.Apart n db) {row other : EdgeRow}
    (hOurs : g.ours row.evidenceID)
    (hHash : g.keccak row.encoded = row.id) (hInput : row.encoded ∈ g.inputs)
    (hMem : other ∈ db.edges.rows) (hReceived : ¬ g.ours other.evidenceID) : other.id ≠ row.id := by
  intro hID
  obtain ⟨hHash', hInput'⟩ := h.edges other hMem hReceived
  have hSame := g.injOn hInput' hInput (hHash'.trans (hID.trans hHash.symm))
  rw [edgeEncoded_evidenceID hSame] at hReceived
  exact hReceived hOurs

theorem Apart.witness_ne {db : DB} (h : g.Apart n db) {row other : GraphWitness}
    (hOurs : g.ours row.evidenceID) (hHash : g.keccak row.encoded = row.id)
    (hInput : row.encoded ∈ g.inputs) (hMem : other ∈ db.witnesses.rows)
    (hReceived : ¬ g.ours other.evidenceID) : other.id ≠ row.id := by
  intro hID
  obtain ⟨hHash', hInput'⟩ := h.witnesses other hMem hReceived
  have hSame := g.injOn hInput' hInput (hHash'.trans (hID.trans hHash.symm))
  rw [witnessEncoded_evidenceID hSame] at hReceived
  exact hReceived hOurs

theorem insertWitness_home {witness : GraphWitness} (hOurs : g.ours witness.evidenceID)
    (hHash : g.keccak witness.encoded = witness.id) (hInput : witness.encoded ∈ g.inputs) :
    g.Home n (insertWitness witness) := by
  apply SameView.respects
  · intro db h
    have hTaken : (∃ other ∈ (g.view db).witnesses.rows, other.evidenceID = witness.evidenceID) ↔
        ∃ other ∈ db.witnesses.rows, other.evidenceID = witness.evidenceID := by
      apply Table.exists_filter
      intro other _ hSame
      rwa [hSame]
    have hInsert : (db.witnesses.filter fun other => g.ours other.evidenceID).insert? witness =
        (db.witnesses.insert? witness).map fun witnesses =>
          witnesses.filter fun other => g.ours other.evidenceID :=
      Table.filter_insert? hOurs fun other hMem hReceived =>
        h.witness_ne hOurs hHash hInput hMem hReceived
    unfold insertWitness
    rw [if_congr hTaken rfl rfl]
    split
    · rfl
    · simp only [view, hInsert]
      cases db.witnesses.insert? witness <;> rfl
  · intro db h u db' hRun
    obtain ⟨witnesses, hInsert, rfl⟩ := insertWitness_ok hRun
    refine ⟨h.evidence, h.edges, ?_, h.nodes, h.inbox, h.revision⟩
    intro other hMem hReceived
    rw [(Table.insert?_eq_some.mp hInsert).2, List.mem_append, List.mem_singleton] at hMem
    rcases hMem with hMem | rfl
    · exact h.witnesses other hMem hReceived
    · exact absurd hOurs hReceived

theorem mergeWitness_home {witness : GraphWitness} (hOurs : g.ours witness.evidenceID)
    (hHash : g.keccak witness.encoded = witness.id) (hInput : witness.encoded ∈ g.inputs) :
    g.Home n (mergeWitness witness) := by
  refine .bind (SameView.gets fun _ _ => Table.rows_find?_filter fun row _ hRow => ?_) fun found =>
    ?_
  · rwa [of_decide_eq_true hRow]
  cases found with
  | some row => exact .bind .require fun _ => .pure
  | none => exact .bind (insertWitness_home hOurs hHash hInput) fun _ => .pure

theorem insertTrustEdge_home {edge : TrustEdge} (hOurs : g.ours edge.evidenceID)
    (hHash : g.keccak (edgeRow edge).encoded = edge.id)
    (hInput : (edgeRow edge).encoded ∈ g.inputs) :
    g.Home n (insertTrustEdge edge) := by
  apply SameView.respects
  · intro db h
    have hInsert : (db.edges.filter fun other => g.ours other.evidenceID).insert? (edgeRow edge) =
        (db.edges.insert? (edgeRow edge)).map fun edges =>
          edges.filter fun other => g.ours other.evidenceID :=
      Table.filter_insert? hOurs fun other hMem hReceived =>
        h.edge_ne hOurs hHash hInput hMem hReceived
    unfold insertTrustEdge
    rw [if_congr (and_congr_right fun _ => view_edgeAdmissible hOurs) rfl rfl]
    split
    · simp only [view, hInsert]
      cases db.edges.insert? (edgeRow edge) <;> rfl
    · rfl
  · intro db h u db' hRun
    obtain ⟨edges, hInsert, rfl⟩ := insertTrustEdge_ok hRun
    refine ⟨h.evidence, ?_, h.witnesses, h.nodes, h.inbox, h.revision⟩
    intro other hMem hReceived
    rw [(Table.insert?_eq_some.mp hInsert).2, List.mem_append, List.mem_singleton] at hMem
    rcases hMem with hMem | rfl
    · exact h.edges other hMem hReceived
    · exact absurd hOurs hReceived

theorem Apart.activateTrustEdge {db db' : DB} (h : g.Apart n db) {row : EdgeRow} {u : Unit}
    (hRun : activateTrustEdge row db = .ok (u, db')) : g.Apart n db' := by
  obtain rfl := activateTrustEdge_ok hRun
  refine ⟨h.evidence, ?_, h.witnesses, h.nodes, h.inbox, h.revision⟩
  intro other hMem hReceived
  rw [Table.mem_modify] at hMem
  rcases hMem with ⟨hMem, -⟩ | ⟨stored, hMem, -, rfl⟩
  · exact h.edges other hMem hReceived
  · exact h.edges stored hMem hReceived

theorem activateTrustEdge_home {row : EdgeRow} (hOurs : g.ours row.evidenceID) :
    g.Home n (activateTrustEdge row) := by
  apply SameView.respects
  · intro db h
    have hModify : (db.edges.modify row.id EdgeRow.activate EdgeRow.activate_id).filter
          (fun other => g.ours other.evidenceID) =
        (db.edges.filter fun other => g.ours other.evidenceID).modify row.id EdgeRow.activate
          EdgeRow.activate_id :=
      Table.filter_modify fun _ _ _ => rfl
    unfold Store.activateTrustEdge
    rw [if_congr (view_edgeAdmissible hOurs) rfl rfl]
    split
    · simp only [Except.map, Prod.map, id_eq, view, hModify]
    · rfl
  · intro db h u db' hRun
    exact h.activateTrustEdge hRun

theorem mergeTrustEdge_home {edge : TrustEdge} (hOurs : g.ours edge.evidenceID)
    (hHash : g.keccak (edgeRow edge).encoded = edge.id)
    (hInput : (edgeRow edge).encoded ∈ g.inputs) :
    g.Home n (mergeTrustEdge edge) := by
  refine .bind (SameView.gets fun db h => Table.rows_find?_filter fun row hMem hRow => ?_)
    fun found => ?_
  · by_contra hReceived
    exact h.edge_ne hOurs hHash hInput hMem hReceived (of_decide_eq_true hRow)
  cases found with
  | some row =>
      refine .require_bind fun hSame => .ite (fun _ => .pure) fun _ => ?_
      exact .bind (activateTrustEdge_home (by rwa [hSame.2.2.1])) fun _ => .pure
  | none =>
      refine .bind (SameView.gets fun db h => Table.any_filter fun row _ hRow => ?_) fun _ =>
        .bind .require fun _ => .bind (insertTrustEdge_home hOurs hHash hInput) fun _ => .pure
      rwa [of_decide_eq_true hRow]

/-- The revision counts at most one more per write. -/
theorem bumpGraphRevision_home (hRoom : n < maxInt64) :
    Respects (g.Same n) bumpGraphRevision (g.Same (n + 1)) := by
  intro s t h
  have hStep : ∀ db, g.Apart n db →
      bumpGraphRevision db = .ok ((), { db with revision := db.revision + 1 }) := by
    intro db hApart
    unfold bumpGraphRevision
    rw [if_pos (hApart.revision.trans_lt hRoom)]
  have hApart : ∀ db, g.Apart n db → g.Apart (n + 1) { db with revision := db.revision + 1 } :=
    fun db h => ⟨h.evidence, h.edges, h.witnesses, h.nodes, h.inbox, Nat.succ_le_succ h.revision⟩
  rw [hStep s h.left, hStep t h.right]
  exact .ok () ⟨hApart s h.left, hApart t h.right, h.view⟩

theorem Apart.mono {db : DB} {k : ℕ} (h : g.Apart n db) (hLe : n ≤ k) : g.Apart k db :=
  ⟨h.evidence, h.edges, h.witnesses, h.nodes, h.inbox, h.revision.trans hLe⟩

theorem same_succ {s t : DB} (h : g.Same n s t) : g.Same (n + 1) s t :=
  ⟨h.left.mono n.le_succ, h.right.mono n.le_succ, h.view⟩

end Statements

/-! ## Observations -/

section Observations

theorem insertObservation_home {row : ObservationRow} (hOurs : g.ours row.evidenceID) :
    g.Home n (insertObservation row) := by
  apply SameView.respects
  · intro db h
    unfold insertObservation
    have hEvidence : ∀ q : EvidenceRecord → Prop,
        (∃ evidence ∈ (g.view db).evidence.rows, evidence.id = row.evidenceID ∧ q evidence) ↔
          ∃ evidence ∈ db.evidence.rows, evidence.id = row.evidenceID ∧ q evidence := by
      intro q
      apply Table.exists_filter
      intro evidence _ hRow
      rwa [hRow.1]
    rw [if_congr (or_congr Iff.rfl (not_congr (hEvidence _))) rfl rfl, view_observations]
    split
    · rfl
    · cases db.observations.insert? row <;> rfl
  · intro db h u db' hRun
    unfold insertObservation at hRun
    repeat' split at hRun
    all_goals cases hRun <;> exact h.of_eq rfl rfl rfl rfl rfl rfl

theorem insertTrustNode_home {node : TrustNode} (hOurs : g.ours node.evidenceID) :
    g.Home n (insertTrustNode node) := by
  apply SameView.respects
  · intro db h
    unfold insertTrustNode
    rw [view_evidenceActive hOurs, view_nodes]
    split
    · rfl
    · cases db.nodes.insert? node <;> rfl
  · intro db h u db' hRun
    obtain ⟨-, nodes, hInsert, rfl⟩ := insertTrustNode_ok hRun
    refine ⟨h.evidence, h.edges, h.witnesses, ?_, h.inbox, h.revision⟩
    intro other hMem
    rw [(Table.insert?_eq_some.mp hInsert).2, List.mem_append, List.mem_singleton] at hMem
    rcases hMem with hMem | rfl
    · exact h.nodes other hMem
    · exact hOurs

theorem mergeTrustNode_home {node : TrustNode} (hOurs : g.ours node.evidenceID) :
    g.Home n (mergeTrustNode node) := by
  refine .bind (SameView.gets fun _ _ => rfl) fun found => ?_
  cases found with
  | some row => exact .bind .require fun _ => .bind .require fun _ => .bind .require fun _ => .pure
  | none => exact .bind (insertTrustNode_home hOurs) fun _ => .pure

theorem saveNew_home {observation : TrustRootObservation}
    (hOurs : g.ours (observation.syntheticEvidence g.keccak).id) (hRoom : n < maxInt64) :
    Respects (g.Same n) (saveNew g.keccak observation) (g.Same (n + 1)) := by
  have hLocator : ∀ id,
      (observation.syntheticEvidence g.keccak).locator.computeID g.keccak = .ok id → g.ours id := by
    intro id hID
    have hValid := (Locator.computeID_eq_ok.mp hID).1
    exact absurd rfl (Locator.validate_eq_ok.mp hValid).2.2.2.1
  exact .bind (SameView.gets fun _ _ => rfl) fun _ => .bind .expect fun _ => .bind .expect fun _ =>
    .bind .require fun _ => .bind (insertEvidence_home hOurs hLocator) fun _ =>
    .bind (activateEvidence_home hOurs _ _) fun _ => .bind (insertObservation_home hOurs) fun _ =>
    .bind (mergeTrustNode_home hOurs) fun _ => .bind (bumpGraphRevision_home hRoom) fun _ => .pure

/-- Saving an own observation. -/
theorem save_home {observation : TrustRootObservation}
    (hOurs : g.ours (observation.syntheticEvidence g.keccak).id) (hRoom : n < maxInt64) :
    Respects (g.Same n) (save g.keccak observation) (g.Same (n + 1)) := by
  have hScan : ∀ row, g.Home n (scanObservation g.keccak row) := by
    intro row
    cases row with
    | none => exact .pure
    | some row => exact .bind .require fun _ => .pure
  have hDone : ∀ {p : Prop} [Decidable p] {e : StoreError}
      {a : TrustRootObservation × TrustNode × Bool},
      Respects (g.Same n) (do require p e; return a) (g.Same (n + 1)) :=
    .bind .require fun _ => Respects.pure.mono fun _ _ => same_succ
  refine .bind .check fun _ => .bind .require fun _ => .bind .require fun _ =>
    .bind (SameView.gets fun _ _ => rfl) fun _ => .bind (hScan _) fun found => ?_
  cases found with
  | some persisted => exact hDone
  | none =>
      refine .bind (SameView.gets fun _ _ => rfl) fun _ => .bind (hScan _) fun found => ?_
      cases found with
      | some persisted => exact hDone
      | none => exact saveNew_home hOurs hRoom

end Observations

/-! ## Setup and confirmed blocks -/

section ConfirmedBlock

/-- An update of tables that gossip has no part in. -/
theorem modify_home {f : DB → DB} (hView : ∀ db, g.view (f db) = f (g.view db))
    (hApart : ∀ db, g.Apart n db → g.Apart n (f db)) : g.Home n (modify f : DBTx PUnit) :=
  SameView.modify (fun db _ => hView db) hApart

theorem sync_home (registry : Registry) : g.Home n (sync registry) := by
  have hInsert : ∀ entry, g.Home n (insertLiveChain entry) := by
    intro entry
    apply SameView.respects
    · intro db _
      have hRows : (g.view db).liveChains = db.liveChains := rfl
      unfold insertLiveChain
      rw [hRows]
      cases db.liveChains.insert? ⟨entry, none⟩ with
      | none => rfl
      | some liveChains => dsimp only; split <;> rfl
    · intro db h u db' hRun
      unfold insertLiveChain at hRun
      repeat' split at hRun
      all_goals cases hRun <;> exact h.of_eq rfl rfl rfl rfl rfl rfl
  refine .bind (.anyChanged fun entry _ => ?_) fun _ =>
    .bind (SameView.gets fun _ _ => rfl) fun _ => .require
  exact .bind .require fun _ => .bind (hInsert entry) fun _ =>
    .bind (SameView.gets fun _ _ => rfl) fun _ => .bind .expect fun _ => .bind .require fun _ =>
      .pure

theorem bindDeployment_home (chainID : Bytes32) (deployment : LiveDeployment) :
    g.Home n (bindDeployment chainID deployment) := by
  refine .bind .require fun _ => .bind (SameView.gets fun _ _ => rfl) fun _ =>
    .bind .expect fun persisted => ?_
  cases persisted.deployment with
  | none => exact modify_home (fun _ => rfl) fun _ h => h.of_eq rfl rfl rfl rfl rfl rfl
  | some bound => exact .require

theorem configure_home (config : IndexerConfig) : g.Home n (configure config) := by
  refine .bind .require fun _ => .bind (SameView.gets fun _ _ => rfl) fun _ =>
    .bind .expect fun _ =>
    .bind .require fun _ => .bind (SameView.gets fun _ _ => rfl) fun found => ?_
  cases found with
  | none => exact modify_home (fun _ => rfl) fun _ h => h.of_eq rfl rfl rfl rfl rfl rfl
  | some persisted => exact .require

theorem initializeCursor_home (cursor : CanonicalCursor) : g.Home n (initializeCursor cursor) := by
  refine .bind .require fun _ => .bind (SameView.gets fun _ _ => rfl) fun found => ?_
  cases found with
  | some persisted => exact .require
  | none =>
      refine .bind (SameView.gets fun _ _ => rfl) fun _ => .bind .expect fun _ => ?_
      exact modify_home (fun _ => rfl) fun _ h => h.of_eq rfl rfl rfl rfl rfl rfl

theorem insertIndexedGatewayLog_home (block : ConfirmedBlock) (item : IndexedGatewayLog) :
    g.Home n (insertIndexedGatewayLog block item) := by
  refine .bind .require fun _ => .bind (SameView.gets fun _ _ => rfl) fun found => ?_
  cases found with
  | some row => exact .bind .require fun _ => .pure
  | none =>
      exact .bind (modify_home (fun _ => rfl) fun _ h => h.of_eq rfl rfl rfl rfl rfl rfl) fun _ =>
        .pure

theorem insertObservedRequest_home (keccak : Keccak) (request : Request) :
    g.Home n (insertObservedRequest keccak request) := by
  have hInsert : g.Home n (insertRequest request) := by
    apply SameView.respects
    · intro db _
      have hRows : (g.view db).requests = db.requests := rfl
      unfold insertRequest
      rw [hRows]
      split
      · rfl
      · cases db.requests.insert? request <;> rfl
    · intro db h changed db' hRun
      unfold insertRequest at hRun
      repeat' split at hRun
      all_goals
        cases hRun
        exact h.of_eq rfl rfl rfl rfl rfl rfl
  exact .bind .require fun _ => .bind .require fun _ => .bind hInsert fun _ =>
    .bind (SameView.gets fun _ _ => rfl) fun _ => .bind .expect fun _ => .bind .require fun _ =>
      .pure

theorem applyReceipt_home (block : ConfirmedBlock) (receipt : VerificationReceiptRecord) :
    g.Home n (applyReceipt block receipt) := by
  have hInsert : ∀ row, g.Home n (insertReceiptRow row) := by
    intro row
    apply SameView.respects
    · intro db _
      have hRows : (g.view db).receipts = db.receipts := rfl
      have hRequests : (g.view db).requests = db.requests := rfl
      unfold insertReceiptRow
      rw [hRows, hRequests]
      cases db.receipts.insert? row with
      | none => rfl
      | some receipts => dsimp only; split <;> rfl
    · intro db h changed db' hRun
      unfold insertReceiptRow at hRun
      repeat' split at hRun
      all_goals cases hRun <;> exact h.of_eq rfl rfl rfl rfl rfl rfl
  refine .bind .require fun _ => .bind (hInsert _) fun _ => .bind ?_ fun _ => .pure
  exact .bind (SameView.gets fun _ _ => rfl) fun _ => .bind .expect fun _ => .require

theorem applyResolution_home (block : ConfirmedBlock) (resolution : RequestResolutionRecord) :
    g.Home n (applyResolution block resolution) := by
  have hInsert : ∀ row, g.Home n (insertResolutionRow row) := by
    intro row
    apply SameView.respects
    · intro db _
      have hRows : (g.view db).resolutions = db.resolutions := rfl
      have hReceipts : (g.view db).receipts = db.receipts := rfl
      have hRequests : (g.view db).requests = db.requests := rfl
      unfold insertResolutionRow
      rw [hRows, hReceipts, hRequests]
      cases db.resolutions.insert? row with
      | none => rfl
      | some resolutions => dsimp only; split <;> rfl
    · intro db h changed db' hRun
      unfold insertResolutionRow at hRun
      repeat' split at hRun
      all_goals cases hRun <;> exact h.of_eq rfl rfl rfl rfl rfl rfl
  have hPersisted : g.Home n (verifyPersistedResolution block.chainID resolution) :=
    .bind (SameView.gets fun _ _ => rfl) fun _ => .bind .expect fun _ => .require
  have hLog : g.Home n (verifyResolutionIndexedLog block resolution) :=
    .bind (SameView.gets fun _ _ => rfl) fun _ => .bind .expect fun _ => .bind .require fun _ =>
      .bind .check fun _ => .bind .require fun _ => .bind (SameView.gets fun _ _ => rfl) fun _ =>
      .bind .expect fun _ => .require
  exact .bind (hInsert _) fun _ => .bind hPersisted fun _ => .bind hLog fun _ => .pure

/-- A dependency of the home node: its evidence was not received by gossip, and the encodings of its
edge and its witness are among the known inputs of the hash. -/
structure Own (g : Gossip) (material : DependencyMaterialization) : Prop where
  evidence : g.ours material.evidence.id
  edge : (edgeRow material.edge).encoded ∈ g.inputs
  witness : material.witness.encoded ∈ g.inputs

section Dependency

variable {block : ConfirmedBlock} {material : DependencyMaterialization}

theorem verifyDependencyReceiptAndResolution_home :
    g.Home n (verifyDependencyReceiptAndResolution block material) :=
  .bind (SameView.gets fun _ _ => rfl) fun _ => .bind .expect fun _ =>
    .bind (SameView.gets fun _ _ => rfl) fun _ => .bind .expect fun _ => .require

theorem verifyDependencyIndexedLog_home : g.Home n (verifyDependencyIndexedLog block material) :=
  .bind (SameView.gets fun _ _ => rfl) fun _ => .bind .expect fun _ => .bind .require fun _ =>
    .bind .check fun _ => .require

theorem applyEvidence_home (hOurs : g.ours material.evidence.id)
    (hID : material.evidence.locator.computeID g.keccak = .ok material.evidence.id) :
    g.Home n (applyEvidence material) := by
  have hLocator : ∀ id, material.evidence.locator.computeID g.keccak = .ok id → g.ours id := by
    intro id hID'
    obtain rfl : material.evidence.id = id := Except.ok.inj (hID.symm.trans hID')
    exact hOurs
  refine .bind (insertEvidenceIfAbsent_home hOurs hLocator) fun inserted =>
    .ite (fun _ => ?_) fun _ => ?_
  · exact .bind (activateEvidence_home hOurs _ _) fun _ => .pure
  · exact .bind (loadActiveEvidence_home hOurs) fun _ => .bind .require fun _ => .pure

theorem bindMaterial_home :
    Respects (g.Same n) (bindMaterial g.keccak block material)
      fun s t => g.Same n s t ∧ BoundMaterial g.keccak block material := by
  have hBind : g.Home n (bindMaterial g.keccak block material) :=
    .bind .require fun _ => .bind .require fun _ => .bind .require fun _ => .require
  exact hBind.and_fact (bindMaterial_bound.mono fun _ _ h => h.2)

/-- Merging an own dependency. -/
theorem applyDependencyMaterialization_home (hOwn : g.Own material) :
    g.Home n (applyDependencyMaterialization g.keccak block material) := by
  refine .bind bindMaterial_home fun _ => .fact fun hBound => ?_
  have hEdge := (TrustEdge.validate_eq_ok.mp hBound.edge).2
  refine .bind (verifyActiveNodeContent_home _) fun _ =>
    .bind (verifyActiveNodeContent_home _) fun _ =>
    .bind verifyDependencyReceiptAndResolution_home fun _ => .bind .require fun _ =>
    .bind verifyDependencyIndexedLog_home fun _ =>
    .bind (applyEvidence_home hOwn.evidence hBound.evidenceID) fun _ =>
      .require_bind fun hWitness =>
    .bind (mergeWitness_home ?_ ?_ hOwn.witness) fun _ =>
    .bind (mergeTrustEdge_home ?_ hEdge hOwn.edge) fun _ => .pure
  · rw [hBound.witnessEvidence]
    exact hOwn.evidence
  · rw [GraphWitness.encoded, hBound.witnessEvidence]
    exact hWitness.1
  · rw [hBound.edgeEvidence]
    exact hOwn.evidence

theorem enqueueActiveEvidenceOutbox_home {p : Primitives} {outbox : Outbox}
    (hOurs : g.ours material.evidence.id) :
    g.Home n (enqueueActiveEvidenceOutbox p outbox block material) := by
  refine .bind .require fun _ => .bind verifyDependencyReceiptAndResolution_home fun _ =>
    .bind verifyDependencyIndexedLog_home fun _ =>
    .bind (SameView.gets fun _ _ => view_find?_evidence hOurs) fun _ => .bind .expect fun _ =>
    .bind .require fun _ => .bind (SameView.gets fun _ _ => rfl) fun found => ?_
  cases found with
  | some row => exact .bind .check fun _ => .bind .require fun _ => .pure
  | none =>
      refine .bind .check fun _ => .bind .check fun _ =>
        .bind (SameView.gets fun _ _ => rfl) fun _ =>
        .bind .require fun _ => .bind ?_ fun _ => .pure
      exact modify_home (fun _ => rfl) fun _ h => h.of_eq rfl rfl rfl rfl rfl rfl

end Dependency

theorem applyDependencies_home {p : Primitives} (hKeccak : p.keccak = g.keccak)
    {outbox : Option Outbox} {block : ConfirmedBlock} {materials : List DependencyMaterialization}
    (hOwn : ∀ material ∈ materials, g.Own material) :
    g.Home n (applyDependencies p outbox block materials) := by
  have hStep : ∀ material, g.Own material → g.Home n (applyDependency p outbox block material) := by
    intro material hOwn
    unfold applyDependency
    rw [hKeccak]
    refine .bind (SameView.gets fun _ _ => by rw [view_find?_evidence hOwn.evidence]) fun existed =>
      .bind (applyDependencyMaterialization_home hOwn) fun changed => ?_
    cases outbox with
    | none => exact .pure
    | some outbox =>
        refine .ite (fun _ => .pure) fun _ => ?_
        exact .bind (enqueueActiveEvidenceOutbox_home hOwn.evidence) fun _ => .pure
  induction materials with
  | nil => exact .pure
  | cons material materials ih =>
      refine .bind (hStep material (hOwn material List.mem_cons_self)) fun _ => ?_
      exact .bind (ih fun other hMem => hOwn other (List.mem_cons_of_mem material hMem)) fun _ =>
        .pure

/-- A confirmed block whose dependencies were not received by gossip is applied with the same
outcome whatever gossip has written. -/
theorem applyConfirmedBlock_home {p : Primitives} (hKeccak : p.keccak = g.keccak)
    {outbox : Option Outbox} {block : ConfirmedBlock}
    (hOwn : ∀ material ∈ block.dependencies, g.Own material) (hRoom : n < maxInt64) :
    Respects (g.Same n) (applyConfirmedBlock p outbox block) (g.Same (n + 1)) := by
  have hConfig : g.Home n (requireIndexerConfig block) :=
    .bind (SameView.gets fun _ _ => rfl) fun _ => .bind .expect fun _ => .require
  have hCursor : g.Home n (blockCursor block) := by
    refine .bind (SameView.gets fun _ _ => rfl) fun _ => .bind .expect fun current =>
      .bind .require fun _ => .ite (fun _ => ?_) fun _ => ?_
    · exact .bind .require fun _ => .pure
    · exact .bind .require fun _ => .bind .check fun _ => .pure
  have hUpdate : ∀ advanced, g.Home (n + 1) (updateCursor advanced) :=
    fun advanced => modify_home (fun _ => rfl) fun _ h => h.of_eq rfl rfl rfl rfl rfl rfl
  exact .bind .require fun _ => .bind hConfig fun _ => .bind hCursor fun _ =>
    .bind (.anyChanged fun item _ => insertIndexedGatewayLog_home block item) fun _ =>
    .bind (.anyChanged fun request _ => insertObservedRequest_home p.keccak request) fun _ =>
    .bind (.anyChanged fun receipt _ => applyReceipt_home block receipt) fun _ =>
    .bind (.anyChanged fun resolution _ => applyResolution_home block resolution) fun _ =>
    .bind .require fun _ => .bind .require fun _ =>
    .bind (applyDependencies_home hKeccak hOwn) fun _ => .bind .require fun _ =>
    .bind (.when (bumpGraphRevision_home hRoom) fun _ _ => same_succ) fun _ =>
    .bind (.when (hUpdate _) fun _ _ h => h) fun _ => .pure

end ConfirmedBlock

end Gossip

end TrustMap.Mapnode.Store
