import TrustMap.Mapnode.Store.GossipIsolation
import TrustMap.Mapnode.Store.ProvenEdges

/-!
The revision of the graph. Every writer of the graph decides by itself when it raises the revision;
a snapshot is named after the revision, so the name stands for one graph only if no writer forgets.
-/

namespace TrustMap.Mapnode.Store

open Transaction

/-! ## The other public writers -/

/-- The part of `EvidenceRepository.Transition` after the request is checked. -/
def applyTransition (id : EvidenceID) (expectedFrom toState : EvidenceState) (reason : String)
    (requestedChange : Bool) : DBTx (EvidenceRecord × Bool) := do
  let row ← gets (·.evidence.find? id)
  let current ← expect row .recordNotFound
  if current.state = toState then return (current, false)
  else
    require (current.state = expectedFrom) .concurrentUpdate
    if ¬ requestedChange then return (current, false)
    else
      let changed ← updateEvidenceState id expectedFrom toState
        (some (if toState = .invalid then reason else ""))
      require changed .concurrentUpdate
      insertTransition ⟨id, expectedFrom, toState, reason⟩
      let row ← gets (·.evidence.find? id)
      let updated ← expect row .recordNotFound
      return (updated, true)

/-- `EvidenceRepository.Transition`: the record and whether it has changed. -/
def transitionEvidence (id : EvidenceID) (expectedFrom toState : EvidenceState) (reason : String) :
    DBTx (EvidenceRecord × Bool) := do
  let requestedChange ← check (expectedFrom.validateTransition toState reason) .transition
  applyTransition id expectedFrom toState reason requestedChange

/-- The checks of `MergeActiveTrustEdge` before it writes. -/
def bindTrustEdge (keccak : Keccak) (fromNode toNode : TrustNode) (edge : TrustEdge)
    (dependency : VerifiedDependency) : DBTx Unit := do
  check (fromNode.validate keccak) .trustView
  check (toNode.validate keccak) .trustView
  check (edge.validate keccak) .trustView
  require (edge.fromID = fromNode.id ∧ edge.toID = toNode.id) (.trustView .invalidTrustEdge)
  require (fromNode.key.chainID ≠ toNode.key.chainID) (.trustView .invalidTrustEdge)
  require (edge.pathStepCost.toNat ≤ maxInt64)
    (.invalidInput "path step cost exceeds SQLite INTEGER range")
  let fromEvidence ← loadActiveEvidence fromNode.evidenceID
  let toEvidence ← loadActiveEvidence toNode.evidenceID
  let edgeEvidence ← loadActiveEvidence edge.evidenceID
  require (evidenceLocatorMatchesNode fromEvidence.locator fromNode ∧
    evidenceLocatorMatchesNode toEvidence.locator toNode ∧
    evidenceLocatorMatchesNode edgeEvidence.locator fromNode ∧
    dependency.evidenceID = edge.evidenceID ∧ edge.leafIndex = dependency.leafIndex) .evidenceBinding
  require (dependency.validate keccak toNode edgeEvidence.locator.payloadDigest = .ok ())
    .evidenceBinding

/-- `MergeActiveTrustEdge`: whether the graph has changed. The edge is stored without a witness. -/
def mergeActiveTrustEdge (keccak : Keccak) (fromNode toNode : TrustNode) (edge : TrustEdge)
    (dependency : VerifiedDependency) : DBTx Bool := do
  bindTrustEdge keccak fromNode toNode edge dependency
  let fromInserted ← mergeTrustNode fromNode
  let toInserted ← mergeTrustNode toNode
  let edgeInserted ← mergeTrustEdge edge
  when (fromInserted || toInserted || edgeInserted) bumpGraphRevision
  return fromInserted || toInserted || edgeInserted

/-- `SaveMembershipWitness`: whether the witness is new. -/
def saveMembershipWitness (keccak : Keccak) (witness : GraphWitness) : DBTx Bool := do
  require (witness.id =
      (newGraphWitness keccak witness.evidenceID witness.leafIndex witness.siblings).id ∧
    witness.siblings ≠ []) (.invalidInput "invalid TrustRoot membership witness")
  let _ ← loadActiveEvidence witness.evidenceID
  let row ← gets fun db =>
    db.edges.rows.find? fun row => row.evidenceID = witness.evidenceID ∧ row.active
  let edge ← expect row .evidenceBinding
  require (edge.leafIndex = witness.leafIndex) .evidenceBinding
  match ← gets fun db => db.witnesses.rows.find? fun row => row.evidenceID = witness.evidenceID with
  | some stored =>
      require (stored.id = witness.id ∧ stored.leafIndex = witness.leafIndex ∧
        stored.siblings = witness.siblings) .graphConflict
      return false
  | none =>
      insertWitness witness
      bumpGraphRevision
      return true

/-! ## What a snapshot contains -/

/-- The nodes, edges and witnesses a snapshot of the moment contains. -/
structure GraphContent where
  nodes : List TrustNode
  edges : List TrustEdge
  witnesses : List GraphWitness
  deriving DecidableEq

def DB.graphContent (db : DB) : GraphContent where
  nodes := db.snapshotNodes
  edges := db.snapshotEdges
  witnesses := db.snapshotEdges.filterMap fun edge =>
    db.witnesses.rows.find? fun witness => witness.evidenceID = edge.evidenceID

/-- Stored nodes and active edges have active evidence, and the revision is in the range of
SQLite. -/
structure Healthy (db : DB) : Prop where
  nodes : NodesActive db
  edges : ∀ row ∈ db.edges.rows, row.active → db.evidenceActive row.evidenceID
  revision : db.revision ≤ maxInt64

/-- The tables of the graph are the same. -/
structure SameGraph (db db' : DB) : Prop where
  nodes : db'.nodes = db.nodes
  edges : db'.edges = db.edges
  witnesses : db'.witnesses = db.witnesses

theorem SameGraph.refl (db : DB) : SameGraph db db := ⟨rfl, rfl, rfl⟩

theorem SameGraph.trans {first second third : DB} (h : SameGraph first second)
    (h' : SameGraph second third) : SameGraph first third :=
  ⟨h'.nodes.trans h.nodes, h'.edges.trans h.edges, h'.witnesses.trans h.witnesses⟩

section Content

variable {db db' : DB}

theorem healthy_empty : Healthy DB.empty := by
  constructor
  all_goals simp [DB.empty, NodesActive]

theorem Healthy.keeps (h : Healthy db) (hKeeps : KeepsEvidence db db') : Healthy db' where
  nodes node hNode := hKeeps.active _ (h.nodes node (hKeeps.nodes ▸ hNode))
  edges row hRow hActive := hKeeps.active _ (h.edges row (hKeeps.edges ▸ hRow) hActive)
  revision := hKeeps.revision.2 h.revision

theorem Healthy.activeNodes (h : Healthy db) : db.activeNodes = db.nodes.rows :=
  List.filter_eq_self.mpr h.nodes

theorem Healthy.activeEdges (h : Healthy db) :
    db.activeEdges = (db.edges.rows.filter (·.active)).map db.edgeOf := by
  unfold DB.activeEdges
  refine congrArg (List.map db.edgeOf) (List.filter_congr fun row hRow => ?_)
  cases hActive : row.active with
  | false => simp
  | true => simpa using h.edges row hRow hActive

/-- In healthy databases the tables say what a snapshot contains. -/
theorem SameGraph.graphContent (hSame : SameGraph db db') (h : Healthy db) (h' : Healthy db') :
    db'.graphContent = db.graphContent := by
  have hNodes : db'.snapshotNodes = db.snapshotNodes := by
    unfold DB.snapshotNodes
    rw [h.activeNodes, h'.activeNodes, hSame.nodes]
  have hEdgeOf : db'.edgeOf = db.edgeOf := by
    funext row
    unfold DB.edgeOf
    rw [hSame.witnesses]
  have hEdges : db'.snapshotEdges = db.snapshotEdges := by
    unfold DB.snapshotEdges
    rw [h.activeEdges, h'.activeEdges, hEdgeOf, hSame.edges]
  unfold DB.graphContent
  rw [hNodes, hEdges, hSame.witnesses]

end Content

/-! ## Writing with a flag

A writer remembers in a flag whether it has changed the graph, and raises the revision at its end if
the flag is set. -/

/-- The database in the middle of a writer that has started at `start`. -/
structure Tracked (start : DB) (changed : Bool) (db : DB) : Prop where
  healthy : Healthy db
  revision : start.revision ≤ db.revision
  same : changed = false → SameGraph start db

/-- The database after a writer: the graph is the same, or its revision has been raised. -/
structure Graded (start db : DB) : Prop where
  healthy : Healthy db
  revision : start.revision ≤ db.revision
  same : SameGraph start db ∨ start.revision < db.revision

theorem Graded.refl {db : DB} (h : Healthy db) : Graded db db :=
  ⟨h, le_rfl, .inl (.refl db)⟩

theorem Graded.trans {first second third : DB} (h : Graded first second)
    (h' : Graded second third) : Graded first third := by
  refine ⟨h'.healthy, h.revision.trans h'.revision, ?_⟩
  rcases h.same, h'.same with ⟨hSame | hLess, hSame' | hLess'⟩
  · exact .inl (hSame.trans hSame')
  · exact .inr (h.revision.trans_lt hLess')
  · exact .inr (hLess.trans_le h'.revision)
  · exact .inr (hLess.trans hLess')

section Tracking

variable {start : DB} {changed : Bool}

theorem Healthy.tracked (h : Healthy start) : Tracked start false start :=
  ⟨h, le_rfl, fun _ => .refl start⟩

theorem Tracked.graded {db : DB} (h : Tracked start false db) : Graded start db :=
  ⟨h.healthy, h.revision, .inl (h.same rfl)⟩

/-- The flag may also be set for something else. -/
theorem Tracked.mono {changed' : Bool} {db : DB} (h : Tracked start changed db)
    (hFlag : changed' = false → changed = false) : Tracked start changed' db :=
  ⟨h.healthy, h.revision, fun hNone => h.same (hFlag hNone)⟩

theorem Tracked.or {db : DB} (h : Tracked start changed db) (more : Bool) :
    Tracked start (changed || more) db :=
  h.mono fun hNone => (Bool.or_eq_false_iff.mp hNone).1

theorem Tracked.keeps {db db' : DB} (h : Tracked start changed db) (hKeeps : KeepsEvidence db db') :
    Tracked start changed db' where
  healthy := h.healthy.keeps hKeeps
  revision := h.revision.trans hKeeps.revision.1
  same hNone := (h.same hNone).trans ⟨hKeeps.nodes, hKeeps.edges, hKeeps.witnesses⟩

theorem Graded.keeps {db db' : DB} (h : Graded start db) (hKeeps : KeepsEvidence db db') :
    Graded start db' where
  healthy := h.healthy.keeps hKeeps
  revision := h.revision.trans hKeeps.revision.1
  same := by
    refine h.same.imp (fun hSame => ?_) fun hLess => hLess.trans_le hKeeps.revision.1
    exact hSame.trans ⟨hKeeps.nodes, hKeeps.edges, hKeeps.witnesses⟩

theorem tracked_of_within {α : Type} {m : DBTx α} (hm : Within KeepsEvidence m) :
    Ensures (Tracked start changed) m fun _ => Tracked start changed :=
  .of_within hm fun _ _ hKeeps h => h.keeps hKeeps

theorem graded_of_within {α : Type} {m : DBTx α} (hm : Within KeepsEvidence m) :
    Ensures (Graded start) m fun _ => Graded start :=
  .of_within hm fun _ _ hKeeps h => h.keeps hKeeps

theorem bumpGraphRevision_graded :
    Ensures (Tracked start changed) bumpGraphRevision fun _ => Graded start := by
  intro db h u db' hRun
  have hKeeps := bumpGraphRevision_keeps db u db' hRun
  obtain ⟨-, rfl⟩ := bumpGraphRevision_ok hRun
  exact ⟨h.healthy.keeps hKeeps, h.revision.trans (Nat.le_succ _),
    .inr (Nat.lt_succ_of_le h.revision)⟩

theorem when_bumpGraphRevision_graded :
    Ensures (Tracked start changed) (when changed bumpGraphRevision) fun _ => Graded start := by
  refine .when (fun _ => bumpGraphRevision_graded) fun hNone db h => ?_
  rw [Bool.not_eq_true] at hNone
  subst hNone
  exact h.graded

theorem insertTrustNode_tracked (node : TrustNode) :
    Ensures (Tracked start changed) (insertTrustNode node) fun _ => Tracked start true := by
  intro db h u db' hRun
  obtain ⟨hActive, nodes, hInsert, rfl⟩ := insertTrustNode_ok hRun
  refine ⟨⟨fun other hOther => ?_, h.healthy.edges, h.healthy.revision⟩, h.revision, nofun⟩
  rw [(Table.insert?_eq_some.mp hInsert).2, List.mem_append, List.mem_singleton] at hOther
  rcases hOther with hOther | rfl
  · exact h.healthy.nodes other hOther
  · exact hActive

theorem mergeTrustNode_tracked (node : TrustNode) :
    Ensures (Tracked start changed) (mergeTrustNode node)
      fun inserted => Tracked start (changed || inserted) := by
  refine .read fun found => ?_
  cases found with
  | some row =>
      exact .require fun _ => .require fun _ => .require fun _ => .pure fun _ h => h.or false
  | none =>
      refine .bind (insertTrustNode_tracked node) fun _ => .pure fun _ h => ?_
      rw [Bool.or_true]
      exact h

theorem insertWitness_tracked (witness : GraphWitness) :
    Ensures (Tracked start changed) (insertWitness witness) fun _ => Tracked start true := by
  intro db h u db' hRun
  obtain ⟨witnesses, -, rfl⟩ := insertWitness_ok hRun
  exact ⟨⟨h.healthy.nodes, h.healthy.edges, h.healthy.revision⟩, h.revision, nofun⟩

theorem mergeWitness_tracked (witness : GraphWitness) :
    Ensures (Tracked start changed) (mergeWitness witness)
      fun inserted => Tracked start (changed || inserted) := by
  refine .read fun found => ?_
  cases found with
  | some row => exact .require fun _ => .pure fun _ h => h.or false
  | none =>
      refine .bind (insertWitness_tracked witness) fun _ => .pure fun _ h => ?_
      rw [Bool.or_true]
      exact h

theorem insertTrustEdge_tracked (edge : TrustEdge) :
    Ensures (Tracked start changed) (insertTrustEdge edge) fun _ => Tracked start true := by
  intro db h u db' hRun
  have hActive := insertTrustEdge_active hRun
  obtain ⟨edges, hInsert, rfl⟩ := insertTrustEdge_ok hRun
  refine ⟨⟨h.healthy.nodes, fun row hRow hRowActive => ?_, h.healthy.revision⟩, h.revision, nofun⟩
  rw [(Table.insert?_eq_some.mp hInsert).2, List.mem_append, List.mem_singleton] at hRow
  rcases hRow with hRow | rfl
  · exact h.healthy.edges row hRow hRowActive
  · exact hActive

theorem activateTrustEdge_tracked {stored : EdgeRow} :
    Ensures (fun db => Tracked start changed db ∧ stored ∈ db.edges.rows) (activateTrustEdge stored)
      fun _ => Tracked start true := by
  rintro db ⟨h, hStored⟩ u db' hRun
  have hActive := activateTrustEdge_active hRun
  obtain rfl := activateTrustEdge_ok hRun
  refine ⟨⟨h.healthy.nodes, fun row hRow hRowActive => ?_, h.healthy.revision⟩, h.revision, nofun⟩
  rw [Table.mem_modify] at hRow
  rcases hRow with ⟨hRow, -⟩ | ⟨row, hRow, hID, rfl⟩
  · exact h.healthy.edges row hRow hRowActive
  · rw [Table.eq_of_key hRow hStored hID]
    exact hActive

/-- The flag of a merged edge is set if a row has changed. -/
theorem mergeTrustEdge_tracked (edge : TrustEdge) :
    Ensures (Tracked start changed) (mergeTrustEdge edge)
      fun inserted => Tracked start (changed || inserted) := by
  refine .gets fun found => ?_
  cases found with
  | some row =>
      refine .require fun _ => .ite (fun _ => .pure fun _ h => h.1.or false) fun _ => ?_
      refine .bind (.pre (fun db h => ⟨h.1, (Table.find?_eq_some.mp h.2).1⟩)
        activateTrustEdge_tracked) fun _ => .pure fun _ h => ?_
      rw [Bool.or_true]
      exact h
  | none =>
      refine .read fun _ => .require fun _ => .bind (.pre (fun _ h => h.1)
        (insertTrustEdge_tracked edge)) fun _ => .pure fun _ h => ?_
      rw [Bool.or_true]
      exact h

end Tracking

/-! ## The writers -/

theorem loadActiveEvidence_keeps (id : EvidenceID) : Within KeepsEvidence (loadActiveEvidence id) :=
  .bind .gets fun _ => .bind .expect fun _ => .bind .require fun _ => .pure

theorem applyTransition_keeps {id : EvidenceID} {expectedFrom toState : EvidenceState}
    {reason : String} {requestedChange : Bool}
    (hLegal : requestedChange = true → expectedFrom.legal toState) :
    Within KeepsEvidence (applyTransition id expectedFrom toState reason requestedChange) := by
  refine .bind .gets fun _ => .bind .expect fun _ => .ite .pure (.bind .require fun _ => ?_)
  cases requestedChange with
  | false => exact .pure
  | true =>
      exact .bind (updateEvidenceState_keeps (hLegal rfl)) fun _ => .bind .require fun _ =>
        .bind (insertTransition_keeps _) fun _ => .bind .gets fun _ => .bind .expect fun _ => .pure

theorem transitionEvidence_keeps (id : EvidenceID) (expectedFrom toState : EvidenceState)
    (reason : String) : Within KeepsEvidence (transitionEvidence id expectedFrom toState reason) := by
  intro db outcome db' hRun
  unfold transitionEvidence at hRun
  cases hValid : expectedFrom.validateTransition toState reason with
  | error e =>
      rw [hValid] at hRun
      cases hRun
  | ok requestedChange =>
      rw [hValid] at hRun
      refine applyTransition_keeps (fun hChange => ?_) db outcome db' hRun
      rw [hChange] at hValid
      exact EvidenceState.legal_of_moves ⟨reason, hValid⟩

theorem bindTrustEdge_keeps (keccak : Keccak) (fromNode toNode : TrustNode) (edge : TrustEdge)
    (dependency : VerifiedDependency) :
    Within KeepsEvidence (bindTrustEdge keccak fromNode toNode edge dependency) :=
  .bind .check fun _ => .bind .check fun _ => .bind .check fun _ => .bind .require fun _ =>
    .bind .require fun _ => .bind .require fun _ => .bind (loadActiveEvidence_keeps _) fun _ =>
    .bind (loadActiveEvidence_keeps _) fun _ => .bind (loadActiveEvidence_keeps _) fun _ =>
    .bind .require fun _ => .require

section Writers

variable {start : DB}

theorem mergeActiveTrustEdge_graded (keccak : Keccak) (fromNode toNode : TrustNode)
    (edge : TrustEdge) (dependency : VerifiedDependency) :
    Ensures (Tracked start false) (mergeActiveTrustEdge keccak fromNode toNode edge dependency)
      fun _ => Graded start :=
  .seq (tracked_of_within (bindTrustEdge_keeps keccak fromNode toNode edge dependency)) fun _ =>
    .bind (mergeTrustNode_tracked fromNode) fun _ => .bind (mergeTrustNode_tracked toNode) fun _ =>
    .bind (mergeTrustEdge_tracked edge) fun _ =>
    .bind when_bumpGraphRevision_graded fun _ => .pure fun _ h => h

theorem saveMembershipWitness_graded (keccak : Keccak) (witness : GraphWitness) :
    Ensures (Tracked start false) (saveMembershipWitness keccak witness) fun _ => Graded start := by
  refine .require fun _ => .seq (tracked_of_within (loadActiveEvidence_keeps _)) fun _ =>
    .read fun _ => .expect fun _ _ => .require fun _ => .read fun found => ?_
  cases found with
  | some stored => exact .require fun _ => .pure fun _ h => h.graded
  | none =>
      exact .bind (insertWitness_tracked witness) fun _ => .bind bumpGraphRevision_graded fun _ =>
        .pure fun _ h => h

theorem saveNew_graded (keccak : Keccak) (observation : TrustRootObservation) :
    Ensures (Tracked start false) (saveNew keccak observation) fun _ => Graded start :=
  .read fun _ => .expect fun _ _ => .expect fun _ _ => .require fun _ =>
    .seq (tracked_of_within (insertEvidence_keeps _)) fun _ =>
    .seq (tracked_of_within (activateEvidence_keeps _ _ _)) fun _ =>
    .seq (tracked_of_within (insertObservation_keeps _)) fun _ =>
    .bind (mergeTrustNode_tracked _) fun _ =>
    .bind bumpGraphRevision_graded fun _ => .pure fun _ h => h

theorem save_graded (keccak : Keccak) (observation : TrustRootObservation) :
    Ensures (Tracked start false) (save keccak observation) fun _ => Graded start := by
  refine .check fun _ _ => .require fun _ => .require fun _ => .read fun _ =>
    .seq (tracked_of_within (scanObservation_keeps keccak _)) fun found => ?_
  cases found with
  | some persisted => exact .require fun _ => .pure fun _ h => h.graded
  | none =>
      refine .read fun _ =>
        .seq (tracked_of_within (scanObservation_keeps keccak _)) fun found => ?_
      cases found with
      | some persisted => exact .require fun _ => .pure fun _ h => h.graded
      | none => exact saveNew_graded keccak observation

theorem createTrustViewSnapshot_tracked (keccak : Keccak) (request : SnapshotRequest) :
    Ensures (Tracked start false) (createTrustViewSnapshot keccak request)
      fun _ => Tracked start false := by
  have hLoad : ∀ id, Within KeepsEvidence (loadActiveTrustNode id) :=
    fun _ => .bind .gets fun _ => .expect
  refine .require fun _ => .require fun _ => .read fun _ => .read fun _ => .expect fun _ _ =>
    .require fun _ => .seq (tracked_of_within (hLoad _)) fun _ =>
    .seq (tracked_of_within (hLoad _)) fun _ => .require fun _ => .require fun _ =>
    .read fun found => ?_
  cases found with
  | some existing => exact .pure fun _ h => h
  | none =>
      refine .read fun _ => .require fun _ => .read fun _ => .read fun _ =>
        .seq (.modify fun db h => ?_) fun _ => .pure fun _ h => h
      have hSame := h.same rfl
      exact ⟨⟨h.healthy.nodes, h.healthy.edges, h.healthy.revision⟩, h.revision,
        fun _ => ⟨hSame.nodes, hSame.edges, hSame.witnesses⟩⟩

variable {changed : Bool}

theorem applyDependencyMaterialization_tracked (keccak : Keccak) (block : ConfirmedBlock)
    (material : DependencyMaterialization) :
    Ensures (Tracked start changed) (applyDependencyMaterialization keccak block material)
      fun more => Tracked start (changed || more) := by
  refine .bind bindMaterial_bound fun _ => .fact fun _ =>
    .seq (tracked_of_within (verifyActiveNodeContent_keeps _)) fun _ =>
    .seq (tracked_of_within (verifyActiveNodeContent_keeps _)) fun _ =>
    .seq (tracked_of_within (verifyDependencyReceiptAndResolution_keeps block material)) fun _ =>
    .require fun _ =>
    .seq (tracked_of_within (verifyDependencyIndexedLog_keeps block material)) fun _ =>
    .seq (tracked_of_within (applyEvidence_keeps material)) fun evidenceChanged => .require fun _ =>
    .bind (mergeWitness_tracked _) fun witnessInserted =>
    .bind (mergeTrustEdge_tracked _) fun edgeInserted => .pure fun _ h => h.mono fun hNone => ?_
  simp only [Bool.or_eq_false_iff] at hNone ⊢
  exact ⟨⟨hNone.1, hNone.2.1.2⟩, hNone.2.2⟩

theorem applyDependency_tracked (p : Primitives) (outbox : Option Outbox) (block : ConfirmedBlock)
    (material : DependencyMaterialization) :
    Ensures (Tracked start changed) (applyDependency p outbox block material)
      fun more => Tracked start (changed || more.1) := by
  refine .read fun existed =>
    .bind (applyDependencyMaterialization_tracked p.keccak block material) fun more => ?_
  cases outbox with
  | none => exact .pure fun _ h => h
  | some outbox =>
      refine .ite (fun _ => .pure fun _ h => h) fun _ => ?_
      exact .seq (tracked_of_within (enqueueActiveEvidenceOutbox_keeps block p outbox material))
        fun _ => .pure fun _ h => h

theorem applyDependencies_tracked (p : Primitives) (outbox : Option Outbox) (block : ConfirmedBlock)
    (materials : List DependencyMaterialization) :
    Ensures (Tracked start changed) (applyDependencies p outbox block materials)
      fun more => Tracked start (changed || more.1) := by
  induction materials generalizing changed with
  | nil => exact .pure fun _ h => h.or false
  | cons material materials ih =>
      refine .bind (applyDependency_tracked p outbox block material) fun first => ?_
      refine .bind ih fun rest => .pure fun _ h => ?_
      rw [Bool.or_assoc] at h
      exact h

/-- A block raises the revision once for all its dependencies. -/
theorem applyConfirmedBlock_graded (p : Primitives) (outbox : Option Outbox)
    (block : ConfirmedBlock) :
    Ensures (Tracked start false) (applyConfirmedBlock p outbox block) fun _ => Graded start :=
  .require fun _ => .seq (tracked_of_within (requireIndexerConfig_keeps block)) fun _ =>
    .seq (tracked_of_within (blockCursor_keeps block)) fun _ =>
    .seq (tracked_of_within (.anyChanged (insertIndexedGatewayLog_keeps block))) fun _ =>
    .seq (tracked_of_within (.anyChanged (insertObservedRequest_keeps p.keccak))) fun _ =>
    .seq (tracked_of_within (.anyChanged (applyReceipt_keeps block))) fun _ =>
    .seq (tracked_of_within (.anyChanged (applyResolution_keeps block))) fun _ =>
    .require fun _ => .require fun _ =>
    .bind (applyDependencies_tracked p outbox block block.dependencies) fun _ =>
    .require fun _ => .bind when_bumpGraphRevision_graded fun _ =>
    .seq (graded_of_within (.when (updateCursor_keeps _))) fun _ => .pure fun _ h => h

/-! ### Activation

The flag of `Activate` only says whether the edge has changed, not whether the witness is new. -/

/-- The edge of the evidence, if it is active, has its witness. -/
def ActivationWitnessed (v : RemoteValidation) (db : DB) : Prop :=
  ∀ row ∈ db.edges.rows, row.evidenceID = v.record.id → row.active →
    ∃ witness ∈ db.witnesses.rows, witness.evidenceID = v.record.id

/-- A witness is new only if there was none for its evidence. -/
theorem mergeWitness_new (witness : GraphWitness) :
    Ensures (fun db => SameGraph start db) (mergeWitness witness) fun inserted db =>
      db.edges = start.edges ∧
        (inserted = true → ∀ row ∈ start.witnesses.rows, row.evidenceID ≠ witness.evidenceID) := by
  refine .gets fun found => ?_
  cases found with
  | some row => exact .require fun _ => .pure fun _ h => ⟨h.1.edges, nofun⟩
  | none =>
      refine .bind (R := fun _ db => db.edges = start.edges ∧
        ∀ row ∈ start.witnesses.rows, row.evidenceID ≠ witness.evidenceID) ?_
        fun _ => .pure fun _ h => ⟨h.1, fun _ => h.2⟩
      rintro db ⟨hSame, hFind⟩ u db' hRun
      obtain ⟨witnesses, -, rfl⟩ := insertWitness_ok hRun
      rw [List.find?_eq_none, hSame.witnesses] at hFind
      exact ⟨hSame.edges, fun row hRow => by simpa using hFind row hRow⟩

/-- The edge has not changed only if it was active. -/
theorem mergeTrustEdge_unchanged (edge : TrustEdge) :
    Ensures (fun db => db.edges = start.edges) (mergeTrustEdge edge) fun edgeChanged _ =>
      edgeChanged = false →
        ∃ row ∈ start.edges.rows, row.evidenceID = edge.evidenceID ∧ row.active := by
  refine .gets fun found => ?_
  cases found with
  | some row =>
      refine .require fun hSame => .ite (fun hActive => .pure fun db h _ => ?_) fun _ => ?_
      · obtain ⟨hEdges, hFind⟩ := h
        exact ⟨row, hEdges ▸ (Table.find?_eq_some.mp hFind).1, hSame.2.2.1, hActive⟩
      · exact .bind (R := fun _ _ => True) (fun _ _ _ _ _ => trivial) fun _ => .pure fun _ _ => nofun
  | none =>
      exact .read fun _ => .require fun _ =>
        .bind (R := fun _ _ => True) (fun _ _ _ _ _ => trivial) fun _ => .pure fun _ _ => nofun

theorem activate_graded {keccak : Keccak} {messageID : Bytes32} {v : RemoteValidation}
    (hWitnessed : ActivationWitnessed v start) :
    Ensures (Tracked start false) (activate keccak messageID v) fun _ => Graded start := by
  refine .check fun edge hBind => ?_
  have hWitness : Ensures (Tracked start false) (mergeWitness (v.witness keccak))
      fun inserted db => (Tracked start inserted db ∧ db.edges = start.edges) ∧
        (inserted = true → ∀ row ∈ start.witnesses.rows, row.evidenceID ≠ v.record.id) := by
    intro db h inserted db' hRun
    obtain ⟨hEdges, hNew⟩ := mergeWitness_new _ db (h.same rfl) inserted db' hRun
    exact ⟨⟨mergeWitness_tracked _ db h inserted db' hRun, hEdges⟩, hNew⟩
  have hEdge : ∀ inserted, Ensures (fun db => Tracked start inserted db ∧ db.edges = start.edges)
      (mergeTrustEdge edge) fun edgeChanged db => Tracked start (inserted || edgeChanged) db ∧
        (edgeChanged = false →
          ∃ row ∈ start.edges.rows, row.evidenceID = v.record.id ∧ row.active) := by
    intro inserted db h edgeChanged db' hRun
    have hEvidence : edge.evidenceID = v.record.id := by
      obtain ⟨-, rfl⟩ := newTrustEdge_eq_ok.mp (RemoteValidation.bindEdge_ok hBind).edge
      rfl
    have hKept := mergeTrustEdge_unchanged edge db h.2 edgeChanged db' hRun
    rw [hEvidence] at hKept
    exact ⟨mergeTrustEdge_tracked edge db h.1 edgeChanged db' hRun, hKept⟩
  refine .read fun _ => .expect fun _ _ => .require fun _ =>
    .require fun _ => .read fun _ => .expect fun _ _ => .require fun _ => .require fun _ =>
    .seq (tracked_of_within (verifyActiveNodeContent_keeps _)) fun _ =>
    .seq (tracked_of_within (verifyActiveNodeContent_keeps _)) fun _ =>
    .seq (tracked_of_within (.when (activateEvidence_keeps _ _ _))) fun _ =>
    .bind hWitness fun inserted => .fact fun hNew => .bind (hEdge inserted) fun edgeChanged =>
    .fact fun hKept => ?_
  -- an active edge has its witness, so the witness is not new when the edge is not
  have hFlag : edgeChanged = false → (inserted || edgeChanged) = false := by
    rintro rfl
    obtain ⟨row, hRow, hEvidence, hActive⟩ := hKept rfl
    obtain ⟨witness, hMem, hSame⟩ := hWitnessed row hRow hEvidence hActive
    rw [Bool.or_false]
    exact Bool.eq_false_iff.mpr fun hInserted => hNew hInserted witness hMem hSame
  exact .bind (.pre (fun _ h => h.mono hFlag) when_bumpGraphRevision_graded) fun _ =>
    .seq (graded_of_within (.when updateInbox_keeps)) fun _ => .pure fun _ h => h

end Writers

/-! ## Runs -/

/-- A public operation on the database: a write of the Mapnode, or one of the other public writers
of evidence and graph. -/
inductive GraphOp
  | write (write : Write)
  | transition (id : EvidenceID) (expectedFrom toState : EvidenceState) (reason : String)
  | mergeActiveTrustEdge (fromNode toNode : TrustNode) (edge : TrustEdge)
      (dependency : VerifiedDependency)
  | saveMembershipWitness (witness : GraphWitness)

namespace GraphOp

/-- The database after an operation. -/
def perform (p : Primitives) : GraphOp → DB → DB
  | .write done, db => done.perform p db
  | .transition id expectedFrom toState reason, db =>
      commit (transitionEvidence id expectedFrom toState reason) db
  | .mergeActiveTrustEdge fromNode toNode edge dependency, db =>
      commit (Store.mergeActiveTrustEdge p.keccak fromNode toNode edge dependency) db
  | .saveMembershipWitness witness, db =>
      commit (Store.saveMembershipWitness p.keccak witness) db

/-- An activation does not meet an active edge without a witness. -/
def Witnessed (db : DB) : GraphOp → Prop
  | .write (.activate _ v) => ActivationWitnessed v db
  | _ => True

instance (v : RemoteValidation) (db : DB) : Decidable (ActivationWitnessed v db) :=
  inferInstanceAs (Decidable (∀ row ∈ db.edges.rows, _))

instance (db : DB) : DecidablePred (Witnessed db)
  | .write (.activate _ v) => inferInstanceAs (Decidable (ActivationWitnessed v db))
  | .write (.sync _) | .write (.bindDeployment _ _) | .write (.configure _)
  | .write (.initializeCursor _) | .write (.save _) | .write (.applyConfirmedBlock _ _)
  | .write (.createSnapshot _) | .write (.receive _ _ _) | .write (.markRetryable _ _ _)
  | .write (.markInvalid _ _) | .transition _ _ _ _ | .mergeActiveTrustEdge _ _ _ _
  | .saveMembershipWitness _ => .isTrue trivial

end GraphOp

/-- A writer that ends graded leaves a graded database, also when it fails. -/
theorem commit_graded {α : Type} {m : DBTx α} {db : DB}
    (hm : Ensures (Tracked db false) m fun _ => Graded db) (h : Healthy db) :
    Graded db (commit m db) :=
  hm.commit_of (fun _ hTracked => hTracked.graded) h.tracked

theorem Write.perform_graded {p : Primitives} {write : Write} {db : DB} (h : Healthy db)
    (hWitnessed : (GraphOp.write write).Witnessed db) : Graded db (write.perform p db) := by
  cases write with
  | save observation => exact commit_graded (save_graded p.keccak observation) h
  | applyConfirmedBlock outbox block =>
      exact commit_graded (applyConfirmedBlock_graded p outbox block) h
  | createSnapshot request =>
      exact commit_graded ((createTrustViewSnapshot_tracked p.keccak request).mono
        fun _ _ hTracked => hTracked.graded) h
  | activate messageID v => exact commit_graded (activate_graded hWitnessed) h
  | _ => exact (h.tracked.keeps (Write.perform_keeps rfl db)).graded

theorem GraphOp.perform_graded {p : Primitives} {op : GraphOp} {db : DB} (h : Healthy db)
    (hWitnessed : op.Witnessed db) : Graded db (op.perform p db) := by
  cases op with
  | write done => exact Write.perform_graded h hWitnessed
  | transition id expectedFrom toState reason =>
      have hKeeps := transitionEvidence_keeps id expectedFrom toState reason
      exact commit_graded ((tracked_of_within hKeeps).mono fun _ _ hTracked => hTracked.graded) h
  | mergeActiveTrustEdge fromNode toNode edge dependency =>
      exact commit_graded (mergeActiveTrustEdge_graded p.keccak fromNode toNode edge dependency) h
  | saveMembershipWitness witness =>
      exact commit_graded (saveMembershipWitness_graded p.keccak witness) h

/-- The database after some operations. -/
def runOps (p : Primitives) (ops : List GraphOp) (db : DB) : DB :=
  ops.foldl (fun db op => op.perform p db) db

/-- No activation of a run meets an active edge without a witness. -/
def WitnessedRun (p : Primitives) : List GraphOp → DB → Prop
  | [], _ => True
  | op :: ops, db => op.Witnessed db ∧ WitnessedRun p ops (op.perform p db)

instance decidableWitnessedRun (p : Primitives) :
    (ops : List GraphOp) → (db : DB) → Decidable (WitnessedRun p ops db)
  | [], _ => .isTrue trivial
  | op :: ops, db =>
      let _ := decidableWitnessedRun p ops (op.perform p db)
      inferInstanceAs (Decidable (op.Witnessed db ∧ WitnessedRun p ops (op.perform p db)))

theorem WitnessedRun.append {p : Primitives} {before after : List GraphOp} {db : DB}
    (h : WitnessedRun p (before ++ after) db) :
    WitnessedRun p before db ∧ WitnessedRun p after (runOps p before db) := by
  induction before generalizing db with
  | nil => exact ⟨trivial, h⟩
  | cons op ops ih =>
      obtain ⟨hOp, hRest⟩ := h
      obtain ⟨hBefore, hAfter⟩ := ih hRest
      exact ⟨⟨hOp, hBefore⟩, hAfter⟩

/-- The writes of the Mapnode itself leave no active edge without a witness. -/
theorem run_witnessed (p : Primitives) (writes : List Write) :
    WitnessedRun p (writes.map .write) DB.empty := by
  have hRun : ∀ db, LocatedEdges DB.empty db ∧ MaterialInvariant p.keccak db →
      WitnessedRun p (writes.map .write) db := by
    induction writes with
    | nil => exact fun _ _ => trivial
    | cons write writes ih =>
        rintro db ⟨hLocated, hMaterial⟩
        refine ⟨?_, ih _ ⟨Write.perform_located hLocated,
          Write.perform_material hLocated.nodes hMaterial⟩⟩
        cases write with
        | activate messageID v =>
            intro row hRow hEvidence _
            obtain ⟨_, _, _, _, _, witness, hWitness, hBacking⟩ := hMaterial.edges row hRow
            exact ⟨witness, hWitness, hBacking.evidenceID.trans hEvidence⟩
        | _ => trivial
  exact hRun _ ⟨locatedEdges_empty, materialInvariant_empty⟩

/-- What a run does to the graph and its revision. -/
theorem runOps_graded {p : Primitives} {ops : List GraphOp} {db : DB} (h : Healthy db)
    (hOps : WitnessedRun p ops db) : Graded db (runOps p ops db) := by
  induction ops generalizing db with
  | nil => exact .refl h
  | cons op ops ih =>
      have hOp : Graded db (op.perform p db) := GraphOp.perform_graded h hOps.1
      exact hOp.trans (ih hOp.healthy hOps.2)

/-! ## The name of a snapshot -/

/-- The bytes a snapshot of the moment is named after. -/
def SnapshotRequest.material (request : SnapshotRequest) (db : DB) : Bytes :=
  Words.encode [request.requestID, Words.ofUInt64 request.attempt,
    Words.ofUInt64 (UInt64.ofNat db.revision), request.startNodeID, request.targetNodeID,
    request.expectedHomeTrustRoot]

/-- The name `CreateTrustViewSnapshot` computes. -/
def SnapshotRequest.snapshotID (keccak : Keccak) (request : SnapshotRequest) (db : DB) : Bytes32 :=
  computeSnapshotID keccak request.requestID request.attempt (UInt64.ofNat db.revision)
    request.startNodeID request.targetNodeID request.expectedHomeTrustRoot

theorem SnapshotRequest.revision_eq {request request' : SnapshotRequest} {db db' : DB}
    (h : Healthy db) (h' : Healthy db')
    (hMaterial : request.material db = request'.material db') : db.revision = db'.revision := by
  have hWords := Words.encode_injective hMaterial
  simp only [List.cons.injEq, and_true] at hWords
  have hNat := congrArg BitVec.toNat hWords.2.2.1
  have hRange : db.revision ≤ 9223372036854775807 := h.revision
  have hRange' : db'.revision ≤ 9223372036854775807 := h'.revision
  simp only [Words.ofUInt64, BitVec.toNat_ofNat, UInt64.toNat_ofNat'] at hNat
  omega

namespace RevisionToy

/-- The observations of both blocks, and an envelope with the coordinates of the dependency, whose
evidence is then made active by hand. -/
def evidenceActive : List GraphOp :=
  (Toy.setup 2 ++ Toy.received (Toy.locator 2)).map .write ++
    [.transition (Toy.evidenceID 2) .candidate .verified "checked",
      .transition (Toy.evidenceID 2) .verified .confirmed "checked",
      .transition (Toy.evidenceID 2) .confirmed .active "checked"]

/-- The edge of the dependency is merged without its witness. -/
def edgeMerged : GraphOp :=
  .mergeActiveTrustEdge (Toy.fromNode 2) (Toy.toNode 2)
    { (Toy.material 2).edge with witnessID := none } (Toy.dependency 2 (Toy.evidenceID 2))

/-- The envelope is validated. -/
def activated : List GraphOp :=
  (Toy.activated (Toy.locator 2)).map .write

end RevisionToy

/-- In every run in which no activation meets an active edge without a witness: operations that
change what a snapshot contains raise the revision, and two snapshots with one name contain the
same, as long as the name is not a hash collision. -/
theorem revision_identifies_graph (p : Primitives) {start : DB} (hStart : Healthy start)
    {before after : List GraphOp} (hRun : WitnessedRun p (before ++ after) start) :
    ((runOps p after (runOps p before start)).graphContent ≠ (runOps p before start).graphContent →
      (runOps p before start).revision < (runOps p after (runOps p before start)).revision) ∧
    ∀ request request' : SnapshotRequest,
      request.snapshotID p.keccak (runOps p before start) =
        request'.snapshotID p.keccak (runOps p after (runOps p before start)) →
      (p.keccak (request.material (runOps p before start)) =
          p.keccak (request'.material (runOps p after (runOps p before start))) →
        request.material (runOps p before start) =
          request'.material (runOps p after (runOps p before start))) →
      (runOps p after (runOps p before start)).graphContent =
        (runOps p before start).graphContent := by
  obtain ⟨hBefore, hAfter⟩ := hRun.append
  have hFirst := (runOps_graded hStart hBefore).healthy
  have hGraded := runOps_graded hFirst hAfter
  generalize runOps p after (runOps p before start) = db' at hGraded ⊢
  generalize runOps p before start = db at hFirst hGraded ⊢
  have hContent : db'.graphContent ≠ db.graphContent → db.revision < db'.revision := fun hNe =>
    hGraded.same.resolve_left fun hSame => hNe (hSame.graphContent hFirst hGraded.healthy)
  refine ⟨hContent, fun request request' hID hCollision => ?_⟩
  have hRevision := SnapshotRequest.revision_eq hFirst hGraded.healthy (hCollision hID)
  by_contra hNe
  exact absurd hRevision (hContent hNe).ne

/-- The edge gets its witness before the envelope is validated. -/
theorem revision_identifies_graph_toy :
    (runOps Toy.primitives RevisionToy.evidenceActive DB.empty).revision <
      (runOps Toy.primitives
        ([RevisionToy.edgeMerged, .saveMembershipWitness (Toy.witness 2)] ++ RevisionToy.activated)
        (runOps Toy.primitives RevisionToy.evidenceActive DB.empty)).revision := by
  refine (revision_identifies_graph Toy.primitives healthy_empty ?_).1 ?_
  · decide +kernel
  · decide +kernel

/-- The activation gives a merged edge its witness under the same revision, so the two snapshots of a
request before and after it have one name and different edges. -/
theorem activation_keeps_revision :
    let db := runOps Toy.primitives (RevisionToy.evidenceActive ++ [RevisionToy.edgeMerged]) DB.empty
    let db' := runOps Toy.primitives RevisionToy.activated db
    db'.revision = db.revision ∧ db'.graphContent ≠ db.graphContent ∧
      (Toy.snapshotRequest 2).snapshotID Toy.primitives.keccak db' =
        (Toy.snapshotRequest 2).snapshotID Toy.primitives.keccak db := by
  decide +kernel

end TrustMap.Mapnode.Store
