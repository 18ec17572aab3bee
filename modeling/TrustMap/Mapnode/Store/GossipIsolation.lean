import TrustMap.Mapnode.Store.HomeView

/-!
Gossip writes only what it owns, so that histories with and without it have the same home view, and
a confirmed home block that shares no evidence with gossip is applied in the same way after both.
-/

namespace TrustMap.Mapnode.Store

open Transaction

variable {id : EvidenceID}

namespace Gossip

/-! ## The writes of gossip -/

/-- A database with a given home view. -/
def Outside (g : Gossip) (n : ℕ) (v : DB) (db : DB) : Prop :=
  g.Apart n db ∧ g.view db = v

section Writes

variable {g : Gossip} {n : ℕ} {v : DB}

theorem insertEvidence_outside {row : EvidenceRecord} (hReceived : ¬ g.ours row.id)
    (hID : row.locator.computeID g.keccak = .ok row.id) :
    Ensures (g.Outside n v) (insertEvidence row) fun _ => g.Outside n v := by
  rintro db ⟨h, rfl⟩ u db' hRun
  obtain ⟨-, evidence, hInsert, rfl⟩ := insertEvidence_ok hRun
  have hSame : evidence.filter (fun row => g.ours row.id) = db.evidence.filter fun row => g.ours row.id :=
    Table.filter_insert?_of_not (Bool.eq_false_of_not_eq_true hReceived) hInsert
  refine ⟨⟨?_, h.edges, h.witnesses, h.nodes, h.inbox, h.revision⟩, by simp only [view, hSame]⟩
  intro other hMem hOther
  rw [(Table.insert?_eq_some.mp hInsert).2, List.mem_append, List.mem_singleton] at hMem
  rcases hMem with hMem | rfl
  · exact h.evidence other hMem hOther
  · exact hID

theorem updateEvidenceState_outside (hReceived : ¬ g.ours id) (fromState toState : EvidenceState)
    (reason : Option String) :
    Ensures (g.Outside n v) (updateEvidenceState id fromState toState reason)
      fun _ => g.Outside n v := by
  rintro db ⟨h, rfl⟩ changed db' hRun
  obtain rfl | ⟨-, rfl⟩ := updateEvidenceState_ok hRun
  · exact ⟨h, rfl⟩
  have hSame : (db.evidence.modify id (fun row => EvidenceRecord.move row toState reason)
        (EvidenceRecord.move_id toState reason)).filter (fun row => g.ours row.id) =
      db.evidence.filter fun row => g.ours row.id := by
    apply Table.filter_modify_of_not
    rintro row - rfl
    have hOut := Bool.eq_false_of_not_eq_true hReceived
    exact ⟨hOut, hOut⟩
  refine ⟨⟨?_, h.edges, h.witnesses, h.nodes, h.inbox, h.revision⟩, by simp only [view, hSame]⟩
  intro other hMem hOther
  rw [Table.mem_modify] at hMem
  rcases hMem with ⟨hMem, -⟩ | ⟨stored, hMem, -, rfl⟩
  · exact h.evidence other hMem hOther
  · exact h.evidence stored hMem hOther

theorem insertTransition_outside {row : EvidenceTransition} (hReceived : ¬ g.ours row.evidenceID) :
    Ensures (g.Outside n v) (insertTransition row) fun _ => g.Outside n v := by
  rintro db ⟨h, rfl⟩ u db' hRun
  obtain ⟨transitions, hInsert, rfl⟩ := insertTransition_ok hRun
  have hSame : transitions.filter (fun row => g.ours row.evidenceID) =
      db.transitions.filter fun row => g.ours row.evidenceID :=
    Table.filter_insert?_of_not (Bool.eq_false_of_not_eq_true hReceived) hInsert
  exact ⟨h.of_eq rfl rfl rfl rfl rfl rfl, by simp only [view, hSame]⟩

theorem activateEvidence_outside (hReceived : ¬ g.ours id) (counted : Bool) (reason : String) :
    Ensures (g.Outside n v) (activateEvidence counted id reason) fun _ => g.Outside n v := by
  have hStep : ∀ fromState toState, Ensures (g.Outside n v)
      (advanceEvidence counted id reason fromState toState) fun _ => g.Outside n v :=
    fun fromState toState =>
      .seq (updateEvidenceState_outside hReceived fromState toState none) fun _ => .require fun _ =>
        insertTransition_outside hReceived
  exact .seq (hStep _ _) fun _ => .seq (hStep _ _) fun _ => hStep _ _

theorem insertWitness_outside {witness : GraphWitness} (hReceived : ¬ g.ours witness.evidenceID)
    (hHash : g.keccak witness.encoded = witness.id) (hInput : witness.encoded ∈ g.inputs) :
    Ensures (g.Outside n v) (insertWitness witness) fun _ => g.Outside n v := by
  rintro db ⟨h, rfl⟩ u db' hRun
  obtain ⟨witnesses, hInsert, rfl⟩ := insertWitness_ok hRun
  have hSame : witnesses.filter (fun row => g.ours row.evidenceID) =
      db.witnesses.filter fun row => g.ours row.evidenceID :=
    Table.filter_insert?_of_not (Bool.eq_false_of_not_eq_true hReceived) hInsert
  refine ⟨⟨h.evidence, h.edges, ?_, h.nodes, h.inbox, h.revision⟩, by simp only [view, hSame]⟩
  intro other hMem hOther
  rw [(Table.insert?_eq_some.mp hInsert).2, List.mem_append, List.mem_singleton] at hMem
  rcases hMem with hMem | rfl
  · exact h.witnesses other hMem hOther
  · exact ⟨hHash, hInput⟩

theorem mergeWitness_outside {witness : GraphWitness} (hReceived : ¬ g.ours witness.evidenceID)
    (hHash : g.keccak witness.encoded = witness.id) (hInput : witness.encoded ∈ g.inputs) :
    Ensures (g.Outside n v) (mergeWitness witness) fun _ => g.Outside n v := by
  refine .read fun found => ?_
  cases found with
  | some row => exact .require fun _ => .pure fun _ h => h
  | none => exact .seq (insertWitness_outside hReceived hHash hInput) fun _ => .pure fun _ h => h

theorem insertTrustEdge_outside {edge : TrustEdge} (hReceived : ¬ g.ours edge.evidenceID)
    (hHash : g.keccak (edgeRow edge).encoded = edge.id) (hInput : (edgeRow edge).encoded ∈ g.inputs) :
    Ensures (g.Outside n v) (insertTrustEdge edge) fun _ => g.Outside n v := by
  rintro db ⟨h, rfl⟩ u db' hRun
  obtain ⟨edges, hInsert, rfl⟩ := insertTrustEdge_ok hRun
  have hSame : edges.filter (fun row => g.ours row.evidenceID) =
      db.edges.filter fun row => g.ours row.evidenceID :=
    Table.filter_insert?_of_not (Bool.eq_false_of_not_eq_true hReceived) hInsert
  refine ⟨⟨h.evidence, ?_, h.witnesses, h.nodes, h.inbox, h.revision⟩, by simp only [view, hSame]⟩
  intro other hMem hOther
  rw [(Table.insert?_eq_some.mp hInsert).2, List.mem_append, List.mem_singleton] at hMem
  rcases hMem with hMem | rfl
  · exact h.edges other hMem hOther
  · exact ⟨hHash, hInput⟩

theorem mergeTrustEdge_outside {edge : TrustEdge} (hReceived : ¬ g.ours edge.evidenceID)
    (hHash : g.keccak (edgeRow edge).encoded = edge.id) (hInput : (edgeRow edge).encoded ∈ g.inputs) :
    Ensures (g.Outside n v) (mergeTrustEdge edge) fun _ => g.Outside n v := by
  refine .gets fun found => ?_
  cases found with
  | none =>
      refine .pre (fun _ h => h.1) (.read fun _ => .require fun _ => ?_)
      exact .seq (insertTrustEdge_outside hReceived hHash hInput) fun _ => .pure fun _ h => h
  | some row =>
      refine .require fun hSame => .ite (fun _ => .pure fun _ h => h.1) fun _ => ?_
      refine .bind (R := fun _ => g.Outside n v) ?_ fun _ => .pure fun _ h => h
      rintro db ⟨⟨h, rfl⟩, hFind⟩ u db' hRun
      refine ⟨h.activateTrustEdge hRun, ?_⟩
      obtain rfl := activateTrustEdge_ok hRun
      have hModify : (db.edges.modify row.id EdgeRow.activate EdgeRow.activate_id).filter
            (fun row => g.ours row.evidenceID) = db.edges.filter fun row => g.ours row.evidenceID := by
        apply Table.filter_modify_of_not
        intro other hMem hID
        obtain rfl := Table.eq_of_key hMem (Table.find?_eq_some.mp hFind).1 hID
        have hOut : g.ours other.evidenceID = false := by
          rw [hSame.2.2.1]
          exact Bool.eq_false_of_not_eq_true hReceived
        exact ⟨hOut, hOut⟩
      simp only [view, hModify]

theorem bumpGraphRevision_outside :
    Ensures (g.Outside n v) bumpGraphRevision fun _ => g.Outside (n + 1) v := by
  rintro db ⟨h, rfl⟩ u db' hRun
  obtain ⟨-, rfl⟩ := bumpGraphRevision_ok hRun
  exact ⟨⟨h.evidence, h.edges, h.witnesses, h.nodes, h.inbox, Nat.succ_le_succ h.revision⟩, rfl⟩

theorem outside_succ {db : DB} (h : g.Outside n v db) : g.Outside (n + 1) v db :=
  ⟨h.1.mono n.le_succ, h.2⟩

theorem insertInbox_outside {row : InboxRow} (hReceived : ¬ g.ours row.evidenceID) :
    Ensures (g.Outside n v) (insertInbox row) fun _ => g.Outside n v := by
  rintro db ⟨h, rfl⟩ inserted db' hRun
  unfold insertInbox at hRun
  cases hInsert : db.inbox.insert? row with
  | none =>
      rw [hInsert] at hRun
      cases hRun
      exact ⟨h, rfl⟩
  | some inbox =>
      rw [hInsert] at hRun
      dsimp only at hRun
      split at hRun
      · cases hRun
        refine ⟨⟨h.evidence, h.edges, h.witnesses, h.nodes, ?_, h.revision⟩, rfl⟩
        intro other hMem
        rw [(Table.insert?_eq_some.mp hInsert).2, List.mem_append, List.mem_singleton] at hMem
        rcases hMem with hMem | rfl
        · exact h.inbox other hMem
        · exact hReceived
      · cases hRun

variable {messageID : Bytes32}

theorem updateInbox_outside {f : InboxRow → InboxRow}
    {hKey : ∀ row, (f row).messageID = row.messageID}
    (hEvidence : ∀ row, (f row).evidenceID = row.evidenceID) :
    Ensures (g.Outside n v) (updateInbox messageID f hKey) fun _ => g.Outside n v := by
  refine .modify ?_
  rintro db ⟨h, rfl⟩
  refine ⟨⟨h.evidence, h.edges, h.witnesses, h.nodes, ?_, h.revision⟩, rfl⟩
  intro other hMem
  rw [Table.mem_modify] at hMem
  rcases hMem with ⟨hMem, -⟩ | ⟨stored, hMem, -, rfl⟩
  · exact h.inbox other hMem
  · rw [hEvidence]
    exact h.inbox stored hMem

/-- A received envelope may only bring its own evidence. -/
theorem receive_outside {p : Primitives} (hKeccak : p.keccak = g.keccak) {now : UnixNano}
    {envelope : Envelope} {sender : PeerID}
    (hReceived : ∀ id, envelope.locator.computeID g.keccak = .ok id → ¬ g.ours id) :
    Ensures (g.Outside n v) (receive p now envelope sender) fun _ => g.Outside n v := by
  unfold receive
  rw [hKeccak]
  refine .check fun encoded _ => .check fun evidenceID hID => ?_
  have hEvidence : Ensures (g.Outside n v)
      (insertEvidenceIfAbsent ⟨evidenceID, envelope.locator, .candidate, ""⟩)
      fun _ => g.Outside n v := by
    refine .read fun found => ?_
    cases found with
    | some _ => exact .pure fun _ h => h
    | none =>
        exact .seq (insertEvidence_outside (hReceived evidenceID hID) hID) fun _ => .pure fun _ h => h
  refine .seq hEvidence fun _ => .read fun _ => .expect fun record _ => .require fun _ =>
    .seq (insertInbox_outside (hReceived evidenceID hID)) fun _ =>
    .ite (fun _ => .pure fun _ h => h) fun _ => ?_
  exact .read fun _ => .expect fun _ _ => .require fun _ => .pure fun _ h => h

theorem markRetryable_outside {reason : String} {next : Option UnixNano} :
    Ensures (g.Outside n v) (markRetryable messageID reason next) fun _ => g.Outside n v :=
  .require fun _ => .expect fun _ _ => .read fun _ => .expect fun _ _ => .require fun _ =>
    updateInbox_outside fun _ => rfl

theorem markInvalid_outside {reason : String} :
    Ensures (g.Outside n v) (markInvalid messageID reason) fun _ => g.Outside n v := by
  refine .require fun _ => .gets fun row => .expect fun stored hRow => ?_
  refine .learn (p := ¬ g.ours stored.evidenceID) ?_ fun hReceived => .pre (fun _ h => h.1) ?_
  · rintro db ⟨h, hFind⟩
    exact h.1.inbox stored (Table.find?_eq_some.mp (hFind.trans hRow)).1
  refine .require fun _ => .ite (fun _ => .pure fun _ h => h) fun _ => ?_
  refine .seq (updateInbox_outside fun _ => rfl) fun _ =>
    .seq (updateEvidenceState_outside hReceived _ _ _) fun _ => ?_
  exact .when (fun _ => insertTransition_outside hReceived) fun _ _ h => h

/-- The bytes hashed for the edge `Activate` builds. -/
def edgeInput (keccak : Keccak) (v : RemoteValidation) : Bytes :=
  edgeEncoded (v.homeObservation.node keccak).id (v.sourceObservation.node keccak).id v.record.id
    v.dependency.leafIndex

theorem activate_outside {validation : RemoteValidation}
    (hEdge : edgeInput g.keccak validation ∈ g.inputs)
    (hWitness : (validation.witness g.keccak).encoded ∈ g.inputs) :
    Ensures (g.Outside n v) (activate g.keccak messageID validation)
      fun _ => g.Outside (n + 1) v := by
  refine .check fun edge hBind => .gets fun row => .expect fun message hRow => .require fun hMessage => ?_
  refine .learn (p := ¬ g.ours validation.record.id) ?_ fun hReceived => .pre (fun _ h => h.1) ?_
  · rintro db ⟨h, hFind⟩
    exact hMessage ▸ h.1.inbox message (Table.find?_eq_some.mp (hFind.trans hRow)).1
  obtain ⟨-, rfl⟩ := newTrustEdge_eq_ok.mp (RemoteValidation.bindEdge_ok hBind).edge
  have hVerify : ∀ node, Ensures (g.Outside n v) (verifyActiveNodeContent node)
      fun _ => g.Outside n v :=
    fun node => (verifyActiveNodeContent_mem node).mono fun _ _ h => h.1
  exact .require fun _ => .read fun _ => .expect fun _ _ => .require fun _ => .require fun _ =>
    .seq (hVerify _) fun _ => .seq (hVerify _) fun _ =>
    .seq (.when (fun _ => activateEvidence_outside hReceived _ _) fun _ _ h => h) fun _ =>
    .seq (mergeWitness_outside hReceived rfl hWitness) fun _ =>
    .seq (mergeTrustEdge_outside hReceived rfl hEdge) fun _ =>
    .bind (.when (fun _ => bumpGraphRevision_outside) fun _ _ => outside_succ) fun _ =>
    .seq (.when (fun _ => updateInbox_outside fun _ => rfl) fun _ _ h => h) fun _ => .pure fun _ h => h

theorem createTrustViewSnapshot_outside {request : SnapshotRequest} :
    Ensures (g.Outside n v) (createTrustViewSnapshot g.keccak request) fun _ => g.Outside n v := by
  have hLoad : ∀ id, Ensures (g.Outside n v) (loadActiveTrustNode id) fun _ => g.Outside n v :=
    fun id => .read fun found => by
      cases found with
      | none => exact .throw
      | some node => exact .pure fun _ h => h
  refine .require fun _ => .require fun _ => .read fun _ => .read fun _ => .expect fun _ _ =>
    .require fun _ => .seq (hLoad _) fun _ => .seq (hLoad _) fun _ => .require fun _ =>
    .require fun _ => .read fun found => ?_
  cases found with
  | some existing => exact .pure fun _ h => h
  | none =>
      refine .read fun _ => .require fun _ => .read fun _ => .read fun _ => .seq (.modify ?_) fun _ =>
        .pure fun _ h => h
      rintro db ⟨h, rfl⟩
      exact ⟨h.of_eq rfl rfl rfl rfl rfl rfl, rfl⟩

end Writes

end Gossip

/-! ## Histories -/

namespace Write

/-- The operations on the inbox. -/
def isGossip : Write → Bool
  | .receive _ _ _ | .markRetryable _ _ _ | .markInvalid _ _ | .activate _ _ => true
  | _ => false

/-- The evidence a received envelope names. -/
def received (keccak : Keccak) : Write → List EvidenceID
  | .receive _ envelope _ => (envelope.locator.computeID keccak).toOption.toList
  | _ => []

theorem mem_received {keccak : Keccak} {now : UnixNano} {envelope : Envelope} {sender : PeerID} :
    id ∈ (Write.receive now envelope sender).received keccak ↔
      envelope.locator.computeID keccak = .ok id := by
  cases hID : envelope.locator.computeID keccak with
  | error e => simp [received, hID, Except.toOption]
  | ok id' => simp [received, hID, Except.toOption, eq_comm]

/-- The dependencies of an applied block. -/
def dependencies : Write → List DependencyMaterialization
  | .applyConfirmedBlock _ block => block.dependencies
  | _ => []

/-- The byte strings whose hashes identify the evidence, edges and witnesses of a write. -/
def hashed (keccak : Keccak) : Write → List Bytes
  | .save observation => [(observation.syntheticLocator keccak).encoded]
  | .applyConfirmedBlock _ block =>
      block.dependencies.flatMap fun material => [(edgeRow material.edge).encoded, material.witness.encoded]
  | .receive _ envelope _ => [envelope.locator.encoded]
  | .activate _ validation =>
      [Gossip.edgeInput keccak validation, (validation.witness keccak).encoded]
  | _ => []

end Write

/-- The history without the operations on the inbox. -/
def withoutGossip (writes : List Write) : List Write :=
  writes.filter fun write => !write.isGossip

namespace Gossip

/-- A write that keeps to its side: the home node does not touch received evidence, and gossip
touches nothing else. -/
def Admits (g : Gossip) : Write → Prop
  | .save observation => g.ours (observation.syntheticEvidence g.keccak).id
  | .applyConfirmedBlock _ block => ∀ material ∈ block.dependencies, g.Own material
  | .receive _ envelope _ => ∀ id, envelope.locator.computeID g.keccak = .ok id → ¬ g.ours id
  | .activate _ validation => edgeInput g.keccak validation ∈ g.inputs ∧
      (validation.witness g.keccak).encoded ∈ g.inputs
  | _ => True

section Histories

variable {g : Gossip} {n : ℕ} {p : Primitives}

/-- A write of gossip does not change the home view. -/
theorem perform_outside (hKeccak : p.keccak = g.keccak) {write : Write} (hGossip : write.isGossip)
    (hWrite : g.Admits write) {v db : DB} (h : g.Outside n v db) :
    g.Outside (n + 1) v (write.perform p db) := by
  cases write with
  | receive now envelope sender => exact outside_succ ((receive_outside hKeccak hWrite).commit h)
  | markRetryable messageID reason next => exact outside_succ (markRetryable_outside.commit h)
  | markInvalid messageID reason => exact outside_succ (markInvalid_outside.commit h)
  | activate messageID validation =>
      unfold Write.perform
      rw [hKeccak]
      exact (activate_outside hWrite.1 hWrite.2).commit_of (fun _ => outside_succ) h
  | _ => cases hGossip

/-- A write of the home node has the same effect on the home view in both databases. -/
theorem perform_home (hKeccak : p.keccak = g.keccak) {write : Write} (hGossip : ¬ write.isGossip)
    (hWrite : g.Admits write) (hRoom : n < maxInt64) {s t : DB} (h : g.Same n s t) :
    g.Same (n + 1) (write.perform p s) (write.perform p t) := by
  have hHome : ∀ {α : Type} {m : DBTx α}, g.Home n m → g.Same (n + 1) (commit m s) (commit m t) :=
    fun hm => same_succ (hm.commit (fun _ _ h => h) h)
  cases write with
  | sync registry => exact hHome (sync_home registry)
  | bindDeployment chainID deployment => exact hHome (bindDeployment_home chainID deployment)
  | configure config => exact hHome (configure_home config)
  | initializeCursor cursor => exact hHome (initializeCursor_home cursor)
  | save observation =>
      unfold Write.perform
      rw [hKeccak]
      exact (save_home hWrite hRoom).commit (fun _ _ => same_succ) h
  | applyConfirmedBlock outbox block =>
      exact (applyConfirmedBlock_home hKeccak hWrite hRoom).commit (fun _ _ => same_succ) h
  | createSnapshot request =>
      unfold Write.perform
      rw [hKeccak]
      have hOutside : ∀ db, g.Apart n db →
          g.Outside n (g.view db) (commit (createTrustViewSnapshot g.keccak request) db) :=
        fun db hApart => createTrustViewSnapshot_outside.commit ⟨hApart, rfl⟩
      obtain ⟨hLeft, hViewLeft⟩ := hOutside s h.left
      obtain ⟨hRight, hViewRight⟩ := hOutside t h.right
      exact same_succ ⟨hLeft, hRight, hViewLeft.trans (h.view.trans hViewRight.symm)⟩
  | _ => exact absurd rfl hGossip

/-- Histories with and without gossip keep the same home view. -/
theorem run_same (hKeccak : p.keccak = g.keccak) {writes : List Write}
    (hWrites : ∀ write ∈ writes, g.Admits write) (hRoom : n + writes.length ≤ maxInt64) {s t : DB}
    (h : g.Same n s t) :
    g.Same (n + writes.length) (run p writes s) (run p (withoutGossip writes) t) := by
  induction writes generalizing n s t with
  | nil => exact h
  | cons write writes ih =>
      rw [List.length_cons] at hRoom ⊢
      have hWrite := hWrites write List.mem_cons_self
      have hRest : ∀ other ∈ writes, g.Admits other :=
        fun other hMem => hWrites other (List.mem_cons_of_mem write hMem)
      have hLength : n + (writes.length + 1) = n + 1 + writes.length := by omega
      rw [hLength]
      by_cases hGossip : write.isGossip
      · have hDrop : withoutGossip (write :: writes) = withoutGossip writes := by
          simp [withoutGossip, hGossip]
        rw [hDrop]
        obtain ⟨hLeft, hView⟩ := perform_outside hKeccak hGossip hWrite ⟨h.left, rfl⟩
        exact ih hRest (by omega) ⟨hLeft, h.right.mono n.le_succ, hView.trans h.view⟩
      · have hKeep : withoutGossip (write :: writes) = write :: withoutGossip writes := by
          simp [withoutGossip, hGossip]
        rw [hKeep]
        exact ih hRest (by omega) (perform_home hKeccak hGossip hWrite (by omega) h)

theorem same_empty : g.Same 0 DB.empty DB.empty := by
  have hApart : g.Apart 0 DB.empty := by
    constructor
    all_goals simp [DB.empty]
  exact ⟨hApart, hApart, rfl⟩

end Histories

end Gossip

/-! ## The block after both histories -/

/-- What the database holds of an evidence. -/
structure Holdings where
  record : Option EvidenceRecord
  edges : List EdgeRow
  witnesses : List GraphWitness
  outbox : List OutboxRow
  deriving DecidableEq

/-- The evidence with the edges, the witnesses and the outbox entries that name it. -/
def DB.holdings (db : DB) (id : EvidenceID) : Holdings where
  record := db.evidence.find? id
  edges := db.edges.rows.filter fun row => row.evidenceID = id
  witnesses := db.witnesses.rows.filter fun row => row.evidenceID = id
  outbox := db.outbox.rows.filter fun row => row.evidenceID = id

theorem Gossip.view_holdings {g : Gossip} {db : DB} (hOurs : g.ours id) :
    (g.view db).holdings id = db.holdings id := by
  have hEdges : (g.view db).edges.rows.filter (fun row => row.evidenceID = id) =
      db.edges.rows.filter fun row => row.evidenceID = id := by
    apply Table.rows_filter_filter
    intro row _ hRow
    rwa [of_decide_eq_true hRow]
  have hWitnesses : (g.view db).witnesses.rows.filter (fun row => row.evidenceID = id) =
      db.witnesses.rows.filter fun row => row.evidenceID = id := by
    apply Table.rows_filter_filter
    intro row _ hRow
    rwa [of_decide_eq_true hRow]
  unfold DB.holdings
  rw [Gossip.view_find?_evidence hOurs, hEdges, hWitnesses]
  rfl

section Isolation

variable (p : Primitives) (writes : List Write) (outbox : Option Outbox) (block : ConfirmedBlock)

/-- The hash assumption: no two of the byte strings that identify rows in the history and the block
collide. -/
def HistoryCollisionFree : Prop :=
  CollisionFree p.keccak {input | ∃ write ∈ writes ++ [.applyConfirmedBlock outbox block],
    input ∈ write.hashed p.keccak}

/-- No block of the history, and not the given block, brings evidence that an envelope has named. -/
def NoSharedEvidence : Prop :=
  ∀ write ∈ writes ++ [.applyConfirmedBlock outbox block], ∀ material ∈ write.dependencies,
    ∀ received ∈ writes, material.evidence.id ∉ received.received p.keccak

instance : Decidable (NoSharedEvidence p writes outbox block) :=
  inferInstanceAs (Decidable (∀ write ∈ writes ++ [.applyConfirmedBlock outbox block],
    ∀ material ∈ write.dependencies, ∀ received ∈ writes,
      material.evidence.id ∉ received.received p.keccak))

variable {p writes outbox block}

/-- The byte strings of a history are finitely many, so that the assumption can be checked. -/
theorem historyCollisionFree_of_forall
    (hInj : ∀ write ∈ writes ++ [.applyConfirmedBlock outbox block], ∀ a ∈ write.hashed p.keccak,
      ∀ other ∈ writes ++ [.applyConfirmedBlock outbox block], ∀ b ∈ other.hashed p.keccak,
        p.keccak a = p.keccak b → a = b)
    (hZero : ∀ write ∈ writes ++ [.applyConfirmedBlock outbox block],
      ∀ a ∈ write.hashed p.keccak, p.keccak a ≠ 0) :
    HistoryCollisionFree p writes outbox block where
  injOn := by
    rintro a ⟨write, hWrite, ha⟩ b ⟨other, hOther, hb⟩ hEq
    exact hInj write hWrite a ha other hOther b hb hEq
  ne_zero := by
    rintro a ⟨write, hWrite, ha⟩
    exact hZero write hWrite a ha

/-- The gossip of a history. -/
def gossipOf (hHash : HistoryCollisionFree p writes outbox block) : Gossip where
  keccak := p.keccak
  received := writes.flatMap (Write.received p.keccak)
  inputs := {input | ∃ write ∈ writes ++ [.applyConfirmedBlock outbox block],
    input ∈ write.hashed p.keccak}
  injOn := hHash.injOn

variable {hHash : HistoryCollisionFree p writes outbox block}

theorem gossipOf_ours :
    (gossipOf hHash).ours id ↔ ∀ write ∈ writes, id ∉ write.received p.keccak := by
  simp [Gossip.ours, gossipOf]

/-- The identifier of an observation is not the one of a received locator: the first hashes a
transaction hash of zero, which the second may not have. -/
theorem gossipOf_ours_synthetic {observation : TrustRootObservation}
    (hMem : Write.save observation ∈ writes) :
    (gossipOf hHash).ours (observation.syntheticEvidence p.keccak).id := by
  rw [gossipOf_ours]
  intro write hWrite hReceived
  cases write with
  | receive now envelope sender =>
      obtain ⟨hValid, hID⟩ := Locator.computeID_eq_ok.mp (Write.mem_received.mp hReceived)
      have hInput : envelope.locator.encoded ∈ (gossipOf hHash).inputs :=
        ⟨_, List.mem_append_left _ hWrite, by simp [Write.hashed]⟩
      have hInput' : (observation.syntheticLocator p.keccak).encoded ∈ (gossipOf hHash).inputs :=
        ⟨_, List.mem_append_left _ hMem, by simp [Write.hashed]⟩
      cases hSynthetic : (observation.syntheticLocator p.keccak).computeSyntheticID p.keccak with
      | error e =>
          rw [ObservationContent.syntheticEvidence, hSynthetic] at hID
          exact hHash.ne_zero _ hInput hID
      | ok id =>
          rw [ObservationContent.syntheticEvidence, hSynthetic] at hID
          have hSame : p.keccak envelope.locator.encoded =
              p.keccak (observation.syntheticLocator p.keccak).encoded :=
            hID.trans (Locator.computeSyntheticID_eq_ok hSynthetic)
          have hLocator := Locator.encoded_injective (hHash.injOn hInput hInput' hSame)
          have hTx := (Locator.validate_eq_ok.mp hValid).2.2.2.1
          rw [hLocator] at hTx
          exact hTx rfl
  | _ => simp [Write.received] at hReceived

/-- Every write of the history, and the block, keep to their side. -/
theorem gossipOf_admits (hShared : NoSharedEvidence p writes outbox block) {write : Write}
    (hWrite : write ∈ writes ++ [.applyConfirmedBlock outbox block]) :
    (gossipOf hHash).Admits write := by
  have hInput : ∀ input ∈ write.hashed p.keccak, input ∈ (gossipOf hHash).inputs :=
    fun input hInput => ⟨write, hWrite, hInput⟩
  have hHistory : (∀ outbox block, write ≠ .applyConfirmedBlock outbox block) → write ∈ writes := by
    intro hOther
    rcases List.mem_append.mp hWrite with hMem | hMem
    · exact hMem
    · exact absurd (List.mem_singleton.mp hMem) (hOther outbox block)
  cases write with
  | save observation => exact gossipOf_ours_synthetic (hHistory (by simp))
  | applyConfirmedBlock outbox' block' =>
      intro material hMaterial
      refine ⟨gossipOf_ours.mpr (hShared _ hWrite material hMaterial), hInput _ ?_, hInput _ ?_⟩
      all_goals exact List.mem_flatMap.mpr ⟨material, hMaterial, by simp⟩
  | receive now envelope sender =>
      intro id hID hOurs
      exact gossipOf_ours.mp hOurs _ (hHistory (by simp)) (Write.mem_received.mpr hID)
  | activate messageID validation =>
      exact ⟨hInput _ List.mem_cons_self, hInput _ (List.mem_cons_of_mem _ List.mem_cons_self)⟩
  | _ => trivial

end Isolation

namespace Toy

/-- A peer sends the coordinates of a log. -/
def received (locator : Locator) : List Write :=
  ((Envelope.new primitives [1] 1 locator).toOption.map fun envelope => .receive 1 envelope [1]).toList

/-- What the validator finds for the dependency of block 5. -/
def validation : RemoteValidation where
  record := (material 2).evidence
  dependency := ⟨(dependency 2 0).dependencyKey, requestID 2, 2, 3, 1003, 44, 1⟩
  homeTrustRoot := homeRoot 2
  witnessSiblings := (witness 2).siblings
  sourceObservation := ⟨2, 3, 1003, 44, (toNode 2).evidenceID⟩
  homeObservation := ⟨1, 5, 1005, homeRoot 2, (fromNode 2).evidenceID⟩
  pathStepCostGas := 5

/-- The received coordinates are validated and activated. -/
def activated (locator : Locator) : List Write :=
  ((Envelope.new primitives [1] 1 locator).toOption.map fun envelope =>
    .activate envelope.messageID validation).toList

end Toy

/-- A confirmed block is applied with the same outcome after a history and after the same history
without gossip, and then leaves the same evidence, edges, witnesses and outbox entries for its
dependencies, as long as blocks and envelopes share no evidence. -/
theorem applyConfirmedBlock_isolated {p : Primitives} {writes : List Write}
    {outbox : Option Outbox} {block : ConfirmedBlock}
    (hHash : HistoryCollisionFree p writes outbox block)
    (hLength : writes.length < maxInt64) (hShared : NoSharedEvidence p writes outbox block) :
    ((∃ outcome, applyConfirmedBlock p outbox block (run p writes DB.empty) = .ok outcome) ↔
        ∃ outcome, applyConfirmedBlock p outbox block (run p (withoutGossip writes) DB.empty) =
          .ok outcome) ∧
      ∀ isNew db isNew' db',
        applyConfirmedBlock p outbox block (run p writes DB.empty) = .ok (isNew, db) →
        applyConfirmedBlock p outbox block (run p (withoutGossip writes) DB.empty) =
          .ok (isNew', db') →
        isNew = isNew' ∧ ∀ material ∈ block.dependencies,
          db.holdings material.evidence.id = db'.holdings material.evidence.id := by
  have hAdmits : ∀ write ∈ writes ++ [.applyConfirmedBlock outbox block],
      (gossipOf hHash).Admits write := fun write => gossipOf_admits hShared
  have hBlock : (gossipOf hHash).Admits (.applyConfirmedBlock outbox block) :=
    hAdmits _ (List.mem_append_right _ (List.mem_singleton.mpr rfl))
  have hRun : (gossipOf hHash).Same (0 + writes.length) (run p writes DB.empty)
      (run p (withoutGossip writes) DB.empty) :=
    Gossip.run_same rfl (fun write hMem => hAdmits write (List.mem_append_left _ hMem)) (by omega)
      Gossip.same_empty
  have hAgree : Agree ((gossipOf hHash).Same (0 + writes.length + 1))
      (applyConfirmedBlock p outbox block (run p writes DB.empty))
      (applyConfirmedBlock p outbox block (run p (withoutGossip writes) DB.empty)) :=
    Gossip.applyConfirmedBlock_home rfl hBlock (by omega) _ _ hRun
  generalize applyConfirmedBlock p outbox block (run p writes DB.empty) = x,
    applyConfirmedBlock p outbox block (run p (withoutGossip writes) DB.empty) = y at hAgree
  cases hAgree with
  | error e =>
      refine ⟨Iff.rfl, ?_⟩
      rintro isNew db isNew' db' ⟨⟩
  | ok a hNext =>
      refine ⟨⟨fun _ => ⟨_, rfl⟩, fun _ => ⟨_, rfl⟩⟩, ?_⟩
      rintro isNew db isNew' db' ⟨⟩ ⟨⟩
      refine ⟨rfl, fun material hMaterial => ?_⟩
      have hOurs := (hBlock material hMaterial).evidence
      rw [← Gossip.view_holdings hOurs, hNext.view, Gossip.view_holdings hOurs]

/-- A peer announces another log of block 5 before the block arrives. -/
theorem applyConfirmedBlock_isolated_toy :
    let writes := Toy.setup 2 ++ Toy.received { Toy.locator 2 with logIndex := 9 }
    let apply writes := applyConfirmedBlock Toy.primitives (some ⟨[2], 1⟩) (Toy.block 2)
      (run Toy.primitives writes DB.empty)
    (apply writes).map Prod.fst = .ok true ∧ ∃ outcome, apply (withoutGossip writes) = .ok outcome := by
  intro writes apply
  have hApplied : (apply writes).map Prod.fst = .ok true := by decide +kernel
  have hHash : HistoryCollisionFree Toy.primitives writes (some ⟨[2], 1⟩) (Toy.block 2) :=
    historyCollisionFree_of_forall (by decide +kernel) (by decide +kernel)
  refine ⟨hApplied, (applyConfirmedBlock_isolated hHash (by decide +kernel) (by decide +kernel)).1.mp ?_⟩
  cases hOutcome : apply writes with
  | error e => simp [hOutcome, Except.map] at hApplied
  | ok outcome => exact ⟨outcome, hOutcome⟩

/-- An envelope with the coordinates of a log of the home chain that arrives before its block makes
the block fail with an error that degrades the cursor. -/
theorem gossip_disturbs_home_block :
    let early := Toy.setup 2 ++ Toy.received (Toy.locator 2)
    let applied writes :=
      (applyConfirmedBlock Toy.primitives (some ⟨[2], 1⟩) (Toy.block 2)
        (run Toy.primitives writes DB.empty)).map Prod.fst
    applied early = .error .inactiveEvidence ∧ applied (withoutGossip early) = .ok true := by
  decide +kernel

end TrustMap.Mapnode.Store
