import TrustMap.Mapnode.Store.Plans

/-!
`PathProofRepository`, and `Builder.Build` as it runs on the database: it loads the material of a
plan, assembles and checks the proof, saves it and returns the stored one.
-/

namespace TrustMap.Mapnode.Store

open Transaction

/-- The error for material that is not there or not what the plan asks for. -/
def materialMissing : WorkError :=
  .build .proofMaterialMissing

/-! ## The repository -/

/-- The join of `plan_hops` and `snapshot_edges`: the edge of one hop of a plan, and its snapshot. -/
def WorkDB.hopEdge (db : WorkDB) (planID snapshotID : Bytes32) (index : ℕ) (edgeID : EdgeID) :
    Option (TrustViewSnapshot × TrustEdge) := do
  let plan ← db.plans.find? planID
  guard (plan.snapshotID = snapshotID ∧ plan.hops[index]? = some edgeID)
  let snapshot ← db.store.snapshots.find? snapshotID
  let edge ← snapshot.edges.find? fun edge => edge.id = edgeID
  return (snapshot, edge)

/-- `loadWitnessSiblings`. -/
def WorkDB.witnessSiblings (db : WorkDB) (id : WitnessID) : List Bytes32 :=
  ((db.store.witnesses.find? id).map (·.siblings)).getD []

/-- `loadPathProofMaterial`. -/
def loadPathProofMaterial (keccak : Keccak) (planID snapshotID : Bytes32) (index : ℕ)
    (edgeID : EdgeID) : WorkTx PathProofMaterial := do
  let row ← gets (·.hopEdge planID snapshotID index edgeID)
  let (snapshot, edge) ← expect row materialMissing
  let witnessID ← expect edge.witnessID
    (.store (.invalidInput "corrupt PathProof witness ID length: got 0, want 32"))
  let siblings ← gets (·.witnessSiblings witnessID)
  require (siblings ≠ []) materialMissing
  let fromNode ← expect (snapshot.findNode edge.fromID) materialMissing
  let toNode ← expect (snapshot.findNode edge.toID) materialMissing
  require ((newGraphWitness keccak edge.evidenceID edge.leafIndex siblings).id = witnessID)
    materialMissing
  return ⟨planID, snapshotID, index, edge, fromNode, toNode,
    ⟨witnessID, edge.evidenceID, edge.leafIndex, siblings⟩⟩

/-- The plan and the target of a proof, as `SavePathProof` and `loadPathProof` check them. -/
def loadProofPlan (keccak : Keccak) (requestID planID snapshotID baseTrustRoot : Bytes32)
    (hops : ℕ) : WorkTx Plan := do
  let row ← gets (·.plans.find? planID)
  require row.isSome materialMissing
  let plan ← loadPlan keccak planID
  require (plan.type = .path ∧ plan.requestID = requestID ∧ plan.snapshotID = snapshotID ∧
    plan.hops.length = hops ∧ hops ≠ 0) materialMissing
  let target ← gets fun db => (db.store.snapshots.find? snapshotID).bind fun snapshot =>
    snapshot.findNode plan.targetNodeID
  let target ← expect target materialMissing
  require (target.root = baseTrustRoot) materialMissing
  return plan

/-- One turn of the loop of `loadPathProof`: hop number `index` of the proof, with its block hash and
its witness. -/
def loadProofHop (keccak : Keccak) (plan : Plan) (index : ℕ) (hop : PathProofHop) :
    WorkTx (Bytes32 × MembershipWitness) := do
  require (hop.planHopIndex = plan.hops.length - 1 - index ∧
    plan.hops[hop.planHopIndex]? = some hop.edgeID) materialMissing
  let material ← loadPathProofMaterial keccak plan.id plan.snapshotID hop.planHopIndex hop.edgeID
  require (material.witness.id = hop.witnessID ∧ material.toNode.id = hop.toNodeID ∧
    material.toNode.key.blockHash = hop.blockHash) materialMissing
  let witness ← expect (newMembershipWitness material.witness.leafIndex material.witness.siblings)
    materialMissing
  return (hop.blockHash, witness)

/-- The loop of `loadPathProof`. -/
def loadProofHops (keccak : Keccak) (plan : Plan) :
    ℕ → List PathProofHop → WorkTx (List (Bytes32 × MembershipWitness))
  | _, [] => pure []
  | index, hop :: hops => do
      let first ← loadProofHop keccak plan index hop
      let rest ← loadProofHops keccak plan (index + 1) hops
      return first :: rest

/-- `loadPathProof`. -/
def loadPathProof (keccak : Keccak) (id : Bytes32) : WorkTx PathProof := do
  let row ← gets (·.proofs.find? id)
  let row ← expect row (.build .pathProofNotFound)
  let plan ← loadProofPlan keccak row.requestID row.planID row.snapshotID row.baseTrustRoot
    row.hops.length
  let loaded ← loadProofHops keccak plan 0 row.hops
  let proof : PathProof := {
    id := row.id
    requestID := row.requestID
    planID := row.planID
    snapshotID := row.snapshotID
    baseTrustRoot := row.baseTrustRoot
    blockHashes := loaded.map (·.1)
    witnesses := loaded.map (·.2)
    hops := row.hops }
  require (proof.id = proof.computeID keccak) (.build .pathProofIDMismatch)
  return proof

/-- The loop of `SavePathProof` over the hops: each has to be the one `loadPathProof` will find, with
the given block hash and witness, and with a node. -/
def checkProofHops (keccak : Keccak) (plan : Plan) :
    ℕ → List (PathProofHop × Bytes32 × MembershipWitness) → WorkTx Unit
  | _, [] => pure ()
  | index, (hop, given) :: hops => do
      require (hop.blockHash = given.1 ∧ hop.toNodeID ≠ 0) materialMissing
      let stored ← loadProofHop keccak plan index hop
      require (stored = given) materialMissing
      checkProofHops keccak plan (index + 1) hops

/-- `INSERT INTO proofs` with the rows of `proof_hops`, whose foreign keys were checked hop by hop; a
plan has one proof. -/
def insertProof (row : PathProofRow) : WorkTx Unit := fun db =>
  if ∃ other ∈ db.proofs.rows, other.planID = row.planID then .error (.store .constraint)
  else
    match db.proofs.insert? row with
    | some proofs => .ok ((), { db with proofs := proofs })
    | none => .error (.store .constraint)

/-- The row of a proof. -/
def proofRow (proof : PathProof) : PathProofRow :=
  ⟨proof.id, proof.requestID, proof.planID, proof.snapshotID, proof.baseTrustRoot, proof.hops⟩

/-- `SavePathProof`. -/
def savePathProof (keccak : Keccak) (proof : PathProof) : WorkTx Unit := do
  require (proof.id ≠ 0 ∧ proof.id = proof.computeID keccak) (.build .pathProofIDMismatch)
  require (proof.hops ≠ [] ∧ proof.hops.length = proof.blockHashes.length ∧
    proof.hops.length = proof.witnesses.length) materialMissing
  let plan ← loadProofPlan keccak proof.requestID proof.planID proof.snapshotID
    proof.baseTrustRoot proof.hops.length
  checkProofHops keccak plan 0 (proof.hops.zip (proof.blockHashes.zip proof.witnesses))
  match ← gets (·.proofs.find? proof.id) with
  | some _ =>
      let existing ← loadPathProof keccak proof.id
      require (existing.id = proof.id ∧ existing.computeID keccak = proof.id)
        (.build .pathProofIDMismatch)
  | none =>
      insertProof (proofRow proof)

/-! ## The builder -/

/-- The loop of `Build` over the hops of the plan: their material, and the node they end at. -/
def loadMaterials (keccak : Keccak) (plan : Plan) (snapshot : TrustViewSnapshot) :
    ℕ → NodeID → List EdgeID → WorkTx (List PathProofMaterial × NodeID)
  | _, expectedFrom, [] => pure ([], expectedFrom)
  | index, expectedFrom, edgeID :: hops => do
      let material ← loadPathProofMaterial keccak plan.id snapshot.id index edgeID
      require (validMaterial keccak plan snapshot index edgeID expectedFrom material)
        materialMissing
      let (materials, last) ← loadMaterials keccak plan snapshot (index + 1) material.toNode.id hops
      return (material :: materials, last)

/-- The part of `Build` that only reads: the proof it is about to save. -/
def prepareProof (keccak : Keccak) (depth : UInt8) (request : BuildRequest) : WorkTx PathProof := do
  let plan ← loadPlan keccak request.planID
  require (plan.id = request.planID ∧ plan.id = plan.computeID keccak ∧ plan.type = .path ∧
    plan.hops ≠ []) materialMissing
  let snapshot ← loadTrustViewSnapshot plan.snapshotID
  require (snapshot.id = plan.snapshotID ∧ snapshot.isSealed ∧
    snapshot.startNodeID = plan.homeNodeID ∧ snapshot.targetNodeID = plan.targetNodeID)
    materialMissing
  require (snapshot.homeTrustRoot = request.expectedHomeTrustRoot) (.build .staleTrustViewSnapshot)
  let target ← expect (snapshot.findNode snapshot.targetNodeID) materialMissing
  require (target.key.blockHash = request.sourceBlockHash) (.build .sourceBlockHashMismatch)
  let (materials, last) ← loadMaterials keccak plan snapshot 0 snapshot.startNodeID plan.hops
  require (last = snapshot.targetNodeID) materialMissing
  check (assembleProof keccak depth request plan snapshot target materials) .build

/-- `Build`; proofs are compared as a whole. -/
def build (keccak : Keccak) (depth : UInt8) (request : BuildRequest) : WorkProcess PathProof := do
  let proof ← .atomically (prepareProof keccak depth request)
  .atomically (savePathProof keccak proof)
  let persisted ← .atomically (loadPathProof keccak proof.id)
  .check (Checks.require (persisted.id = persisted.computeID keccak ∧ proof = persisted)
    BuildError.pathProofIDMismatch) .build
  return persisted

/-! ## What a proof that was built has passed -/

section Built

variable {keccak : Keccak}

theorem loadPathProofMaterial_within {planID snapshotID : Bytes32} {index : ℕ} {edgeID : EdgeID} :
    Within Eq (loadPathProofMaterial keccak planID snapshotID index edgeID) := by
  refine .bind .gets fun row => .bind .expect fun bound => ?_
  exact .bind .expect fun _ => .bind .gets fun _ => .bind .require fun _ => .bind .expect fun _ =>
    .bind .expect fun _ => .bind .require fun _ => .pure

theorem loadMaterials_within {plan : Plan} {snapshot : TrustViewSnapshot} {index : ℕ}
    {expectedFrom : NodeID} {hops : List EdgeID} :
    Within Eq (loadMaterials keccak plan snapshot index expectedFrom hops) := by
  induction hops generalizing index expectedFrom with
  | nil => exact .pure
  | cons edgeID hops ih =>
      exact .bind loadPathProofMaterial_within fun _ => .bind .require fun _ => .bind ih fun _ => .pure

theorem loadTrustViewSnapshot_ensures {P : WorkDB → Prop} {id : Bytes32} :
    Ensures P (loadTrustViewSnapshot id) fun snapshot db =>
      P db ∧ db.store.snapshots.find? id = some snapshot := by
  intro db hP snapshot db' hRun
  obtain ⟨hFind, rfl⟩ := loadTrustViewSnapshot_ok hRun
  exact ⟨hP, hFind⟩

theorem prepareProof_ensures {P : WorkDB → Prop} {depth : UInt8} {request : BuildRequest} :
    Ensures P (prepareProof keccak depth request) fun proof db =>
      P db ∧ ∃ plan snapshot target materials, db.plans.find? request.planID = some plan ∧
        db.store.snapshots.find? plan.snapshotID = some snapshot ∧
        snapshot.findNode plan.targetNodeID = some target ∧
        assembleProof keccak depth request plan snapshot target materials = .ok proof := by
  refine .bind loadPlan_ensures fun plan => .require fun _ => ?_
  refine .bind loadTrustViewSnapshot_ensures fun snapshot => .require fun hSnapshot => ?_
  refine .require fun _ => .expect fun target hTarget => .require fun _ => ?_
  refine .seq (.of_within loadMaterials_within fun _ _ hEq hP => hEq ▸ hP) fun loaded => ?_
  refine .require fun _ => ?_
  intro db hStored proof db' hRun
  cases hAssemble : assembleProof keccak depth request plan snapshot target loaded.1 with
  | error e =>
      rw [hAssemble] at hRun
      cases hRun
  | ok assembled =>
      rw [hAssemble] at hRun
      cases hRun
      rw [hSnapshot.2.2.2] at hTarget
      exact ⟨hStored.1.1, plan, snapshot, target, loaded.1, hStored.1.2.1, hStored.2, hTarget, hAssemble⟩

/-- `Build` returns the proof it has assembled for a stored plan on its stored snapshot. -/
theorem build_eq_ok {depth : UInt8} {request : BuildRequest} {db : WorkDB} {proof : PathProof}
    (hRun : (build keccak depth request db).1 = .ok proof) :
    ∃ plan snapshot target materials, db.plans.find? request.planID = some plan ∧
      db.store.snapshots.find? plan.snapshotID = some snapshot ∧
      snapshot.findNode plan.targetNodeID = some target ∧
      assembleProof keccak depth request plan snapshot target materials = .ok proof := by
  obtain ⟨prepared, _, hPrepare, hSave⟩ := Process.bind_eq_ok.mp hRun
  obtain ⟨_, _, _, hLoad⟩ := Process.bind_eq_ok.mp hSave
  obtain ⟨persisted, _, _, hCompare⟩ := Process.bind_eq_ok.mp hLoad
  obtain ⟨_, _, hSame, hReturn⟩ := Process.bind_eq_ok.mp hCompare
  obtain ⟨hSame, -⟩ := Process.check_eq_ok.mp hSame
  obtain ⟨-, rfl⟩ := Checks.require_eq_ok.mp hSame
  obtain rfl : prepared = proof := Except.ok.inj hReturn
  obtain ⟨rfl, hBuilt⟩ := prepareProof_ensures (P := (· = db)) _ rfl _ _
    (Process.atomically_eq_ok.mp hPrepare)
  exact hBuilt

end Built

end TrustMap.Mapnode.Store
