import TrustMap.Mapnode.Store.Material
import TrustMap.Mapnode.Store.Proofs

/-!
When `Builder.Build` returns a proof. The material of a path is loaded, checked, stored and loaded
again hop by hop; whether the proof closes depends on the depth only.
-/

namespace TrustMap.Mapnode.Store

open Transaction Internal.Proof

/-- An edge of a plan with its nodes and its witness. -/
structure Hop where
  edge : TrustEdge
  fromNode : TrustNode
  toNode : TrustNode
  witness : GraphWitness
  siblings_ne_nil : witness.siblings ≠ []

namespace Hop

/-- The material of a hop at the given place of the plan. -/
def material (hop : Hop) (planID snapshotID : Bytes32) (index : ℕ) : PathProofMaterial :=
  ⟨planID, snapshotID, index, hop.edge, hop.fromNode, hop.toNode, hop.witness⟩

/-- The witness in a proof. -/
def membership (hop : Hop) : MembershipWitness :=
  ⟨hop.witness.leafIndex, hop.witness.siblings, hop.siblings_ne_nil⟩

/-- What a proof says about a hop besides its witness. -/
def proofHop (hop : Hop) (index : ℕ) : PathProofHop :=
  ⟨index, hop.edge.id, hop.toNode.id, hop.toNode.key.blockHash, hop.witness.id⟩

theorem newMembershipWitness_eq (hop : Hop) :
    newMembershipWitness hop.witness.leafIndex hop.witness.siblings = some hop.membership := by
  rw [newMembershipWitness, dif_neg hop.siblings_ne_nil]
  rfl

end Hop

/-- The hop is in the snapshot and its witness is stored. -/
structure HopReady (keccak : Keccak) (db : WorkDB) (snapshot : TrustViewSnapshot) (hop : Hop) :
    Prop where
  edge : (snapshot.edges.find? fun edge => edge.id = hop.edge.id) = some hop.edge
  fromNode : snapshot.findNode hop.edge.fromID = some hop.fromNode
  toNode : snapshot.findNode hop.edge.toID = some hop.toNode
  toID : hop.toNode.id ≠ 0
  witness : db.store.witnesses.find? hop.witness.id = some hop.witness
  backing : Backing keccak hop.edge hop.fromNode hop.toNode hop.witness

/-- A stored plan that takes a path of its stored snapshot, with the hops of the path. -/
structure Buildable (keccak : Keccak) (db : WorkDB) (plan : Plan) (snapshot : TrustViewSnapshot)
    (target : TrustNode) (hops : List Hop) : Prop where
  stored : db.plans.find? plan.id = some plan
  id : plan.id = plan.computeID keccak
  type : plan.type = .path
  loaded : db.store.snapshots.find? plan.snapshotID = some snapshot
  isSealed : snapshot.isSealed = true
  homeNodeID : snapshot.startNodeID = plan.homeNodeID
  targetNodeID : snapshot.targetNodeID = plan.targetNodeID
  target : snapshot.findNode snapshot.targetNodeID = some target
  edges : plan.hops = hops.map (·.edge.id)
  nonempty : hops ≠ []
  joins : snapshot.Joins (hops.map (·.edge))
  ready : ∀ hop ∈ hops, HopReady keccak db snapshot hop

section Material

variable {keccak : Keccak} {db : WorkDB} {plan : Plan} {snapshot : TrustViewSnapshot}
  {target : TrustNode} {hops : List Hop}

theorem Buildable.snapshotID (h : Buildable keccak db plan snapshot target hops) :
    snapshot.id = plan.snapshotID :=
  (Table.find?_eq_some.mp h.loaded).2

theorem HopReady.material_witness {hop : Hop} (h : HopReady keccak db snapshot hop) :
    (⟨hop.witness.id, hop.edge.evidenceID, hop.edge.leafIndex, hop.witness.siblings⟩ :
      GraphWitness) = hop.witness := by
  rw [← h.backing.evidenceID, ← h.backing.leafIndex]

variable {index : ℕ}

/-- The material of a hop is found. -/
theorem Buildable.loadPathProofMaterial (h : Buildable keccak db plan snapshot target hops)
    {hop : Hop} (hReady : HopReady keccak db snapshot hop)
    (hIndex : plan.hops[index]? = some hop.edge.id) :
    loadPathProofMaterial keccak plan.id plan.snapshotID index hop.edge.id db =
      .ok (hop.material plan.id plan.snapshotID index, db) := by
  have hEdge : db.hopEdge plan.id plan.snapshotID index hop.edge.id = some (snapshot, hop.edge) := by
    simp [WorkDB.hopEdge, h.stored, h.loaded, hIndex, hReady.edge]
  have hSiblings : db.witnessSiblings hop.witness.id = hop.witness.siblings := by
    simp [WorkDB.witnessSiblings, hReady.witness]
  rw [Store.loadPathProofMaterial, gets_bind_apply, hEdge, expect_some_bind_apply]
  simp only [hReady.backing.witnessID, expect_some_bind_apply, gets_bind_apply, hSiblings,
    require_bind_apply, if_pos hop.siblings_ne_nil, hReady.fromNode, hReady.toNode,
    if_pos hReady.backing.hash, hReady.material_witness]
  rfl

/-- The loop of `Build` loads the material of all hops and ends at the target. -/
theorem Buildable.loadMaterials (h : Buildable keccak db plan snapshot target hops)
    {expectedFrom last : NodeID} {rest : List Hop}
    (hPath : snapshot.graph.IsPath expectedFrom (rest.map (·.edge)) last)
    (hReady : ∀ hop ∈ rest, HopReady keccak db snapshot hop)
    (hIndex : ∀ item ∈ rest.zipIdx index, plan.hops[item.2]? = some item.1.edge.id) :
    loadMaterials keccak plan snapshot index expectedFrom (rest.map (·.edge.id)) db =
      .ok (((rest.zipIdx index).map fun item =>
        item.1.material plan.id snapshot.id item.2, last), db) := by
  induction rest generalizing index expectedFrom with
  | nil =>
      obtain rfl : expectedFrom = last := hPath
      rfl
  | cons hop rest ih =>
      rw [List.map_cons, Digraph.Edges.isPath_cons] at hPath
      obtain ⟨-, hFrom, hRest⟩ := hPath
      rw [List.zipIdx_cons, List.forall_mem_cons] at hIndex
      rw [List.forall_mem_cons] at hReady
      have hHop := hReady.1
      have hLoad := h.loadPathProofMaterial hHop hIndex.1
      rw [← h.snapshotID] at hLoad
      have hFromID : hop.fromNode.id = hop.edge.fromID := hHop.backing.fromID
      have hToID : hop.toNode.id = hop.edge.toID := hHop.backing.toID
      have hValid : validMaterial keccak plan snapshot index hop.edge.id expectedFrom
          (hop.material plan.id snapshot.id index) := by
        refine ⟨rfl, rfl, rfl, rfl, hFrom, hFromID, hToID, hHop.backing.evidenceID.symm,
          hHop.backing.leafIndex.symm, hHop.backing.witnessID, ?_, ?_, ?_, hHop.edge⟩
        · have hHash := hHop.backing.hash
          rw [← hHop.backing.evidenceID, ← hHop.backing.leafIndex] at hHash
          exact hHash.symm
        · exact hFromID ▸ hHop.fromNode
        · exact hToID ▸ hHop.toNode
      have hTail : Store.loadMaterials keccak plan snapshot (index + 1) hop.toNode.id
          (rest.map (·.edge.id)) db = .ok (((rest.zipIdx (index + 1)).map fun item =>
            item.1.material plan.id snapshot.id item.2, last), db) :=
        ih (hToID ▸ hRest) hReady.2 hIndex.2
      rw [List.map_cons, Store.loadMaterials, bind_of_ok hLoad, require_bind_apply, if_pos hValid]
      exact (bind_of_ok hTail).trans rfl

/-! ## The proof of a path -/

/-- The proof that is assembled from hops in the order of the verification, with their places in the
plan. -/
def proofOf (plan : Plan) (snapshotID : Bytes32) (target : TrustNode) (items : List (Hop × ℕ)) :
    PathProof where
  id := 0
  requestID := plan.requestID
  planID := plan.id
  snapshotID := snapshotID
  baseTrustRoot := target.root
  blockHashes := items.map fun item => item.1.toNode.key.blockHash
  witnesses := items.map fun item => item.1.membership
  hops := items.map fun item => item.1.proofHop item.2

variable {items : List (Hop × ℕ)}

theorem foldlM_addHop_material {planID snapshotID : Bytes32} {proof : PathProof} :
    (items.map fun item => item.1.material planID snapshotID item.2).foldlM addHop proof =
      .ok { proof with
        blockHashes := proof.blockHashes ++ items.map fun item => item.1.toNode.key.blockHash
        witnesses := proof.witnesses ++ items.map fun item => item.1.membership
        hops := proof.hops ++ items.map fun item => item.1.proofHop item.2 } := by
  induction items generalizing proof with
  | nil => simp [pure, Except.pure]
  | cons item items ih =>
      have hHop : addHop proof (item.1.material planID snapshotID item.2) = .ok { proof with
          blockHashes := proof.blockHashes ++ [item.1.toNode.key.blockHash]
          witnesses := proof.witnesses ++ [item.1.membership]
          hops := proof.hops ++ [item.1.proofHop item.2] } := by
        simp only [addHop, Hop.material, item.1.newMembershipWitness_eq]
        rfl
      rw [List.map_cons, List.foldlM_cons, hHop, Checks.ok_bind, ih]
      simp

/-- The hops of a plan in the order of the verification. -/
def verificationOrder (hops : List Hop) : List (Hop × ℕ) :=
  hops.zipIdx.reverse

theorem verificationOrder_map {β : Type} (hops : List Hop) (f : Hop → β) :
    ((verificationOrder hops).map fun item => f item.1) = (hops.map f).reverse := by
  have hFst : (fun item : Hop × ℕ => f item.1) = f ∘ Prod.fst := rfl
  rw [verificationOrder, List.map_reverse, hFst, ← List.map_map, List.zipIdx_map_fst]

variable {depth : UInt8} {request : BuildRequest}

theorem assembleProof_eq :
    assembleProof keccak depth request plan snapshot target
        (hops.zipIdx.map fun item => item.1.material plan.id snapshot.id item.2) =
      (do
        let proof := proofOf plan snapshot.id target (verificationOrder hops)
        Checks.require (proof.blockHashes.head? = some request.sourceBlockHash)
          .sourceBlockHashMismatch
        match verifyPath keccak target.root proof.blockHashes proof.witnesses
            request.expectedHomeTrustRoot depth with
        | .error e => .error (.verification e)
        | .ok () => .ok { proof with id := proof.computeID keccak }) := by
  rw [assembleProof, ← List.map_reverse, foldlM_addHop_material, Checks.ok_bind]
  rfl

/-- At another depth a witness leads nowhere. -/
theorem Backing.rootFromWitness_iff {edge : TrustEdge} {fromNode toNode : TrustNode}
    {witness : GraphWitness} (h : Backing keccak edge fromNode toNode witness) {root : Bytes32} :
    rootFromWitness keccak (leafHash keccak toNode.root toNode.key.blockHash) witness.leafIndex
        witness.siblings depth = .ok root ↔
      witness.siblings.length = depth.toNat ∧ root = fromNode.root := by
  obtain ⟨hRange, hLength, hIndex, hRoot⟩ := rootFromWitness_eq_ok_iff.mp h.root
  rw [rootFromWitness_eq_ok_iff, h.leafIndex, ← hRoot]
  constructor
  · rintro ⟨-, hDepth, -, hSame⟩
    exact ⟨hDepth, hSame⟩
  · rintro ⟨hDepth, hSame⟩
    have hEq : (UInt8.ofNat witness.siblings.length).toNat = depth.toNat := hLength.symm.trans hDepth
    rw [hEq] at hRange hIndex
    exact ⟨hRange, hDepth, hIndex, hSame⟩

/-- The walk from the target back to the start closes exactly at the depth of all witnesses. -/
theorem pathLoop_hops_iff {i : ℕ} {start : TrustNode} {last : NodeID}
    (hStart : snapshot.findNode snapshot.startNodeID = some start)
    (hLast : snapshot.findNode last = some target)
    (hPath : snapshot.graph.IsPath snapshot.startNodeID (hops.map (·.edge)) last)
    (hReady : ∀ hop ∈ hops, HopReady keccak db snapshot hop) :
    pathLoop keccak depth i target.root
        (hops.map fun hop => (hop.toNode.key.blockHash, hop.membership)).reverse =
        .ok start.root ↔
      ∀ hop ∈ hops, hop.witness.siblings.length = depth.toNat := by
  induction hops using List.reverseRecOn generalizing i last target with
  | nil =>
      obtain rfl : snapshot.startNodeID = last := hPath
      obtain rfl : target = start := Option.some.inj (hLast.symm.trans hStart)
      simp [pathLoop]
  | append_singleton hops hop ih =>
      rw [List.map_append, List.map_singleton] at hPath
      obtain ⟨hBefore, -, hTo⟩ := Digraph.Edges.isPath_snoc.mp hPath
      have hHop : HopReady keccak db snapshot hop := hReady hop (by simp)
      have hInit : ∀ other ∈ hops, HopReady keccak db snapshot other :=
        fun other hMem => hReady other (by simp [hMem])
      obtain rfl : hop.edge.toID = last := hTo
      obtain rfl : hop.toNode = target := Option.some.inj (hHop.toNode.symm.trans hLast)
      have hRest := ih (i := i + 1) hHop.fromNode hBefore hInit
      rw [List.map_append, List.map_singleton, List.reverse_append, List.reverse_singleton,
        List.singleton_append, pathLoop_cons_eq_ok_iff]
      constructor
      · rintro ⟨next, hRoot, hLoop⟩
        obtain ⟨hLength, rfl⟩ := hHop.backing.rootFromWitness_iff.mp hRoot
        have hAll := hRest.mp hLoop
        intro other hMem
        rcases List.mem_append.mp hMem with hMem | hMem
        · exact hAll other hMem
        · rw [List.mem_singleton.mp hMem]
          exact hLength
      · intro hAll
        refine ⟨hop.fromNode.root, ?_, hRest.mpr fun other hMem => hAll other (by simp [hMem])⟩
        exact hHop.backing.rootFromWitness_iff.mpr ⟨hAll hop (by simp), rfl⟩

/-- The check of the path of the hops against a root of the home chain. -/
def verifyHops (keccak : Keccak) (depth : UInt8) (plan : Plan) (snapshot : TrustViewSnapshot)
    (target : TrustNode) (hops : List Hop) (root : Bytes32) : Except ProofError Unit :=
  let proof := proofOf plan snapshot.id target (verificationOrder hops)
  verifyPath keccak target.root proof.blockHashes proof.witnesses root depth

/-- A request to build the proof of a plan, for the roots and the block of its snapshot. -/
structure AsksFor (request : BuildRequest) (plan : Plan) (snapshot : TrustViewSnapshot)
    (target : TrustNode) : Prop where
  plan : request.planID = plan.id
  root : snapshot.homeTrustRoot = request.expectedHomeTrustRoot
  source : target.key.blockHash = request.sourceBlockHash

/-- The places of the hops in the order of the verification. -/
def Placed (plan : Plan) (index : ℕ) (items : List (Hop × ℕ)) : Prop :=
  ∀ j item, items[j]? = some item → item.2 = plan.hops.length - 1 - (index + j) ∧
    plan.hops[item.2]? = some item.1.edge.id

theorem Placed.head {item : Hop × ℕ} (h : Placed plan index (item :: items)) :
    item.2 = plan.hops.length - 1 - index ∧ plan.hops[item.2]? = some item.1.edge.id :=
  h 0 item rfl

theorem Placed.tail {item : Hop × ℕ} (h : Placed plan index (item :: items)) :
    Placed plan (index + 1) items := by
  intro j other hOther
  have hNext := h (j + 1) other (by simpa using hOther)
  rwa [show index + 1 + j = index + (j + 1) by omega]

/-- The proof with its identifier. -/
def namedProof (keccak : Keccak) (plan : Plan) (target : TrustNode) (hops : List Hop) : PathProof :=
  let proof := proofOf plan plan.snapshotID target (verificationOrder hops)
  { proof with id := proof.computeID keccak }

/-- The database with a new proof. -/
def WorkDB.addProof (db : WorkDB) (proof : PathProof) : WorkDB :=
  { db with proofs := db.proofs.insertIgnore (proofRow proof) }

/-- The proof of a plan can be inserted: it is the first one of the plan, and the hash names it as no
other proof. -/
structure NewProof (db : WorkDB) (proof : PathProof) : Prop where
  nonzero : proof.id ≠ 0
  first : ∀ row ∈ db.proofs.rows, row.planID ≠ proof.planID
  fresh : ∀ row ∈ db.proofs.rows, row.id ≠ proof.id

theorem namedProof_hops_length :
    (namedProof keccak plan target hops).hops.length = hops.length := by
  simp [namedProof, proofOf, verificationOrder]

theorem NewProof.rows {proof : PathProof} (h : NewProof db proof) :
    db.proofs.insert? (proofRow proof) = some (db.addProof proof).proofs ∧
      (db.addProof proof).proofs.rows = db.proofs.rows ++ [proofRow proof] := by
  cases hInsert : db.proofs.insert? (proofRow proof) with
  | none =>
      obtain ⟨other, hMem, hID⟩ := Table.insert?_eq_none.mp hInsert
      exact absurd hID (h.fresh other hMem)
  | some proofs =>
      have hTable : (db.addProof proof).proofs = proofs := by
        simp only [WorkDB.addProof, Table.insertIgnore]
        exact congrArg (Option.getD · db.proofs) hInsert
      rw [hTable]
      exact ⟨rfl, (Table.insert?_eq_some.mp hInsert).2⟩

/-- The hash assumption about the proof that is about to be saved. -/
def ProofNamed (keccak : Keccak) (depth : UInt8) (request : BuildRequest) (db : WorkDB) : Prop :=
  ∀ proof db', prepareProof keccak depth request db = .ok (proof, db') →
    proof.id ≠ 0 ∧ ∀ row ∈ db.proofs.rows, row.id ≠ proof.id

section Proof

variable (h : Buildable keccak db plan snapshot target hops)

include h

theorem verifyPath_hops_iff {start : TrustNode}
    (hStart : snapshot.findNode snapshot.startNodeID = some start) :
    verifyHops keccak depth plan snapshot target hops start.root = .ok () ↔
      ∀ hop ∈ hops, hop.witness.siblings.length = depth.toNat := by
  have hHops : ((proofOf plan snapshot.id target (verificationOrder hops)).blockHashes.zip
      (proofOf plan snapshot.id target (verificationOrder hops)).witnesses) =
        (hops.map fun hop => (hop.toNode.key.blockHash, hop.membership)).reverse := by
    rw [← verificationOrder_map hops fun hop => (hop.toNode.key.blockHash, hop.membership)]
    exact List.zip_map' ..
  have hNonempty : (proofOf plan snapshot.id target (verificationOrder hops)).blockHashes ≠ [] := by
    simpa [proofOf, verificationOrder] using h.nonempty
  rw [verifyHops, verifyPath_eq_ok_iff, hHops, pathLoop_hops_iff hStart h.target h.joins h.ready]
  constructor
  · rintro ⟨-, -, -, hAll⟩
    exact hAll
  · intro hAll
    refine ⟨?_, hNonempty, by simp [proofOf], hAll⟩
    obtain ⟨hop, rest, rfl⟩ := List.exists_cons_of_ne_nil h.nonempty
    have hBacking := (h.ready hop List.mem_cons_self).backing
    obtain ⟨hRange, hLength, -⟩ := rootFromWitness_eq_ok_iff.mp hBacking.root
    rw [← hLength, hAll hop List.mem_cons_self] at hRange
    exact hRange

/-- The last hop leads to the target. -/
theorem Buildable.proofOf_head :
    (proofOf plan snapshot.id target (verificationOrder hops)).blockHashes.head? =
      some target.key.blockHash := by
  have hHashes : (proofOf plan snapshot.id target (verificationOrder hops)).blockHashes =
      (hops.map fun hop => hop.toNode.key.blockHash).reverse :=
    verificationOrder_map hops fun hop => hop.toNode.key.blockHash
  have hJoins := h.joins
  have hReady := h.ready
  rw [hHashes]
  rcases List.eq_nil_or_concat' hops with rfl | ⟨init, hop, rfl⟩
  · exact absurd rfl h.nonempty
  · rw [TrustViewSnapshot.Joins, List.map_append, List.map_singleton] at hJoins
    obtain ⟨-, -, hTo⟩ := Digraph.Edges.isPath_snoc.mp hJoins
    have hNode := (hReady hop (by simp)).toNode
    rw [show hop.edge.toID = snapshot.targetNodeID from hTo, h.target] at hNode
    simp [Option.some.inj hNode]

/-! ## Preparing, saving and loading the proof -/

theorem Buildable.loadTrustViewSnapshot :
    loadTrustViewSnapshot plan.snapshotID db = .ok (snapshot, db) := by
  rw [Store.loadTrustViewSnapshot, gets_bind_apply, h.loaded]
  rfl

theorem Buildable.hops_ne_nil :
    plan.hops ≠ [] := by
  rw [h.edges]
  simpa using h.nonempty

/-- `Build` reads the material of the plan and assembles its proof. -/
theorem Buildable.prepareProof (hAsks : AsksFor request plan snapshot target) :
    prepareProof keccak depth request db =
      check (assembleProof keccak depth request plan snapshot target
        (hops.zipIdx.map fun item => item.1.material plan.id snapshot.id item.2)) .build db := by
  have hIndex : ∀ item ∈ hops.zipIdx, plan.hops[item.2]? = some item.1.edge.id := by
    intro item hMem
    rw [h.edges, List.getElem?_map, List.mem_zipIdx_iff_getElem?.mp hMem, Option.map_some]
  have hMaterials := h.loadMaterials h.joins h.ready hIndex
  rw [← h.edges] at hMaterials
  rw [Store.prepareProof, hAsks.plan, bind_of_ok (loadPlan_of_find h.stored h.id), require_bind_apply,
    if_pos ⟨rfl, h.id, h.type, h.hops_ne_nil⟩, bind_of_ok h.loadTrustViewSnapshot,
    require_bind_apply, if_pos ⟨h.snapshotID, h.isSealed, h.homeNodeID, h.targetNodeID⟩,
    require_bind_apply, if_pos hAsks.root, h.target, expect_some_bind_apply, require_bind_apply,
    if_pos hAsks.source, bind_of_ok hMaterials]
  simp only [require_bind_apply, if_true]

/-- The plan and the target that a proof is saved and loaded with. -/
theorem Buildable.loadProofPlan :
    loadProofPlan keccak plan.requestID plan.id plan.snapshotID target.root hops.length db =
      .ok (plan, db) := by
  have hLength : plan.hops.length = hops.length := by
    rw [h.edges, List.length_map]
  have hType : plan.type = .path ∧ plan.requestID = plan.requestID ∧
      plan.snapshotID = plan.snapshotID ∧ plan.hops.length = hops.length ∧ hops.length ≠ 0 :=
    ⟨h.type, rfl, rfl, hLength, fun hZero => h.nonempty (List.length_eq_zero_iff.mp hZero)⟩
  have hTarget : ((db.store.snapshots.find? plan.snapshotID).bind fun snapshot =>
      snapshot.findNode plan.targetNodeID) = some target := by
    rw [h.loaded, Option.bind_some, ← h.targetNodeID, h.target]
  rw [Store.loadProofPlan, gets_bind_apply, require_bind_apply, h.stored, Option.isSome_some,
    if_pos rfl, bind_of_ok (loadPlan_of_find h.stored h.id), require_bind_apply, if_pos hType,
    gets_bind_apply, hTarget, expect_some_bind_apply, require_bind_apply, if_pos rfl]
  rfl

theorem Buildable.placed :
    Placed plan 0 (verificationOrder hops) := by
  intro j item hItem
  have hj : j < hops.zipIdx.length := by
    have hLt := (List.getElem?_eq_some_iff.mp hItem).1
    simpa [verificationOrder] using hLt
  rw [verificationOrder, List.getElem?_reverse hj, List.length_zipIdx] at hItem
  have hHop := List.mem_zipIdx_iff_getElem?.mp (List.mem_of_getElem? hItem)
  obtain ⟨hLt, hEq⟩ := List.getElem?_eq_some_iff.mp hItem
  rw [List.getElem_zipIdx] at hEq
  rw [h.edges, List.length_map, List.getElem?_map, hHop, Option.map_some]
  refine ⟨?_, rfl⟩
  rw [← hEq]
  simp

theorem Buildable.loadProofHop {item : Hop × ℕ}
    (hReady : HopReady keccak db snapshot item.1) (hPlace : item.2 = plan.hops.length - 1 - index)
    (hEdge : plan.hops[item.2]? = some item.1.edge.id) :
    loadProofHop keccak plan index (item.1.proofHop item.2) db =
      .ok ((item.1.toNode.key.blockHash, item.1.membership), db) := by
  have hLoad : Store.loadPathProofMaterial keccak plan.id plan.snapshotID
      (item.1.proofHop item.2).planHopIndex (item.1.proofHop item.2).edgeID db =
        .ok (item.1.material plan.id plan.snapshotID item.2, db) :=
    h.loadPathProofMaterial hReady hEdge
  have hWitness : newMembershipWitness (item.1.material plan.id plan.snapshotID item.2).witness.leafIndex
      (item.1.material plan.id plan.snapshotID item.2).witness.siblings = some item.1.membership :=
    item.1.newMembershipWitness_eq
  rw [Store.loadProofHop, require_bind_apply, if_pos ⟨hPlace, hEdge⟩, bind_of_ok hLoad,
    require_bind_apply, if_pos ⟨rfl, rfl, rfl⟩, hWitness]
  rfl

theorem Buildable.loadProofHops (hPlaced : Placed plan index items)
    (hReady : ∀ item ∈ items, HopReady keccak db snapshot item.1) :
    loadProofHops keccak plan index (items.map fun item => item.1.proofHop item.2) db =
      .ok (items.map fun item => (item.1.toNode.key.blockHash, item.1.membership), db) := by
  induction items generalizing index with
  | nil => rfl
  | cons item items ih =>
      obtain ⟨hPlace, hEdge⟩ := hPlaced.head
      rw [List.forall_mem_cons] at hReady
      rw [List.map_cons, Store.loadProofHops,
        bind_of_ok (h.loadProofHop hReady.1 hPlace hEdge), bind_of_ok (ih hPlaced.tail hReady.2)]
      rfl

theorem Buildable.checkProofHops (hPlaced : Placed plan index items)
    (hReady : ∀ item ∈ items, HopReady keccak db snapshot item.1) :
    checkProofHops keccak plan index (items.map fun item => (item.1.proofHop item.2,
      item.1.toNode.key.blockHash, item.1.membership)) db = .ok ((), db) := by
  induction items generalizing index with
  | nil => rfl
  | cons item items ih =>
      obtain ⟨hPlace, hEdge⟩ := hPlaced.head
      rw [List.forall_mem_cons] at hReady
      have hNode : (item.1.proofHop item.2).blockHash = item.1.toNode.key.blockHash ∧
          (item.1.proofHop item.2).toNodeID ≠ 0 := ⟨rfl, hReady.1.toID⟩
      rw [List.map_cons, Store.checkProofHops, require_bind_apply, if_pos hNode,
        bind_of_ok (h.loadProofHop hReady.1 hPlace hEdge), require_bind_apply, if_pos rfl,
        ih hPlaced.tail hReady.2]

theorem Buildable.addProof
    (proof : PathProof) : Buildable keccak (db.addProof proof) plan snapshot target hops :=
  { h with ready := fun hop hMem => { h.ready hop hMem with } }

theorem Buildable.ready_order :
    ∀ item ∈ verificationOrder hops, HopReady keccak db snapshot item.1 := by
  intro item hMem
  have hItem : item ∈ hops.zipIdx := by simpa [verificationOrder] using hMem
  exact h.ready item.1 (List.fst_mem_of_mem_zipIdx hItem)

/-- A new proof is saved. -/
theorem Buildable.savePathProof (hNew : NewProof db (namedProof keccak plan target hops)) :
    savePathProof keccak (namedProof keccak plan target hops) db =
      .ok ((), db.addProof (namedProof keccak plan target hops)) := by
  generalize hProof : namedProof keccak plan target hops = proof at hNew ⊢
  have hLength : proof.hops.length = hops.length := hProof ▸ namedProof_hops_length
  have hShape : proof.hops ≠ [] ∧ proof.hops.length = proof.blockHashes.length ∧
      proof.hops.length = proof.witnesses.length := by
    refine ⟨fun hNil => h.nonempty ?_, ?_, ?_⟩
    · rw [hNil, List.length_nil] at hLength
      exact List.length_eq_zero_iff.mp hLength.symm
    · simp [← hProof, namedProof, proofOf]
    · simp [← hProof, namedProof, proofOf]
  have hPlan : Store.loadProofPlan keccak proof.requestID proof.planID proof.snapshotID
      proof.baseTrustRoot proof.hops.length db = .ok (plan, db) := by
    rw [hLength, ← hProof]
    exact h.loadProofPlan
  have hZip : proof.hops.zip (proof.blockHashes.zip proof.witnesses) =
      (verificationOrder hops).map fun item => (item.1.proofHop item.2,
        item.1.toNode.key.blockHash, item.1.membership) := by
    simp only [← hProof, namedProof, proofOf, List.zip_map']
  have hHops := h.checkProofHops h.placed h.ready_order
  rw [← hZip] at hHops
  have hInsert : insertProof (proofRow proof) db = .ok ((), db.addProof proof) := by
    rw [insertProof, if_neg, hNew.rows.1]
    · rfl
    · rintro ⟨row, hRow, hSame⟩
      exact hNew.first row hRow hSame
  have hID : proof.id = proof.computeID keccak := by
    rw [← hProof]
    rfl
  rw [Store.savePathProof, require_bind_apply, if_pos ⟨hNew.nonzero, hID⟩, require_bind_apply,
    if_pos hShape, bind_of_ok hPlan, bind_of_ok hHops, gets_bind_apply,
    Table.find?_eq_none.mpr hNew.fresh]
  exact hInsert

/-- A proof that was saved is loaded again. -/
theorem Buildable.loadPathProof (hNew : NewProof db (namedProof keccak plan target hops)) :
    loadPathProof keccak (namedProof keccak plan target hops).id
        (db.addProof (namedProof keccak plan target hops)) =
      .ok (namedProof keccak plan target hops,
        db.addProof (namedProof keccak plan target hops)) := by
  let proof := namedProof keccak plan target hops
  let loaded := (verificationOrder hops).map fun item =>
    (item.1.toNode.key.blockHash, item.1.membership)
  have hAdded : Buildable keccak (db.addProof proof) plan snapshot target hops := h.addProof proof
  have hFind : (db.addProof proof).proofs.find? proof.id = some (proofRow proof) := by
    refine Table.find?_eq_some.mpr ⟨?_, rfl⟩
    rw [hNew.rows.2]
    exact List.mem_append_right _ (List.mem_singleton_self _)
  have hPlan : Store.loadProofPlan keccak (proofRow proof).requestID (proofRow proof).planID
      (proofRow proof).snapshotID (proofRow proof).baseTrustRoot (proofRow proof).hops.length
      (db.addProof proof) = .ok (plan, db.addProof proof) := by
    have hLength : (proofRow proof).hops.length = hops.length :=
      @namedProof_hops_length keccak plan target hops
    rw [hLength]
    exact hAdded.loadProofPlan
  have hHops : Store.loadProofHops keccak plan 0 (proofRow proof).hops (db.addProof proof) =
      .ok (loaded, db.addProof proof) :=
    hAdded.loadProofHops hAdded.placed hAdded.ready_order
  have hSame : (⟨(proofRow proof).id, (proofRow proof).requestID, (proofRow proof).planID,
      (proofRow proof).snapshotID, (proofRow proof).baseTrustRoot, loaded.map (·.1),
      loaded.map (·.2), (proofRow proof).hops⟩ : PathProof) = proof := by
    simp only [loaded, List.map_map]
    rfl
  rw [Store.loadPathProof, gets_bind_apply, hFind, expect_some_bind_apply, bind_of_ok hPlan,
    bind_of_ok hHops, require_bind_apply, if_pos]
  · exact congrArg (fun result => Except.ok (result, db.addProof proof)) hSame
  · have hID : proof.id = proof.computeID keccak := rfl
    exact hID.trans (congrArg (PathProof.computeID keccak) hSame.symm)

/-- Preparing the proof stops at the check of the path or leads to the proof of the hops. -/
theorem Buildable.prepareProof_eq (hAsks : AsksFor request plan snapshot target) :
    Store.prepareProof keccak depth request db =
      match verifyHops keccak depth plan snapshot target hops request.expectedHomeTrustRoot with
      | .error e => .error (.build (.verification e))
      | .ok () => .ok (namedProof keccak plan target hops, db) := by
  have hHead : (proofOf plan snapshot.id target (verificationOrder hops)).blockHashes.head? =
      some request.sourceBlockHash := by
    rw [h.proofOf_head, hAsks.source]
  rw [h.prepareProof hAsks, assembleProof_eq]
  simp only [Checks.require, if_pos hHead, Checks.ok_bind]
  rw [verifyHops]
  cases verifyPath keccak target.root _ _ request.expectedHomeTrustRoot depth with
  | error e => rfl
  | ok u =>
      rw [h.snapshotID]
      rfl

/-- The hash assumption holds of a proof if it holds of the proof of the hops. -/
theorem Buildable.proofNamed (hAsks : AsksFor request plan snapshot target)
    (hNonzero : (namedProof keccak plan target hops).id ≠ 0)
    (hFresh : ∀ row ∈ db.proofs.rows, row.id ≠ (namedProof keccak plan target hops).id) :
    ProofNamed keccak depth request db := by
  intro proof db' hPrepare
  rw [h.prepareProof_eq hAsks] at hPrepare
  split at hPrepare
  · cases hPrepare
  · cases hPrepare
    exact ⟨hNonzero, hFresh⟩

/-- Building stops at the check of the path or returns the assembled proof. -/
theorem Buildable.build_eq (hAsks : AsksFor request plan snapshot target)
    (hFirst : ∀ row ∈ db.proofs.rows, row.planID ≠ plan.id)
    (hNamed : ProofNamed keccak depth request db) :
    (build keccak depth request db).1 =
      match verifyHops keccak depth plan snapshot target hops request.expectedHomeTrustRoot with
      | .error e => .error (.build (.verification e))
      | .ok () => .ok (namedProof keccak plan target hops) := by
  have hPrepare := @Buildable.prepareProof_eq keccak db plan snapshot target hops depth request h
    hAsks
  cases hVerify : verifyHops keccak depth plan snapshot target hops request.expectedHomeTrustRoot with
  | error e =>
      rw [hVerify] at hPrepare
      rw [build, Process.bind_of_error (Process.atomically_of_error hPrepare)]
  | ok u =>
      rw [hVerify] at hPrepare
      obtain ⟨hNonzero, hFresh⟩ := hNamed _ _ hPrepare
      have hNew : NewProof db (namedProof keccak plan target hops) :=
        ⟨hNonzero, hFirst, hFresh⟩
      have hCheck : (namedProof keccak plan target hops).id =
            (namedProof keccak plan target hops).computeID keccak ∧
          namedProof keccak plan target hops =
            namedProof keccak plan target hops := ⟨rfl, rfl⟩
      rw [build, Process.bind_of_ok (Process.atomically_of_ok hPrepare),
        Process.bind_of_ok (Process.atomically_of_ok (h.savePathProof hNew)),
        Process.bind_of_ok (Process.atomically_of_ok (h.loadPathProof hNew)), Checks.require,
        if_pos hCheck]
      rfl

/-- A plan that takes a path gets its proof exactly at the depth of all its witnesses. -/
theorem Buildable.build_iff {start : TrustNode}
    (hAsks : AsksFor request plan snapshot target)
    (hStart : snapshot.findNode snapshot.startNodeID = some start)
    (hHome : start.root = snapshot.homeTrustRoot)
    (hFirst : ∀ row ∈ db.proofs.rows, row.planID ≠ plan.id)
    (hNamed : ProofNamed keccak depth request db) :
    (∃ proof, (build keccak depth request db).1 = .ok proof) ↔
      ∀ hop ∈ hops, hop.witness.siblings.length = depth.toNat := by
  rw [← @verifyPath_hops_iff keccak db plan snapshot target hops depth h start hStart, hHome,
    hAsks.root, h.build_eq hAsks hFirst hNamed]
  cases verifyHops keccak depth plan snapshot target hops request.expectedHomeTrustRoot with
  | error e => simp
  | ok u => simp

end Proof

/-- A stored plan for a path with ready hops. -/
theorem Buildable.of_considering {profile : DirectProfile} {request : PlanRequest} {step : UInt64}
    (hPlan : plan = ((calibratedBase profile request snapshot).considering step
      (hops.map (·.edge)) .path none).named keccak)
    (hStored : db.plans.find? plan.id = some plan)
    (hLoaded : db.store.snapshots.find? snapshot.id = some snapshot)
    (hSealed : snapshot.isSealed = true)
    (hTarget : snapshot.findNode snapshot.targetNodeID = some target) (hNonempty : hops ≠ [])
    (hJoins : snapshot.Joins (hops.map (·.edge)))
    (hReady : ∀ hop ∈ hops, HopReady keccak db snapshot hop) :
    Buildable keccak db plan snapshot target hops := by
  subst hPlan
  exact {
    stored := hStored
    id := rfl
    type := rfl
    loaded := hLoaded
    isSealed := hSealed
    homeNodeID := rfl
    targetNodeID := rfl
    target := hTarget
    edges := List.map_map
    nonempty := hNonempty
    joins := hJoins
    ready := hReady }

/-- The hops of a path whose edges are backed. -/
theorem exists_hops {path : List TrustEdge} (hNodes : ValidNodes keccak snapshot.nodes)
    (hEdges : ValidEdges keccak snapshot.nodes snapshot.edges)
    (hBacked : ∀ edge ∈ path, Backed keccak snapshot.nodes db.store.witnesses.rows edge)
    (hPath : ∀ edge ∈ path, edge ∈ snapshot.edges) :
    ∃ hops : List Hop, hops.map (·.edge) = path ∧
      ∀ hop ∈ hops, HopReady keccak db snapshot hop := by
  have hNode : ∀ node ∈ snapshot.nodes, snapshot.findNode node.id = some node := by
    intro node hMem
    cases hFind : snapshot.findNode node.id with
    | none => simpa using List.find?_eq_none.mp hFind node hMem
    | some found =>
        have hID : found.id = node.id := by simpa using List.find?_some hFind
        rw [hNodes.unique found (List.mem_of_find?_eq_some hFind) node hMem hID]
  have hEdge : ∀ edge ∈ snapshot.edges, (snapshot.edges.find? fun other => other.id = edge.id) =
      some edge := by
    intro edge hMem
    cases hFind : snapshot.edges.find? fun other => other.id = edge.id with
    | none => simpa using List.find?_eq_none.mp hFind edge hMem
    | some found =>
        have hID : found.id = edge.id := by simpa using List.find?_some hFind
        rw [hEdges.unique found (List.mem_of_find?_eq_some hFind) edge hMem hID]
  induction path with
  | nil => exact ⟨[], rfl, by simp⟩
  | cons edge path ih =>
      rw [List.forall_mem_cons] at hBacked hPath
      obtain ⟨hops, hMap, hReady⟩ := ih hBacked.2 hPath.2
      obtain ⟨fromNode, hFrom, toNode, hTo, witness, hWitness, hBacking⟩ := hBacked.1
      have hNonempty : witness.siblings ≠ [] := by
        intro hNil
        have hLength := (rootFromWitness_eq_ok_iff.mp hBacking.root).1.1
        simp [hNil] at hLength
      have hToID : toNode.id ≠ 0 := (TrustNode.validate_eq_ok.mp (hNodes.valid toNode hTo)).2.2.1
      refine ⟨⟨edge, fromNode, toNode, witness, hNonempty⟩ :: hops, by simp [hMap], ?_⟩
      rw [List.forall_mem_cons]
      refine ⟨⟨hEdge edge hPath.1, ?_, ?_, hToID, Table.find?_key hWitness, hBacking⟩, hReady⟩
      · exact hBacking.fromID ▸ hNode fromNode hFrom
      · exact hBacking.toID ▸ hNode toNode hTo

end Material

end TrustMap.Mapnode.Store
