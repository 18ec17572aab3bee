import TrustMap.Mapnode.Profile
import TrustMap.Mapnode.Store.Building
import TrustMap.Mapnode.Store.Planning

/-!
When a request can be planned on a snapshot of the stored graph, and its path proved. The edges keep
the step cost and the depth of the chains that recorded them, while `Plan` wants one step cost and
`Build` the depth of the home tree.
-/

namespace TrustMap.Mapnode.Store

open Transaction

/-- `Plan` returns a plan, and if it takes a path, `Build` returns its proof. -/
def Executable (keccak : Keccak) (profiles : Bytes32 → Option DirectProfile) (depth : UInt8)
    (request : PlanRequest) (sourceBlockHash homeTrustRoot : Bytes32) (db : WorkDB) : Prop :=
  ∃ planned db', plan keccak profiles request db = (.ok planned, db') ∧
    (planned.type = .path →
      ∃ proof, (build keccak depth ⟨planned.id, sourceBlockHash, homeTrustRoot⟩ db').1 = .ok proof)

/-- The edges have one step cost, some path has a cost that can be stored if there is a path at all,
and the first path has witnesses of the given depth if it costs no more than the direct
verification. -/
structure Fits (db : WorkDB) (depth : UInt8) (directCost : UInt64) (snapshot : TrustViewSnapshot) :
    Prop where
  uniform : ∀ edge ∈ snapshot.edges, ∀ other ∈ snapshot.edges,
    edge.pathStepCost = other.pathStepCost
  storable : ∀ path, snapshot.Joins path → ∃ cheap, snapshot.Joins cheap ∧ pathCost cheap ≤ maxInt64
  depth : ∀ first, snapshot.IsFirstPath first → pathCost first ≤ directCost.toNat →
    ∀ edge ∈ first, ∀ id ∈ edge.witnessID, (db.witnessSiblings id).length = depth.toNat

/-- A proof of the request can be stored: the proofs belong to plans, and the hash names the proof of
the path as no other one. -/
structure BuildingReady (keccak : Keccak) (profiles : Bytes32 → Option DirectProfile)
    (depth : UInt8) (db : WorkDB) (request : PlanRequest) (snapshot : TrustViewSnapshot)
    (target : TrustNode) : Prop where
  found : snapshot.findNode snapshot.targetNodeID = some target
  owned : ∀ row ∈ db.proofs.rows, ∃ plan ∈ db.plans.rows, plan.id = row.planID
  named : ∀ planned db', plan keccak profiles request db = (.ok planned, db') →
    ProofNamed keccak depth ⟨planned.id, target.key.blockHash, snapshot.homeTrustRoot⟩ db'

section Executable

variable {keccak : Keccak} {profiles : Bytes32 → Option DirectProfile} {depth : UInt8}
  {db : WorkDB} {profile : DirectProfile} {request : PlanRequest} {snapshot : TrustViewSnapshot}
  {target : TrustNode} {step : UInt64}

/-- A plan that takes a path is proved exactly at the depth of the witnesses of the path. -/
theorem BuildingReady.build_iff {path : List TrustEdge} {planned : Plan}
    (hBuilding : BuildingReady keccak profiles depth db request snapshot target)
    (hReady : PlanningReady keccak db profile request snapshot)
    (hBacked : ∀ edge ∈ snapshot.edges, Backed keccak snapshot.nodes db.store.witnesses.rows edge)
    (hProfile : (profiles request.homeChainID).getD unavailableProfile = profile)
    (hRun : plan keccak profiles request db = (.ok planned, db.addPlan planned))
    (hPath : snapshot.Joins path)
    (hPlanned : planned = ((calibratedBase profile request snapshot).considering step path .path
      none).named keccak) :
    (∃ proof, (build keccak depth ⟨planned.id, target.key.blockHash, snapshot.homeTrustRoot⟩
        (db.addPlan planned)).1 = .ok proof) ↔
      ∀ edge ∈ path, ∀ id ∈ edge.witnessID, (db.witnessSiblings id).length = depth.toNat := by
  obtain ⟨found, decided, hFound, -, hDecision, hNamed, -, hStored⟩ := plan_eq_ok hRun
  obtain rfl : snapshot = found := Option.some.inj (hReady.loaded.symm.trans hFound)
  rw [hProfile] at hDecision
  have hFresh : ∀ row ∈ db.proofs.rows, row.planID ≠ planned.id := by
    intro row hRow hSame
    obtain ⟨other, hOther, hID⟩ := hBuilding.owned row hRow
    rw [hNamed] at hSame
    exact (hReady.named decided hDecision).2 other hOther (hID.trans hSame)
  obtain ⟨hops, rfl, hHops⟩ : ∃ hops : List Hop, hops.map (·.edge) = path ∧
      ∀ hop ∈ hops, HopReady keccak (db.addPlan planned) snapshot hop :=
    exists_hops hReady.plannable.validNodes hReady.plannable.validEdges
      (fun edge hMem => hBacked edge (hPath.subset edge hMem)) hPath.subset
  obtain ⟨start, hStart, -, hHome⟩ := hReady.plannable.start
  have hLoaded : (db.addPlan planned).store.snapshots.find? snapshot.id = some snapshot :=
    (congrArg db.store.snapshots.find? hReady.plannable.id).trans hReady.loaded
  have hNonempty : hops ≠ [] := by
    rintro rfl
    exact hReady.plannable.distinct hPath
  have hBuildable : Buildable keccak (db.addPlan planned) planned snapshot target hops :=
    .of_considering hPlanned hStored hLoaded hReady.plannable.isSealed hBuilding.found hNonempty
      hPath hHops
  rw [hBuildable.build_iff ⟨rfl, rfl, rfl⟩ hStart hHome hFresh (hBuilding.named _ _ hRun),
    List.forall_mem_map]
  refine forall₂_congr fun hop hMem => ?_
  have hHop := hHops hop hMem
  have hSiblings : db.witnessSiblings hop.witness.id = hop.witness.siblings := by
    rw [WorkDB.witnessSiblings, show db.store.witnesses.find? hop.witness.id = some hop.witness from
      hHop.witness]
    rfl
  rw [hHop.backing.witnessID]
  simp [hSiblings]

section Decision

variable (hReady : PlanningReady keccak db profile request snapshot)

include hReady

theorem edges_ne_nil
    {path : List TrustEdge} (hPath : snapshot.Joins path) : snapshot.edges ≠ [] := by
  cases path with
  | nil => exact absurd hPath hReady.plannable.distinct
  | cons edge path => exact List.ne_nil_of_mem (hPath.subset edge List.mem_cons_self)

/-- Valid edges with one step cost have a positive one. -/
theorem exists_uniformStep (hUniform : ∀ edge ∈ snapshot.edges, ∀ other ∈ snapshot.edges,
      edge.pathStepCost = other.pathStepCost) : ∃ step, snapshot.UniformStep step := by
  cases hEdges : snapshot.edges with
  | nil =>
      refine ⟨1, ?_, by decide⟩
      simp [hEdges]
  | cons first rest =>
      have hMem : first ∈ snapshot.edges := hEdges ▸ List.mem_cons_self
      have hValid := TrustEdge.validate_eq_ok.mp (hReady.plannable.validEdges.valid first hMem)
      refine ⟨first.pathStepCost, fun edge hEdge => hUniform edge hEdge first hMem, ?_⟩
      exact Nat.pos_of_ne_zero fun hZero => hValid.1.2.2.2.2 (UInt64.toNat_inj.mp hZero)

/-- Without a calibrated profile the plan is direct. -/
theorem executable_of_uncalibrated
    (hProfile : (profiles request.homeChainID).getD unavailableProfile = profile)
    (hCalibrated : profile.calibrated = false) (sourceBlockHash homeTrustRoot : Bytes32) :
    Executable keccak profiles depth request sourceBlockHash homeTrustRoot db := by
  have hDecision := @planDecision_of_uncalibrated profile request snapshot hCalibrated
  refine ⟨_, _, hReady.plan_run hProfile hDecision ?_ ?_, ?_⟩
  · exact ⟨rfl, rfl, rfl, rfl, rfl, rfl, by simp [planBase]⟩
  · constructor
    all_goals simp [planBase, costInRange]
  · rintro ⟨⟩

/-- At one step cost and with a path that can be stored, the depth of the first path decides. -/
theorem executable_iff_of_path
    (hBuilding : BuildingReady keccak profiles depth db request snapshot target)
    (hBacked : ∀ edge ∈ snapshot.edges, Backed keccak snapshot.nodes db.store.witnesses.rows edge)
    (hProfile : (profiles request.homeChainID).getD unavailableProfile = profile)
    (hCalibrated : profile.calibrated = true) (hDirect : profile.directCost.toNat ≤ maxInt64)
    (hStep : snapshot.UniformStep step) {path : List TrustEdge} (hPath : snapshot.Joins path)
    (hRange : pathCost path ≤ maxInt64) :
    Executable keccak profiles depth request target.key.blockHash snapshot.homeTrustRoot db ↔
      ∀ first, snapshot.IsFirstPath first → pathCost first ≤ profile.directCost.toNat →
        ∀ edge ∈ first, ∀ id ∈ edge.witnessID,
          (db.witnessSiblings id).length = depth.toNat := by
  rw [hStep.pathCost_eq hPath] at hRange
  obtain ⟨first, hFirst, -, hRun⟩ :=
    hReady.plan_of_path hProfile hCalibrated hDirect hStep hPath hRange
  have hUnique : ∀ other, snapshot.IsFirstPath other → other = first :=
    fun other hOther => hOther.unique hReady.plannable.validEdges.unique hFirst
  have hFirstCost : (UInt64.ofNat first.length * step).toNat = pathCost first := by
    have hLe : first.length * step.toNat ≤ path.length * step.toNat :=
      Nat.mul_le_mul_right _ (hFirst.length_le hPath)
    have hMax : maxInt64 < 2 ^ 64 := by decide
    rw [(multiple_of_range hStep.positive (by omega)).1, hStep.pathCost_eq hFirst.joins]
  have hExecutable : ∀ planned, plan keccak profiles request db = (.ok planned, db.addPlan planned) →
      (Executable keccak profiles depth request target.key.blockHash snapshot.homeTrustRoot db ↔
        (planned.type = .path → ∃ proof, (build keccak depth ⟨planned.id, target.key.blockHash,
          snapshot.homeTrustRoot⟩ (db.addPlan planned)).1 = .ok proof)) := by
    intro planned hPlan
    constructor
    · rintro ⟨other, db', hOther, hBuild⟩
      obtain ⟨hSame, rfl⟩ := Prod.mk.inj (hPlan.symm.trans hOther)
      obtain rfl := Except.ok.inj hSame
      exact hBuild
    · exact fun hBuild => ⟨planned, _, hPlan, hBuild⟩
  rw [hExecutable _ hRun]
  obtain ⟨hAbove, hPlan⟩ | ⟨-, hMissing, -⟩ | ⟨hWithin, -, hPlan⟩ :=
    @planPath_cases (calibratedBase profile request snapshot) profile.directCost step first
  · -- too expensive: the plan is direct
    rw [hPlan]
    refine iff_of_true (fun hType => nomatch hType) fun other hOther hCost => ?_
    rw [UInt64.lt_iff_toNat_lt, hFirstCost, ← hUnique other hOther] at hAbove
    omega
  · -- every edge has a witness
    refine absurd (fun edge hMem => ?_) hMissing
    obtain ⟨_, -, _, -, witness, -, hBacking⟩ :=
      hBacked edge (hFirst.joins.subset edge hMem)
    rw [hBacking.witnessID]
    exact Option.some_ne_none _
  · rw [hPlan] at hRun ⊢
    rw [hBuilding.build_iff hReady hBacked hProfile hRun hFirst.joins rfl]
    rw [UInt64.lt_iff_toNat_lt, hFirstCost, not_lt] at hWithin
    constructor
    · intro hAll other hOther _
      rw [hUnique other hOther]
      exact hAll rfl
    · intro hAll _
      exact hAll first hFirst hWithin

/-- A plan is returned only at one step cost and if the cost of the path can be stored. -/
theorem uniform_of_plan
    (hProfile : (profiles request.homeChainID).getD unavailableProfile = profile)
    (hCalibrated : profile.calibrated = true) {planned : Plan} {db' : WorkDB}
    (hRun : plan keccak profiles request db = (.ok planned, db')) :
    (∀ edge ∈ snapshot.edges, ∀ other ∈ snapshot.edges, edge.pathStepCost = other.pathStepCost) ∧
      ∀ path, snapshot.Joins path →
        ∃ cheap, snapshot.Joins cheap ∧ pathCost cheap ≤ maxInt64 := by
  obtain ⟨found, decided, hFound, -, hDecision, rfl, hValid, -⟩ := plan_eq_ok hRun
  obtain rfl : snapshot = found := Option.some.inj (hReady.loaded.symm.trans hFound)
  rw [hProfile] at hDecision
  obtain ⟨step, hTrusted, hJoined⟩ := planDecision_eq_ok hCalibrated hDecision
  have hUniform : snapshot.edges ≠ [] → snapshot.UniformStep step :=
    fun hEdges => TrustViewSnapshot.uniformStep_of_trustedPathStepCost hEdges hTrusted
  constructor
  · intro edge hEdge other hOther
    have hStep := hUniform (List.ne_nil_of_mem hEdge)
    rw [hStep.uniform edge hEdge, hStep.uniform other hOther]
  · intro path hPath
    have hStep := hUniform (edges_ne_nil hReady hPath)
    obtain ⟨first, cost, hSearch, -, rfl⟩ := hJoined ⟨path, hPath⟩
    obtain ⟨hFirst, hCost⟩ := hStep.isFirstPath_of_shortestPath hSearch
    refine ⟨first, hFirst.joins, ?_⟩
    have hInRange := (validatePlanForStorage_eq_ok.mp hValid).2.2.1.1
    have hStored : (UInt64.ofNat first.length * step).toNat ≤ maxInt64 := by
      refine hInRange _ ?_
      obtain ⟨-, hPlan⟩ | ⟨-, -, hPlan⟩ | ⟨-, -, hPlan⟩ :=
        @planPath_cases (calibratedBase profile request snapshot) profile.directCost step first
      all_goals
        rw [hPlan]
        rfl
    have hLt : first.length * step.toNat < 2 ^ 64 := hCost ▸ cost.toNat_lt
    rwa [(multiple_of_range hStep.positive hLt).1, ← hStep.pathCost_eq hFirst.joins] at hStored

end Decision

theorem proofNamed_of_fresh {planned : Plan} {hops : List Hop}
    (h : Buildable keccak db planned snapshot target hops)
    (hNonzero : (namedProof keccak planned target hops).id ≠ 0)
    (hFresh : ∀ row ∈ db.proofs.rows,
      row.id ≠ (namedProof keccak planned target hops).id) :
    ProofNamed keccak depth ⟨planned.id, target.key.blockHash, snapshot.homeTrustRoot⟩ db :=
  h.proofNamed ⟨rfl, rfl, rfl⟩ hNonzero hFresh

/-- The proof of hops at the home depth is built, for the request of the plan. -/
theorem build_of_depth {planned : Plan} {hops : List Hop} {start : TrustNode}
    (h : Buildable keccak db planned snapshot target hops)
    (hStart : snapshot.findNode snapshot.startNodeID = some start)
    (hHome : start.root = snapshot.homeTrustRoot)
    (hFirst : ∀ row ∈ db.proofs.rows, row.planID ≠ planned.id)
    (hNamed : ProofNamed keccak depth
      ⟨planned.id, target.key.blockHash, snapshot.homeTrustRoot⟩ db)
    (hDepth : ∀ hop ∈ hops, hop.witness.siblings.length = depth.toNat) :
    ∃ proof, (build keccak depth
        ⟨planned.id, target.key.blockHash, snapshot.homeTrustRoot⟩ db).1 = .ok proof ∧
      proof.requestID = planned.requestID := by
  obtain ⟨proof, hBuild⟩ := (h.build_iff ⟨rfl, rfl, rfl⟩ hStart hHome hFirst hNamed).mpr hDepth
  refine ⟨proof, hBuild, ?_⟩
  obtain ⟨plan, _, _, _, hPlan, -, -, hAssemble⟩ := build_eq_ok hBuild
  obtain rfl : planned = plan := Option.some.inj (h.stored.symm.trans hPlan)
  exact (assembleProof_ok hAssemble).1

end Executable

/-! ## A small graph -/

namespace Toy

open ChainAbi Contracts

/-- The calibrated parameters. -/
def verifierParameters : DirectVerifierParameters :=
  ⟨"pow-spv-3m", [1, 2, 3], 3, 4497, 3000096⟩

/-- The home chain with its profile. -/
def profiledChains : List ProfiledChain :=
  [⟨1, true, true, true, ⟨verifierParameters, verifierParameters,
    verifierParameters.fingerprint primitives.keccak⟩⟩]

/-- The profile of the home chain. -/
def calibrated : DirectProfile :=
  ⟨"pow-spv-3m", verifierParameters.fingerprint primitives.keccak, 3000096, true⟩

/-- The database after a history, before anything is planned. -/
def graphDB (writes : List Write) : WorkDB :=
  { WorkDB.empty with store := run primitives writes DB.empty }

/-- The nodes of home block 5 and of block 3 of chain 2 in a snapshot, and the edge between them with
its witness. -/
def graphHop : Hop where
  edge := (material 2).edge
  fromNode := { fromNode 2 with evidenceID := 0 }
  toNode := { toNode 2 with evidenceID := 0 }
  witness := witness 2
  siblings_ne_nil := List.cons_ne_nil _ _

/-- The graph after block 5 as a snapshot for a request. -/
def graphSnapshot (requestID : Bytes32) : TrustViewSnapshot where
  id := computeSnapshotID primitives.keccak requestID 0 3 (fromNode 2).id (toNode 2).id (homeRoot 2)
  revision := 3
  homeChainID := 1
  homeTrustRoot := homeRoot 2
  startNodeID := (fromNode 2).id
  targetNodeID := (toNode 2).id
  isSealed := true
  nodes := [graphHop.fromNode, graphHop.toNode]
  edges := [graphHop.edge]

/-- The first attempt of a request. -/
def graphRequest (requestID : Bytes32) : PlanRequest :=
  ⟨requestID, 0, (graphSnapshot requestID).id, 1⟩

/-- The plan that takes the edge. -/
def pathPlan (requestID : Bytes32) : Plan :=
  (calibratedBase calibrated (graphRequest requestID) (graphSnapshot requestID)).considering 5
    [graphHop.edge] .path none

theorem graphHop_ready {db : WorkDB} (requestID : Bytes32)
    (hWitness : db.store.witnesses.find? (witness 2).id = some (witness 2)) :
    HopReady primitives.keccak db (graphSnapshot requestID) graphHop where
  edge := by simp [graphSnapshot]
  fromNode := by
    have hNode : ([graphHop.fromNode, graphHop.toNode].find? fun node =>
        node.id = graphHop.edge.fromID) = some graphHop.fromNode := by
      decide +kernel
    exact hNode
  toNode := by
    have hNode : ([graphHop.fromNode, graphHop.toNode].find? fun node =>
        node.id = graphHop.edge.toID) = some graphHop.toNode := by
      decide +kernel
    exact hNode
  toID := by decide +kernel
  witness := hWitness
  backing := by
    constructor
    all_goals decide +kernel

theorem graphSnapshot_joins (requestID : Bytes32) :
    (graphSnapshot requestID).Joins [graphHop.edge] := by
  rw [TrustViewSnapshot.Joins, Digraph.Edges.isPath_cons]
  have hEnds : graphHop.edge.fromID = (fromNode 2).id ∧ graphHop.edge.toID = (toNode 2).id := by
    decide +kernel
  exact ⟨List.mem_singleton_self _, hEnds⟩

theorem pathPlan_buildable {db : WorkDB} (requestID : Bytes32)
    (hPlan : db.plans.find? ((pathPlan requestID).named primitives.keccak).id =
      some ((pathPlan requestID).named primitives.keccak))
    (hSnapshot : db.store.snapshots.find? (graphSnapshot requestID).id =
      some (graphSnapshot requestID))
    (hWitness : db.store.witnesses.find? (witness 2).id = some (witness 2)) :
    Buildable primitives.keccak db ((pathPlan requestID).named primitives.keccak)
      (graphSnapshot requestID) graphHop.toNode [graphHop] := by
  have hReady : ∀ hop ∈ [graphHop], HopReady primitives.keccak db (graphSnapshot requestID) hop := by
    intro hop hMem
    rw [List.mem_singleton.mp hMem]
    exact graphHop_ready requestID hWitness
  refine .of_considering rfl hPlan hSnapshot rfl ?_ (List.cons_ne_nil _ _) ?_ hReady
  · exact (hReady graphHop (List.mem_singleton_self _)).toNode
  · exact graphSnapshot_joins requestID

/-- What the history leaves for the planner and the builder. -/
theorem history_tables :
    (run primitives (history 2) DB.empty).snapshots.rows = [graphSnapshot (requestID 2)] ∧
      (run primitives (history 2) DB.empty).witnesses.rows = [witness 2] ∧
      (run primitives (history 2) DB.empty).requests.rows.map (·.id) = [requestID 2] := by
  decide +kernel

theorem history_snapshot :
    (graphDB (history 2)).store.snapshots.find? (graphSnapshot (requestID 2)).id =
      some (graphSnapshot (requestID 2)) := by
  refine Table.find?_eq_some.mpr ⟨?_, rfl⟩
  rw [graphDB, history_tables.1]
  exact List.mem_singleton_self _

theorem history_witness :
    (graphDB (history 2)).store.witnesses.find? (witness 2).id = some (witness 2) := by
  refine Table.find?_eq_some.mpr ⟨?_, rfl⟩
  rw [graphDB, history_tables.2.1]
  exact List.mem_singleton_self _

theorem pathPlan_decided :
    (planDecision calibrated (graphRequest (requestID 2)) (graphSnapshot (requestID 2))).toOption =
      some (pathPlan (requestID 2)) := by
  decide +kernel

theorem pathPlan_decision :
    planDecision calibrated (graphRequest (requestID 2)) (graphSnapshot (requestID 2)) =
      .ok (pathPlan (requestID 2)) := by
  have hDecided := pathPlan_decided
  cases hDecision : planDecision calibrated (graphRequest (requestID 2))
      (graphSnapshot (requestID 2)) with
  | error e =>
      rw [hDecision] at hDecided
      cases hDecided
  | ok decided =>
      rw [hDecision] at hDecided
      exact congrArg Except.ok (Option.some.inj hDecided)

theorem graphRequest_ready :
    PlanningReady primitives.keccak (graphDB (history 2)) calibrated (graphRequest (requestID 2))
      (graphSnapshot (requestID 2)) := by
  have hPlannable : Plannable primitives.keccak (graphRequest (requestID 2))
      (graphSnapshot (requestID 2)) := planSnapshot_eq_ok.mp (by decide +kernel)
  refine ⟨?_, hPlannable.graph⟩
  constructor
  case loaded => exact history_snapshot
  case requested => exact hPlannable.toRequested
  case stored =>
    simp only [graphRequest, graphDB]
    rw [← List.mem_map, history_tables.2.2]
    exact List.mem_singleton_self _
  case requestID => decide +kernel
  case snapshotID => decide +kernel
  case profileID => decide
  case named =>
    intro plan hPlan
    obtain rfl := Except.ok.inj (hPlan.symm.trans pathPlan_decision)
    exact ⟨by decide +kernel, by simp [graphDB, WorkDB.empty]⟩
  all_goals simp [graphDB, graphRequest, WorkDB.empty, maxInt64]

theorem graphRequest_plan {profiles : Bytes32 → Option DirectProfile}
    (hProfile : (profiles (graphRequest (requestID 2)).homeChainID).getD unavailableProfile =
      calibrated) :
    plan primitives.keccak profiles (graphRequest (requestID 2)) (graphDB (history 2)) =
      (.ok ((pathPlan (requestID 2)).named primitives.keccak),
        (graphDB (history 2)).addPlan ((pathPlan (requestID 2)).named primitives.keccak)) := by
  refine graphRequest_ready.plan_run hProfile pathPlan_decision (considering_follows ?_)
    (PlanningReady.storable_considering (List.cons_ne_nil _ _) (by decide) (by decide) (by decide) (by decide))
  intro edge hMem
  exact hMem

/-- The siblings of a leaf of the tree of chain 2, at its depth. -/
def remoteSiblings : List Bytes32 := [7, 8]

/-- The root of chain 2 after it has recorded home block 5. -/
def remoteRoot : Bytes32 :=
  ((Internal.Proof.rootFromWitness Chain.toyKeccak (leafHash Chain.toyKeccak (homeRoot 2) 1005) 1
    remoteSiblings 2).toOption).getD 0

/-- The dependency of block 4 of chain 2 on home block 5. -/
def remoteDependency (evidenceID : Bytes32) : VerifiedDependency :=
  newVerifiedDependency Chain.toyKeccak 900 1 5 1005 (homeRoot 2) 1 evidenceID

/-- Where chain 2 has logged it. -/
def remoteLocator : Locator where
  chainID := 2
  contractAddress := 10
  blockNumber := 4
  blockHash := 1004
  txHash := 400
  txIndex := 0
  logIndex := 0
  payloadDigest := (remoteDependency 0).payloadDigest Chain.toyKeccak

/-- What the validator finds there; the manifest of chain 2 has step cost 7. -/
def remoteValidation : RemoteValidation where
  record := ⟨Chain.toyKeccak remoteLocator.encoded, remoteLocator, .candidate, ""⟩
  dependency := ⟨(remoteDependency 0).dependencyKey, 900, 1, 5, 1005, homeRoot 2, 1⟩
  homeTrustRoot := remoteRoot
  witnessSiblings := remoteSiblings
  sourceObservation := ⟨1, 5, 1005, homeRoot 2, (fromNode 2).evidenceID⟩
  homeObservation := ⟨2, 4, 1004, remoteRoot,
    ((observation 2 4 1004 remoteRoot).trustNode Chain.toyKeccak).evidenceID⟩
  pathStepCostGas := 7

/-- Block 5 of the home chain is applied, and the dependency of chain 2 comes by gossip. -/
def mixedHistory : List Write :=
  setup 2 ++ [.applyConfirmedBlock none (block 2), .save (observation 2 4 1004 remoteRoot)] ++
    ((Envelope.new primitives [1] 1 remoteLocator).toOption.map fun envelope =>
      [.receive 1 envelope [1], .activate envelope.messageID remoteValidation]).getD [] ++
    [.createSnapshot (snapshotRequest 2)]

/-- The first attempt of the request on the snapshot of the mixed history. -/
def mixedRequest : PlanRequest :=
  ⟨requestID 2, 0, computeSnapshotID primitives.keccak (requestID 2) 0 5 (fromNode 2).id (toNode 2).id
    (homeRoot 2), 1⟩

end Toy

/-- On every snapshot of a stored graph with edges across chains, the request can be executed exactly
if the profile is not calibrated or the snapshot fits: one step cost, a cost that can be stored, and
on the first path the depth of the home tree. -/
theorem executable_iff_fits (p : Primitives) {writes : List Write}
    (hNodes : ∀ write ∈ writes, write.NonzeroNode p.keccak)
    (hCross : ∀ write ∈ writes, write.CrossChain) {db : WorkDB}
    (hSnapshots : db.store.snapshots = (run p writes DB.empty).snapshots)
    (hWitnesses : db.store.witnesses = (run p writes DB.empty).witnesses)
    {chains : List ProfiledChain} {profile : DirectProfile} {request : PlanRequest}
    {snapshot : TrustViewSnapshot} {target : TrustNode} {depth : UInt8}
    (hProfile : (directProfile p.keccak chains request.homeChainID).getD unavailableProfile =
      profile)
    (hAsked : PlanningAsked p.keccak db profile request snapshot)
    (hBuilding : BuildingReady p.keccak (directProfile p.keccak chains) depth db request snapshot
      target) :
    Executable p.keccak (directProfile p.keccak chains) depth request target.key.blockHash
        snapshot.homeTrustRoot db ↔
      (profile.calibrated = true → Fits db depth profile.directCost snapshot) := by
  obtain ⟨hGraph, hMaterial⟩ := run_material hNodes hCross
  have hStored := (Table.find?_eq_some.mp hAsked.loaded).1
  rw [hSnapshots] at hStored
  have hReady : PlanningReady p.keccak db profile request snapshot :=
    ⟨hAsked, hGraph.snapshots snapshot hStored⟩
  have hBacked : ∀ edge ∈ snapshot.edges,
      Backed p.keccak snapshot.nodes db.store.witnesses.rows edge := by
    rw [hWitnesses]
    exact hMaterial.snapshots snapshot hStored
  cases hCalibrated : profile.calibrated with
  | false =>
      refine iff_of_true (executable_of_uncalibrated hReady hProfile hCalibrated _ _) ?_
      rintro ⟨⟩
  | true =>
      have hDirect : profile.directCost.toNat ≤ maxInt64 := by
        rw [directProfile_cost hProfile hCalibrated]
        decide
      constructor
      · rintro hExecutable -
        obtain ⟨planned, db', hRun, -⟩ := id hExecutable
        obtain ⟨hUniform, hStorable⟩ := uniform_of_plan hReady hProfile hCalibrated hRun
        obtain ⟨step, hStep⟩ := exists_uniformStep hReady hUniform
        refine ⟨hUniform, hStorable, fun first hFirst => ?_⟩
        obtain ⟨cheap, hCheap, hRange⟩ := hStorable first hFirst.joins
        exact (executable_iff_of_path hReady hBuilding hBacked hProfile hCalibrated hDirect hStep
          hCheap hRange).mp hExecutable first hFirst
      · intro hCondition
        have hFits := hCondition rfl
        obtain ⟨step, hStep⟩ := exists_uniformStep hReady hFits.uniform
        by_cases hJoined : ∃ path, snapshot.Joins path
        · obtain ⟨path, hPath⟩ := hJoined
          obtain ⟨cheap, hCheap, hRange⟩ := hFits.storable path hPath
          exact (executable_iff_of_path hReady hBuilding hBacked hProfile hCalibrated hDirect hStep
            hCheap hRange).mpr hFits.depth
        · obtain ⟨decided, hType, -, hRun⟩ :=
            hReady.plan_of_noPath hProfile hCalibrated hDirect hStep hJoined
          refine ⟨_, _, hRun, fun hPath => ?_⟩
          rw [Plan.named, hType] at hPath
          cases hPath

theorem executable_toy :
    Executable Toy.primitives.keccak (directProfile Toy.primitives.keccak Toy.profiledChains) 2
      (Toy.graphRequest (Toy.requestID 2)) Toy.graphHop.toNode.key.blockHash
      (Toy.graphSnapshot (Toy.requestID 2)).homeTrustRoot (Toy.graphDB (Toy.history 2)) := by
  have hProfile : (directProfile Toy.primitives.keccak Toy.profiledChains
      (Toy.graphRequest (Toy.requestID 2)).homeChainID).getD unavailableProfile = Toy.calibrated := by
    decide +kernel
  have hBuilding : BuildingReady Toy.primitives.keccak
      (directProfile Toy.primitives.keccak Toy.profiledChains) 2 (Toy.graphDB (Toy.history 2))
      (Toy.graphRequest (Toy.requestID 2)) (Toy.graphSnapshot (Toy.requestID 2))
      Toy.graphHop.toNode := by
    refine ⟨(Toy.graphHop_ready (Toy.requestID 2) Toy.history_witness).toNode, ?_, ?_⟩
    · simp [Toy.graphDB, WorkDB.empty]
    · intro planned db' hRun
      obtain ⟨_, _, -, -, -, -, -, hStored⟩ := plan_eq_ok hRun
      rw [Toy.graphRequest_plan hProfile] at hRun
      obtain ⟨hPlanned, rfl⟩ := Prod.mk.inj hRun
      obtain rfl := Except.ok.inj hPlanned
      refine proofNamed_of_fresh
        (Toy.pathPlan_buildable (Toy.requestID 2) hStored Toy.history_snapshot Toy.history_witness)
        ?_ ?_
      · decide +kernel
      · simp [Toy.graphDB, WorkDB.empty, WorkDB.addPlan]
  refine (executable_iff_fits Toy.primitives (by decide +kernel) (by decide +kernel) rfl rfl hProfile
    Toy.graphRequest_ready.toPlanningAsked hBuilding).mpr fun _ => ⟨?_, ?_, ?_⟩
  · simp [Toy.graphSnapshot]
  · intro path _
    exact ⟨[Toy.graphHop.edge], Toy.graphSnapshot_joins _, by decide⟩
  · intro first hFirst _ edge hMem id hID
    obtain rfl : edge = Toy.graphHop.edge :=
      List.mem_singleton.mp (hFirst.joins.subset edge hMem)
    obtain rfl : id = (Toy.witness 2).id := by
      rw [(Toy.graphHop_ready (Toy.requestID 2) Toy.history_witness).backing.witnessID] at hID
      exact (Option.mem_some.mp hID).symm
    rw [WorkDB.witnessSiblings, Toy.history_witness]
    rfl

/-- The home chain records at step cost 5 and chain 2 at step cost 7. The snapshot of the request has
an edge of each, is well formed and joins the home block with the source block, but no plan is
returned for it. -/
theorem mixed_stepCosts_not_executable :
    ((∀ write ∈ Toy.mixedHistory, write.NonzeroNode Toy.primitives.keccak) ∧
        ∀ write ∈ Toy.mixedHistory, write.CrossChain) ∧
      ((Toy.graphDB Toy.mixedHistory).store.snapshots.find? Toy.mixedRequest.snapshotID).map
        (fun snapshot => (snapshot.edges.map (·.pathStepCost),
          planSnapshot Toy.primitives.keccak Toy.mixedRequest snapshot)) = some ([5, 7], .ok ()) ∧
      ∀ depth sourceBlockHash homeTrustRoot,
        ¬ Executable Toy.primitives.keccak (directProfile Toy.primitives.keccak Toy.profiledChains)
          depth Toy.mixedRequest sourceBlockHash homeTrustRoot (Toy.graphDB Toy.mixedHistory) := by
  have hDecision : ((Toy.graphDB Toy.mixedHistory).store.snapshots.find?
      Toy.mixedRequest.snapshotID).map (fun snapshot =>
        (planDecision ((directProfile Toy.primitives.keccak Toy.profiledChains
          Toy.mixedRequest.homeChainID).getD unavailableProfile) Toy.mixedRequest snapshot).toOption) =
      some none := by
    decide +kernel
  refine ⟨⟨by decide +kernel, by decide +kernel⟩, by decide +kernel, ?_⟩
  rintro depth sourceBlockHash homeTrustRoot ⟨planned, db', hRun, -⟩
  obtain ⟨snapshot, decided, hFind, -, hPlan, -⟩ := plan_eq_ok hRun
  rw [hFind, Option.map_some, hPlan] at hDecision
  cases hDecision

end TrustMap.Mapnode.Store
