import TrustMap.Internal.PathAgreement
import TrustMap.Mapnode.Store.Executability

/-!
`BuildPathCall` and the Gateway call it encodes: a proof that was built is accepted by every Gateway
that is at the expected home TrustRoot.
-/

namespace TrustMap.Mapnode

open Contracts TrustMapGateway

/-! ## When the Gateway accepts a path -/

/-- A request that can be resolved, for the given source block. -/
structure OpenRequest (g : Gateway) (requestID sourceBlockHash : Bytes32) : Prop where
  known : (g.requests requestID).exists = true
  unresolved : (g.requests requestID).resolved = false
  idle : (g.requests requestID).processing = false
  source : (g.requests requestID).sourceBlockHash = sourceBlockHash

/-- There is room for a dependency in the tree of the block: another block's tree is replaced. -/
def HasRoom (env : Deployment) (blockNumber : ℕ) (g : Gateway) : Prop :=
  g.activeTreeBlock = blockNumber → g.currentLeafCount < env.depth.capacity

section Gateway

variable {env : Deployment} {blockNumber : ℕ} {g : Gateway}

theorem appendLeaf_of_lt {requestId leaf : Bytes32} {isAnchor : Bool}
    {c : TrustRootCommitment.Commitment} (hRoom : c.currentLeafCount < env.depth.capacity) :
    ∃ leafIndex c' event, TrustRootCommitment.appendLeaf env.keccak env.depth blockNumber requestId
        leaf isAnchor c = .ok (leafIndex, c', event) ∧
      c'.currentLeafCount = c.currentLeafCount + 1 := by
  rw [TrustRootCommitment.appendLeaf, if_neg (UInt64.not_le.mpr hRoom)]
  exact ⟨_, _, _, rfl, rfl⟩

/-- The tree of a new block has room for the anchor and for a dependency. -/
theorem openBlockTree_of_room (requestId : Bytes32) (hBlock : 0 < blockNumber)
    (hRoom : HasRoom env blockNumber g) :
    ∃ opened, openBlockTree env blockNumber requestId g = .ok opened ∧
      opened.currentLeafCount < env.depth.capacity := by
  by_cases hActive : g.activeTreeBlock = blockNumber
  · refine ⟨g, ?_, hRoom hActive⟩
    rw [openBlockTree, if_neg (not_not.mpr hActive)]
  · have hCapacity : 2 ≤ env.depth.capacity.toNat := by
      rw [env.depth.capacity_toNat]
      calc 2 = 2 ^ 1 := rfl
        _ ≤ 2 ^ env.depth.levels := Nat.pow_le_pow_right (by decide) env.depth.levels_pos
    have hCleared : (0 : UInt64) < env.depth.capacity := by
      rw [UInt64.lt_iff_toNat_lt]
      exact lt_of_lt_of_le (by decide) hCapacity
    obtain ⟨leafIndex, c', event, hAppend, hCount⟩ := @appendLeaf_of_lt env blockNumber requestId
      (PathProofVerifier.paperLeaf env.keccak g.currentTrustRoot (env.blockhash (blockNumber - 1)))
      true
      { g.toCommitment with
        frontier := g.frontier.map fun _ => 0
        activeTreeBlock := blockNumber
        currentLeafCount := 0 } hCleared
    rw [openBlockTree, if_pos hActive, if_neg hBlock.ne']
    simp only [TrustRootCommitment.beginBlockTree, hAppend]
    refine ⟨_, rfl, ?_⟩
    have hOne : (0 + 1 : UInt64) < env.depth.capacity := by
      rw [UInt64.lt_iff_toNat_lt]
      exact lt_of_lt_of_le (by decide) hCapacity
    exact hCount ▸ hOne

/-- Recording a dependency succeeds if there is room. -/
theorem recordDependency_of_room (requestId sourceTrustRoot dependencyKey : Bytes32)
    (hBlock : 0 < blockNumber) (hRoom : HasRoom env blockNumber g) :
    ∃ newDependency recorded, recordDependency env blockNumber requestId sourceTrustRoot
      dependencyKey g = .ok (newDependency, recorded) := by
  unfold recordDependency
  by_cases hRecorded : g.dependencyRecorded dependencyKey
  · exact ⟨false, g, if_pos hRecorded⟩
  · obtain ⟨opened, hOpen, hCount⟩ := openBlockTree_of_room requestId hBlock hRoom
    obtain ⟨leafIndex, c', event, hAppend, -⟩ := @appendLeaf_of_lt env blockNumber requestId
      (PathProofVerifier.paperLeaf env.keccak sourceTrustRoot
        (opened.requests requestId).sourceBlockHash) false opened.toCommitment hCount
    simp only [if_neg hRecorded, hOpen, appendDependency, hAppend]
    exact ⟨true, _, rfl⟩

theorem recordAndResolve_of_room (requestId sourceTrustRoot dependencyKey : Bytes32)
    (hBlock : 0 < blockNumber) (hRoom : HasRoom env blockNumber g) :
    ∃ newDependency g', recordAndResolve env blockNumber requestId sourceTrustRoot dependencyKey g =
      .ok (dependencyKey, newDependency, g') := by
  obtain ⟨newDependency, recorded, hRecord⟩ :=
    recordDependency_of_room requestId sourceTrustRoot dependencyKey hBlock hRoom
  rw [recordAndResolve, hRecord]
  exact ⟨newDependency, _, rfl⟩

/-- The Gateway accepts a path that its verifier accepts, for an open request. -/
theorem verifyPathAndRecord_of_verified {requestId baseTrustRoot sourceBlockHash root : Bytes32}
    {blockHashes : List Bytes32} {witnesses : List Witness}
    (hOpen : OpenRequest g requestId sourceBlockHash)
    (hHead : blockHashes.head? = some sourceBlockHash)
    (hVerify : PathProofVerifier.verifyPath env.keccak env.depth g.currentTrustRoot baseTrustRoot
      blockHashes witnesses = .ok root)
    (hBlock : 0 < blockNumber) (hRoom : HasRoom env blockNumber g) :
    ∃ newDependency g', verifyPathAndRecord env blockNumber requestId baseTrustRoot blockHashes
      witnesses g = .ok (computeDependencyKey env.keccak (g.requests requestId).sourceChainId
        (g.requests requestId).sourceHeight (g.requests requestId).sourceBlockHash baseTrustRoot,
        newDependency, g') := by
  obtain ⟨first, rest, rfl⟩ : ∃ first rest, blockHashes = first :: rest := by
    cases blockHashes with
    | nil => cases hHead
    | cons first rest => exact ⟨first, rest, rfl⟩
  obtain rfl : first = sourceBlockHash := Option.some.inj hHead
  have hBegin : beginRequest requestId g = .ok { g with
      requests := Function.update g.requests requestId
        { g.requests requestId with processing := true } } := by
    simp [beginRequest, hOpen.known, hOpen.unresolved, hOpen.idle]
  unfold verifyPathAndRecord
  rw [hBegin]
  simp only [Function.update_self]
  rw [if_neg (not_not.mpr hOpen.source.symm), hVerify]
  exact recordAndResolve_of_room _ _ _ hBlock hRoom

end Gateway

/-! ## The call -/

/-- The arguments of `verifyPathAndRecord`. -/
structure PathCall where
  requestID : Bytes32
  baseTrustRoot : Bytes32
  blockHashes : List Bytes32
  witnesses : List Witness
  deriving DecidableEq

/-- The ABI encoding of a call: the contract unpacks the arguments that were packed. -/
structure PathCallAbi (Calldata : Type) where
  pack : PathCall → Calldata
  unpack : Calldata → Option PathCall
  unpack_pack : ∀ call, unpack (pack call) = some call

variable {Calldata : Type}

/-- The arguments that a proof is passed in. -/
def pathCall (requestID : Bytes32) (proof : PathProof) : PathCall where
  requestID := requestID
  baseTrustRoot := proof.baseTrustRoot
  blockHashes := proof.blockHashes
  witnesses := proof.witnesses.map Internal.Proof.contractWitness

/-- `BuildPathCall`. -/
def buildPathCall (abi : PathCallAbi Calldata) (keccak : Keccak) (requestID : Bytes32)
    (persisted : PathProof) : Except String Calldata :=
  if requestID = 0 ∨ persisted.requestID ≠ requestID ∨ persisted.id ≠ persisted.computeID keccak ∨
      persisted.blockHashes.length = 0 ∨
      persisted.blockHashes.length ≠ persisted.witnesses.length then
    .error "invalid persisted snapshot-bound PathProof"
  else .ok (abi.pack (pathCall requestID persisted))

/-- A transaction with the call data of `verifyPathAndRecord`. -/
def callGateway (abi : PathCallAbi Calldata) (env : Deployment) (blockNumber : ℕ)
    (calldata : Calldata) (g : Gateway) : Option (Except GatewayError (Bytes32 × Bool × Gateway)) :=
  (abi.unpack calldata).map fun call =>
    verifyPathAndRecord env blockNumber call.requestID call.baseTrustRoot call.blockHashes
      call.witnesses g

namespace Toy

open Store.Toy

/-- The source block is requested once more, in the block after it was recorded. -/
def laterGateway : Gateway :=
  (Chain.run Chain.toyDeployment (Chain.deploy Chain.toyDeployment 44 1)
    [.nextBlock, .nextBlock, .nextBlock, .nextBlock, .requestVerification 7 2 3 1003,
      .verifyDirectAndRecord (requestID 2) [], .verifierReturns 44, .nextBlock,
      .requestVerification 7 2 3 1003]).gateway

/-- The second request. -/
def laterRequestID : Bytes32 :=
  computeRequestId Chain.toyDeployment 7 1 2 3 1003

/-- Its plan. -/
def laterPlan : Plan :=
  (pathPlan laterRequestID).named primitives.keccak

/-- The snapshot, the witness and the plan of the second request. -/
def laterDB : Store.WorkDB :=
  { Store.WorkDB.empty with
    store := { Store.DB.empty with
      snapshots := ⟨[graphSnapshot laterRequestID], List.nodup_singleton _⟩
      witnesses := ⟨[witness 2], List.nodup_singleton _⟩ }
    plans := ⟨[laterPlan], List.nodup_singleton _⟩ }

/-- What the second request is built with. -/
def laterBuild : BuildRequest :=
  ⟨laterPlan.id, graphHop.toNode.key.blockHash, (graphSnapshot laterRequestID).homeTrustRoot⟩

/-- Calls behind a selector. -/
def selectorAbi : PathCallAbi (UInt8 × PathCall) where
  pack call := (7, call)
  unpack data := if data.1 = 7 then some data.2 else none
  unpack_pack _ := rfl

theorem laterDB_buildable :
    Store.Buildable primitives.keccak laterDB laterPlan (graphSnapshot laterRequestID)
      graphHop.toNode [graphHop] :=
  pathPlan_buildable laterRequestID (Table.find?_key (List.mem_singleton_self laterPlan))
    (Table.find?_key (List.mem_singleton_self (graphSnapshot laterRequestID)))
    (Table.find?_key (List.mem_singleton_self (witness 2)))

theorem laterDB_start :
    (graphSnapshot laterRequestID).findNode (graphSnapshot laterRequestID).startNodeID =
      some graphHop.fromNode := by
  decide +kernel

end Toy

/-- A proof that was built is encoded into a call that every Gateway of its depth accepts, as long as
the request is open there, the TrustRoot is the expected one and the tree has room. The dependency
is recorded under the source of the request and the root of the plan's target. -/
theorem built_proof_accepted (abi : PathCallAbi Calldata) {depth : UInt8} {request : BuildRequest}
    {db : Store.WorkDB} {proof : PathProof} {env : Deployment} {blockNumber : ℕ} {g : Gateway}
    (hBuild : (Store.build env.keccak depth request db).1 = .ok proof)
    (hDepth : env.depth.depth = depth) (hID : proof.requestID ≠ 0)
    (hOpen : OpenRequest g proof.requestID request.sourceBlockHash)
    (hRoot : g.currentTrustRoot = request.expectedHomeTrustRoot) (hBlock : 0 < blockNumber)
    (hRoom : HasRoom env blockNumber g) :
    ∃ plan snapshot target calldata newDependency g',
      db.plans.find? request.planID = some plan ∧ plan.requestID = proof.requestID ∧
      db.store.snapshots.find? plan.snapshotID = some snapshot ∧
      snapshot.findNode plan.targetNodeID = some target ∧
      buildPathCall abi env.keccak plan.requestID proof = .ok calldata ∧
      callGateway abi env blockNumber calldata g = some (.ok
        (TrustMapGateway.computeDependencyKey env.keccak
          (g.requests plan.requestID).sourceChainId (g.requests plan.requestID).sourceHeight
          (g.requests plan.requestID).sourceBlockHash target.root, newDependency, g')) := by
  obtain ⟨plan, snapshot, target, materials, hPlan, hSnapshot, hTarget, hAssemble⟩ :=
    Store.build_eq_ok hBuild
  obtain ⟨hRequest, hBase, hProofID, hHead, hLocal⟩ := assembleProof_ok hAssemble
  subst hDepth
  obtain ⟨-, hNonempty, hLength, -⟩ := Internal.Proof.verifyPath_eq_ok_iff.mp hLocal
  have hCall : buildPathCall abi env.keccak plan.requestID proof =
      .ok (abi.pack (pathCall plan.requestID proof)) := by
    refine if_neg ?_
    rintro (hZero | hOther | hMismatch | hEmpty | hUneven)
    · exact hID (hRequest.trans hZero)
    · exact hOther hRequest
    · exact hMismatch hProofID
    · exact hNonempty (List.length_eq_zero_iff.mp hEmpty)
    · exact hUneven hLength
  obtain ⟨root, hVerify⟩ := Internal.Proof.verifyPath_iff_contract.mp hLocal
  rw [← hRoot] at hVerify
  obtain ⟨newDependency, g', hAccepted⟩ :=
    verifyPathAndRecord_of_verified hOpen hHead hVerify hBlock hRoom
  refine ⟨plan, snapshot, target, _, newDependency, g', hPlan, hRequest.symm, hSnapshot, hTarget,
    hCall, ?_⟩
  rw [callGateway, abi.unpack_pack, Option.map_some, ← hRequest, ← hBase]
  exact congrArg some hAccepted

theorem built_proof_accepted_toy :
    ∃ proof, (Store.build Store.Toy.primitives.keccak 2 Toy.laterBuild Toy.laterDB).1 = .ok proof ∧
      ∃ calldata dependencyKey newDependency g',
        buildPathCall Toy.selectorAbi Store.Toy.primitives.keccak Toy.laterRequestID proof =
          .ok calldata ∧
        callGateway Toy.selectorAbi Chain.toyDeployment 6 calldata Toy.laterGateway =
          some (.ok (dependencyKey, newDependency, g')) := by
  have hNamed : Store.ProofNamed Store.Toy.primitives.keccak 2 Toy.laterBuild Toy.laterDB := by
    refine Store.proofNamed_of_fresh Toy.laterDB_buildable ?_ (fun row hRow => nomatch hRow)
    decide +kernel
  obtain ⟨proof, hBuild, hRequest⟩ := Store.build_of_depth Toy.laterDB_buildable Toy.laterDB_start
    (by decide +kernel) (fun row hRow => nomatch hRow) hNamed (by decide)
  have hRequestID : proof.requestID = Toy.laterRequestID := hRequest
  have hFacts : OpenRequest Toy.laterGateway Toy.laterRequestID Toy.laterBuild.sourceBlockHash ∧
      Toy.laterRequestID ≠ 0 ∧ HasRoom Chain.toyDeployment 6 Toy.laterGateway ∧
      Toy.laterGateway.currentTrustRoot = Toy.laterBuild.expectedHomeTrustRoot := by
    refine ⟨?_, ?_, ?_, ?_⟩
    · constructor
      all_goals decide +kernel
    · decide +kernel
    · unfold HasRoom
      decide +kernel
    · decide +kernel
  obtain ⟨hOpen, hNonzero, hRoom, hRoot⟩ := hFacts
  obtain ⟨plan, _, _, calldata, newDependency, g', -, hPlan, -, -, hCall, hAccepted⟩ :=
    @built_proof_accepted _ Toy.selectorAbi 2 Toy.laterBuild Toy.laterDB proof
      Chain.toyDeployment 6 Toy.laterGateway hBuild rfl (hRequestID ▸ hNonzero) (hRequestID ▸ hOpen)
      hRoot (by decide) hRoom
  rw [hPlan, hRequestID] at hCall
  exact ⟨proof, hBuild, calldata, _, newDependency, g', hCall, hAccepted⟩

end TrustMap.Mapnode
