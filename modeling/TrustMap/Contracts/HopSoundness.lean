import TrustMap.Contracts.ChainInvariant
import TrustMap.Internal.Config

/-!
What one accepted hop of a path says about the tree whose root it reconstructs. Leaves and inner
nodes are hashes of 64 bytes alike, so the answer depends on the depth the hop is checked at: at
the depth of the tree the hop opens a leaf, at a smaller depth it opens an inner node, and at a
larger depth it ends in a value hashed into a leaf. The topology gives each chain its own depth.
-/

namespace TrustMap.Contracts

open PathProofVerifier TrustMapGateway

/-- The tree depth a chain of an accepted topology is deployed with. -/
def treeDepth (chain : Internal.Config.Chain)
    (h : 1 ≤ chain.merkleDepth ∧ chain.merkleDepth ≤ 32) : TreeDepth :=
  have hToNat : (UInt8.ofNat chain.merkleDepth.toNat).toNat = chain.merkleDepth.toNat := by
    apply UInt8.toNat_ofNat_of_lt
    rw [UInt8.size]
    omega
  ⟨UInt8.ofNat chain.merkleDepth.toNat, by omega, by omega⟩

@[simp] theorem treeDepth_levels (chain : Internal.Config.Chain)
    (h : 1 ≤ chain.merkleDepth ∧ chain.merkleDepth ≤ 32) :
    (treeDepth chain h).levels = chain.merkleDepth.toNat := by
  apply UInt8.toNat_ofNat_of_lt
  rw [UInt8.size]
  omega

namespace TrustMapGateway

/-- The nodes of a block tree, leaves at level zero. -/
def BlockTree.node (env : Deployment) (t : BlockTree) (level index : ℕ) : Bytes32 :=
  Merkle.subroot (hashPair env.keccak) (Merkle.padded 0 (t.leaves env)) level index

/-- The pairs hashed for a block tree: the preimages of its leaves and the children of its inner
nodes. -/
def BlockTree.hashed (env : Deployment) (t : BlockTree) : List (Bytes32 × Bytes32) :=
  t.preimages env ++
    Merkle.pairs (hashPair env.keccak) (Merkle.padded 0 (t.leaves env)) env.depth.levels 0

/-- The pairs hashed to check one hop. -/
def hopHashed (keccak : Keccak) (root blockHash : Bytes32) (witness : Witness) :
    List (Bytes32 × Bytes32) :=
  (root, blockHash) ::
    Merkle.walkPairs (hashPair keccak) witness.leafIndex.toNat (paperLeaf keccak root blockHash)
      witness.siblings

section Hop

variable {env : Deployment} {t : BlockTree} {root blockHash : Bytes32} {witness : Witness}
  {depth : TreeDepth}
  (hKeccak : CollisionFree env.keccak
    (pairInputs (t.hashed env ++ hopHashed env.keccak root blockHash witness)))
include hKeccak

/-- A leaf position that holds the image of hashed words is the position of a leaf, not of
padding. -/
theorem BlockTree.preimage_of_leaf {position : ℕ} {pair : Bytes32 × Bytes32}
    (hPair : pair ∈ t.hashed env ++ hopHashed env.keccak root blockHash witness)
    (hLeaf : hashPair env.keccak pair.1 pair.2 = t.node env 0 position) :
    (t.preimages env)[position]? = some pair := by
  have hNode : t.node env 0 position = (t.leaves env).getD position 0 := rfl
  have hRange : position < (t.preimages env).length := by
    by_contra hOut
    have hZero : t.node env 0 position = 0 := by
      rw [hNode, List.getD_eq_default]
      simpa [BlockTree.leaves] using Nat.le_of_not_lt hOut
    exact hKeccak.hashPair_ne_zero hPair (hLeaf.trans hZero)
  have hGet : t.node env 0 position =
      hashPair env.keccak (t.preimages env)[position].1 (t.preimages env)[position].2 := by
    have hRange' : position < (t.leaves env).length := by simpa [BlockTree.leaves] using hRange
    rw [hNode, List.getD_eq_getElem _ _ hRange']
    simp [BlockTree.leaves, paperLeaf_eq_hashPair]
  have hMem : (t.preimages env)[position] ∈
      t.hashed env ++ hopHashed env.keccak root blockHash witness :=
    List.mem_append_left _ (List.mem_append_left _ (List.getElem_mem hRange))
  have hEq : pair = (t.preimages env)[position] :=
    hKeccak.hashPair_injOn hPair hMem (hLeaf.trans hGet)
  rw [hEq]
  exact List.getElem?_eq_getElem hRange

/-- An accepted hop at most as deep as the tree starts at a node of the tree. -/
theorem BlockTree.hop_node (hDepth : depth.levels ≤ env.depth.levels)
    (hHop : computeRoot env.keccak depth (paperLeaf env.keccak root blockHash) witness =
      .ok (t.root env)) :
    hashPair env.keccak root blockHash =
      t.node env (env.depth.levels - depth.levels) witness.leafIndex.toNat := by
  obtain ⟨hLength, hIndex, hRoot⟩ := computeRoot_eq_ok_iff.mp hHop
  rw [← hLength] at hDepth hIndex ⊢
  apply Merkle.walk_eq_root_of_le hKeccak.hashPair_injOn hDepth hIndex
  · intro p hp
    exact List.mem_append_left _ (List.mem_append_right _ hp)
  · intro p hp
    exact List.mem_append_right _ (List.mem_cons_of_mem _ hp)
  · exact hRoot.symm

/-- At the depth of the tree, an accepted hop opens the leaf at its witness index. -/
theorem BlockTree.hop_leaf
    (hHop : computeRoot env.keccak env.depth (paperLeaf env.keccak root blockHash) witness =
      .ok (t.root env)) :
    (t.preimages env)[witness.leafIndex.toNat]? = some (root, blockHash) := by
  have hNode := BlockTree.hop_node hKeccak le_rfl hHop
  rw [Nat.sub_self] at hNode
  exact BlockTree.preimage_of_leaf hKeccak
    (List.mem_append_right _ List.mem_cons_self) hNode

/-- Below the depth of the tree, an accepted hop opens the children of an inner node. -/
theorem BlockTree.hop_inner (hDepth : depth.levels < env.depth.levels)
    (hHop : computeRoot env.keccak depth (paperLeaf env.keccak root blockHash) witness =
      .ok (t.root env)) :
    (root, blockHash) =
      (t.node env (env.depth.levels - depth.levels - 1) (2 * witness.leafIndex.toNat),
        t.node env (env.depth.levels - depth.levels - 1) (2 * witness.leafIndex.toNat + 1)) := by
  have hNode := BlockTree.hop_node hKeccak hDepth.le hHop
  obtain ⟨level, hLevel⟩ : ∃ level, env.depth.levels - depth.levels = level + 1 :=
    ⟨env.depth.levels - depth.levels - 1, by omega⟩
  rw [hLevel] at hNode ⊢
  have hRange : witness.leafIndex.toNat / 2 ^ depth.levels = 0 :=
    Nat.div_eq_of_lt (computeRoot_eq_ok_iff.mp hHop).2.1
  have hChildren := Merkle.children_mem_pairs (hashPair env.keccak)
    (Merkle.padded 0 (t.leaves env)) level witness.leafIndex.toNat depth.levels
  rw [hRange, show level + 1 + depth.levels = env.depth.levels by omega] at hChildren
  exact hKeccak.hashPair_injOn (List.mem_append_right _ List.mem_cons_self)
    (List.mem_append_left _ (List.mem_append_right _ hChildren)) hNode

/-- Above the depth of the tree, the lower siblings of an accepted hop lead to a leaf. -/
theorem BlockTree.hop_below (hDepth : env.depth.levels < depth.levels)
    (hHop : computeRoot env.keccak depth (paperLeaf env.keccak root blockHash) witness =
      .ok (t.root env)) :
    ∃ preimage, (t.preimages env)[witness.leafIndex.toNat /
        2 ^ (depth.levels - env.depth.levels)]? = some preimage ∧
      Merkle.walk (hashPair env.keccak) witness.leafIndex.toNat
          (paperLeaf env.keccak root blockHash)
          (witness.siblings.take (depth.levels - env.depth.levels)) =
        paperLeaf env.keccak preimage.1 preimage.2 := by
  obtain ⟨hLength, hIndex, hRoot⟩ := computeRoot_eq_ok_iff.mp hHop
  rw [← hLength] at hDepth hIndex ⊢
  have hHopUsed : ∀ p ∈ Merkle.walkPairs (hashPair env.keccak) witness.leafIndex.toNat
      (paperLeaf env.keccak root blockHash) witness.siblings,
      p ∈ t.hashed env ++ hopHashed env.keccak root blockHash witness :=
    fun p hp => List.mem_append_right _ (List.mem_cons_of_mem _ hp)
  have hLeaf : Merkle.walk (hashPair env.keccak) witness.leafIndex.toNat
      (paperLeaf env.keccak root blockHash)
      (witness.siblings.take (witness.siblings.length - env.depth.levels)) =
      t.node env 0 (witness.leafIndex.toNat /
        2 ^ (witness.siblings.length - env.depth.levels)) := by
    apply Merkle.walk_eq_root_of_ge hKeccak.hashPair_injOn hDepth.le hIndex
    · intro p hp
      exact List.mem_append_left _ (List.mem_append_right _ hp)
    · exact hHopUsed
    · exact hRoot.symm
  -- The last pair of the lower part is the preimage of that leaf.
  have hLow : witness.siblings.take (witness.siblings.length - env.depth.levels) ≠ [] := by
    rw [ne_eq, ← List.length_eq_zero_iff, List.length_take]
    omega
  obtain ⟨pair, hPair, hWalk⟩ := Merkle.exists_walkPairs_of_ne_nil (hashPair env.keccak)
    witness.leafIndex.toNat (paperLeaf env.keccak root blockHash) hLow
  refine ⟨pair, BlockTree.preimage_of_leaf hKeccak (hHopUsed pair ?_) (hWalk.symm.trans hLeaf),
    hWalk⟩
  rw [← List.take_append_drop (witness.siblings.length - env.depth.levels) witness.siblings,
    Merkle.walkPairs_append]
  exact List.mem_append_left _ hPair

end Hop

end TrustMapGateway

namespace Chain

open Internal.Config

/-- A topology of two chains, of depths one and two. -/
def mixedTopology : Document where
  version := 1
  networkName := "mixed"
  chains :=
    [{ name := "shallow", chainID := 2, merkleDepth := some 1 },
      { name := "deep", chainID := 1, merkleDepth := some 2 }]

/-- The two leaves of the toy tree, presented as a source root and a source block hash, with the
sibling of their parent. -/
def innerHop : Bytes32 × Bytes32 × Witness :=
  (hashPair toyKeccak 0 1004, hashPair toyKeccak 99 700, ⟨0, [hashPair toyKeccak 0 0]⟩)

/-- Two chains of an accepted topology may differ in depth, and the shallower Gateway then accepts
the two leaves of the deeper one as root and block hash of a leaf, which they are not. -/
theorem inner_node_accepted_as_leaf :
    let topology := resolve mixedTopology
    let c := run toyDeployment (deploy toyDeployment 0 5) toyActions
    let depth : TreeDepth := ⟨1, by decide, by decide⟩
    validate topology = .ok () ∧
      (∃ home ∈ topology.chains, home.merkleDepth = depth.levels) ∧
      (∃ source ∈ topology.chains, source.merkleDepth = toyDeployment.depth.levels) ∧
      ∃ t, historyOf c.gateway.logs = [t] ∧
        CollisionFree toyKeccak (pairInputs (t.hashed toyDeployment ++
          hopHashed toyKeccak innerHop.1 innerHop.2.1 innerHop.2.2)) ∧
        computeRoot toyKeccak depth (paperLeaf toyKeccak innerHop.1 innerHop.2.1) innerHop.2.2 =
          .ok c.gateway.currentTrustRoot ∧
        (innerHop.1, innerHop.2.1) ∉ t.preimages toyDeployment := by
  refine ⟨by decide +kernel, by decide +kernel, by decide +kernel, ⟨5, 0, [(99, 700)]⟩,
    by decide +kernel, collisionFree_of_forall (by decide +kernel) (by decide +kernel),
    by decide +kernel, by decide +kernel⟩

/-- What a hop accepted by the Gateway of one chain of a topology says about the tree of another.
At equal depths it opens the leaf at its witness index. At a smaller depth it opens the children
of an inner node, and at a larger depth its lower siblings end in a leaf of the tree. -/
theorem accepted_hop_by_depth (topology : Topology) (hValid : validate topology = .ok ())
    (home source : Internal.Config.Chain) (hHome : home ∈ topology.chains)
    (hSource : source ∈ topology.chains) (env : Deployment)
    (hDepth : env.depth = treeDepth source (validate_depth hValid source hSource))
    (initialTrustRoot : Bytes32) (start : ℕ) (hStart : 0 < start) (actions : List Action)
    (t : BlockTree) (rest : List BlockTree)
    (hTree : historyOf (run env (deploy env initialTrustRoot start) actions).gateway.logs =
      t :: rest)
    (root blockHash : Bytes32) (witness : Witness)
    (hKeccak : CollisionFree env.keccak
      (pairInputs (t.hashed env ++ hopHashed env.keccak root blockHash witness)))
    (hHop : computeRoot env.keccak (treeDepth home (validate_depth hValid home hHome))
        (paperLeaf env.keccak root blockHash) witness =
      .ok (run env (deploy env initialTrustRoot start) actions).gateway.currentTrustRoot) :
    let index := witness.leafIndex.toNat
    let lower := source.merkleDepth.toNat - home.merkleDepth.toNat
    let upper := home.merkleDepth.toNat - source.merkleDepth.toNat
    (home.merkleDepth = source.merkleDepth →
      (t.preimages env)[index]? = some (root, blockHash)) ∧
    (home.merkleDepth < source.merkleDepth →
      (root, blockHash) =
        (t.node env (lower - 1) (2 * index), t.node env (lower - 1) (2 * index + 1))) ∧
    (source.merkleDepth < home.merkleDepth →
      ∃ preimage, (t.preimages env)[index / 2 ^ upper]? = some preimage ∧
        Merkle.walk (hashPair env.keccak) index (paperLeaf env.keccak root blockHash)
            (witness.siblings.take upper) =
          paperLeaf env.keccak preimage.1 preimage.2) := by
  intro index lower upper
  have hRoot := (run_consistent env initialTrustRoot hStart actions).current.committed.root
  rw [hTree] at hRoot
  rw [hRoot] at hHop
  have hLevels : env.depth.levels = source.merkleDepth.toNat := by rw [hDepth, treeDepth_levels]
  have hHomeLevels := treeDepth_levels home (validate_depth hValid home hHome)
  have hSourcePos := validate_depth hValid source hSource
  refine ⟨fun hEq => ?_, fun hLt => ?_, fun hLt => ?_⟩
  · have hSame : treeDepth home (validate_depth hValid home hHome) = env.depth := by
      rw [hDepth]
      simp only [treeDepth, hEq]
    rw [hSame] at hHop
    exact BlockTree.hop_leaf hKeccak hHop
  · have h := BlockTree.hop_inner hKeccak (by omega) hHop
    rwa [hLevels, hHomeLevels] at h
  · have h := BlockTree.hop_below hKeccak (by omega) hHop
    rwa [hLevels, hHomeLevels] at h

theorem accepted_hop_by_depth_toy :
    let t : BlockTree := ⟨5, 0, [(99, 700)]⟩
    (resolve mixedTopology).chains.map (fun chain => chain.merkleDepth) = [1, 2] ∧
      historyOf (run toyDeployment (deploy toyDeployment 0 5) toyActions).gateway.logs = [t] ∧
      (innerHop.1, innerHop.2.1) = (t.node toyDeployment 0 0, t.node toyDeployment 0 1) := by
  refine ⟨by decide +kernel, by decide +kernel, ?_⟩
  have hValid : validate (resolve mixedTopology) = .ok () := by decide +kernel
  have hHome : (resolve mixedTopology).chains[0] ∈ (resolve mixedTopology).chains :=
    List.getElem_mem _
  have hSource : (resolve mixedTopology).chains[1] ∈ (resolve mixedTopology).chains :=
    List.getElem_mem _
  have hHop : computeRoot toyKeccak ⟨1, by decide, by decide⟩
      (paperLeaf toyKeccak innerHop.1 innerHop.2.1) innerHop.2.2 =
      .ok (run toyDeployment (deploy toyDeployment 0 5) toyActions).gateway.currentTrustRoot := by
    decide +kernel
  exact (accepted_hop_by_depth (resolve mixedTopology) hValid _ _ hHome hSource toyDeployment rfl
    0 5 (by decide) toyActions ⟨5, 0, [(99, 700)]⟩ [] (by decide +kernel) innerHop.1 innerHop.2.1
    innerHop.2.2 (collisionFree_of_forall (by decide +kernel) (by decide +kernel)) hHop).2.1
    (by decide)

end Chain

end TrustMap.Contracts
