import TrustMap.Contracts.HopSoundness
import TrustMap.Contracts.RequestContext

/-!
Any number of chains, each with a Gateway of the same depth and initial root zero. An action of
the network is an action of one chain; the run of each chain is the run of its own actions, so
what holds of every run of one chain holds of every chain in the network.
-/

namespace TrustMap.Contracts

open TrustMapGateway PathProofVerifier

/-- The chains of a network and what their Gateways share. -/
structure Network (ι : Type*) where
  keccak : Keccak
  depth : TreeDepth
  chainid : ι → Uint256
  self : ι → Address
  blockhash : ι → ℕ → Bytes32
  start : ι → ℕ
  start_pos : ∀ c, 0 < start c

/-- The state of every chain. -/
abbrev World (ι : Type*) := ι → Chain.State

namespace Network

variable {ι : Type*} (net : Network ι)

/-- The Gateway of one chain. -/
def deployment (c : ι) : Deployment where
  keccak := net.keccak
  depth := net.depth
  chainid := net.chainid c
  self := net.self c
  blockhash := net.blockhash c

/-- All Gateways deployed, each in its own first block. -/
def genesis : World ι := fun c => Chain.deploy (net.deployment c) 0 (net.start c)

/-- The pairs hashed for all trees of a Gateway. -/
def treesHashed (c : ι) (g : Gateway) : List (Bytes32 × Bytes32) :=
  (historyOf g.logs).flatMap (BlockTree.hashed (net.deployment c))

/-- The pairs hashed to check a path, up to the first hop that is refused. -/
def pathHashed (keccak : Keccak) (depth : TreeDepth) :
    Bytes32 → List (Bytes32 × Witness) → List (Bytes32 × Bytes32)
  | _, [] => []
  | root, (blockHash, witness) :: hops =>
      match computeRoot keccak depth (paperLeaf keccak root blockHash) witness with
      | .error _ => [(root, blockHash)]
      | .ok next => hopHashed keccak root blockHash witness ++ pathHashed keccak depth next hops

/-- The pairs hashed for the trees an action finds on its chain, and for the path it has
accepted. Each pair of a tree has been hashed by the time the tree stands: the nodes above the
last leaf by its append, the others by earlier appends or as empty subtrees. -/
def actionHashed (w : World ι) (a : ι × Chain.Action) : List (Bytes32 × Bytes32) :=
  net.treesHashed a.1 (w a.1).gateway ++
    match a.2 with
    | .verifyPathAndRecord requestId baseTrustRoot blockHashes witnesses =>
        match verifyPathAndRecord (net.deployment a.1) (w a.1).number requestId baseTrustRoot
            blockHashes witnesses (w a.1).gateway with
        | .error _ => []
        | .ok _ => pathHashed net.keccak net.depth baseTrustRoot (blockHashes.zip witnesses)
    | _ => []

/-- `hash` is the hash of a completed block, and `root` the TrustRoot at its end. -/
def Genuine (w : World ι) (root hash : Bytes32) : Prop :=
  ∃ c n, n < (w c).number ∧ net.blockhash c n = hash ∧ ((w c).endOf n).currentTrustRoot = root

/-- No two completed blocks have the same hash. -/
def UniqueHashes (w : World ι) : Prop :=
  ∀ c n c' n', n < (w c).number → n' < (w c').number → net.blockhash c n = net.blockhash c' n' →
    c = c' ∧ n = n'

variable [DecidableEq ι]

/-- One chain takes a step. -/
def step (w : World ι) (a : ι × Chain.Action) : World ι :=
  Function.update w a.1 (Chain.step (net.deployment a.1) (w a.1) a.2)

/-- The state after a list of actions. -/
def run (actions : List (ι × Chain.Action)) : World ι :=
  actions.foldl net.step net.genesis

/-- The pairs hashed along a run. -/
def hashedFrom (w : World ι) : List (ι × Chain.Action) → List (Bytes32 × Bytes32)
  | [] => []
  | a :: actions => net.actionHashed w a ++ hashedFrom (net.step w a) actions

/-- The actions of one chain. -/
def actionsOf (c : ι) (actions : List (ι × Chain.Action)) : List Chain.Action :=
  (actions.filter fun a => a.1 = c).map Prod.snd

theorem run_append_singleton (actions : List (ι × Chain.Action)) (a : ι × Chain.Action) :
    net.run (actions ++ [a]) = net.step (net.run actions) a := by
  simp [run]

theorem hashedFrom_append_singleton (actions : List (ι × Chain.Action)) (a : ι × Chain.Action) :
    net.hashedFrom net.genesis (actions ++ [a]) =
      net.hashedFrom net.genesis actions ++ net.actionHashed (net.run actions) a := by
  unfold run
  generalize net.genesis = w
  induction actions generalizing w with
  | nil => simp [hashedFrom]
  | cons b actions ih => simp [hashedFrom, ih, List.append_assoc]

/-- Each chain of a network runs its own actions. -/
theorem run_apply (actions : List (ι × Chain.Action)) (c : ι) :
    net.run actions c =
      Chain.run (net.deployment c) (Chain.deploy (net.deployment c) 0 (net.start c))
        (actionsOf c actions) := by
  induction actions using List.reverseRecOn with
  | nil => rfl
  | append_singleton actions a ih =>
      rw [run_append_singleton, step]
      by_cases hChain : a.1 = c
      · subst hChain
        have hActions : actionsOf a.1 (actions ++ [a]) = actionsOf a.1 actions ++ [a.2] := by
          simp [actionsOf]
        rw [Function.update_self, hActions, Chain.run_append, ← ih]
        rfl
      · have hActions : actionsOf c (actions ++ [a]) = actionsOf c actions := by
          simp [actionsOf, hChain]
        rw [Function.update_of_ne (Ne.symm hChain), hActions, ih]

theorem run_chainConsistent (actions : List (ι × Chain.Action)) (c : ι) :
    Chain.Throughout (Chain.Consistent (net.deployment c) 0 (net.run actions c).number
      (net.run actions c).endOf) (net.run actions c) := by
  rw [run_apply]
  exact Chain.run_consistent (net.deployment c) 0 (net.start_pos c) (actionsOf c actions)

theorem run_chainCompleted (actions : List (ι × Chain.Action)) (c : ι) :
    Chain.Completed (net.deployment c) 0 (net.start c) (net.run actions c) := by
  rw [run_apply]
  exact Chain.run_completed (net.deployment c) 0 (net.start_pos c) (actionsOf c actions)

theorem run_chainKeepsFrames (actions : List (ι × Chain.Action)) (c : ι) :
    Chain.KeepsFrames (net.run actions c).gateway (net.run actions c).stack := by
  rw [run_apply]
  exact Chain.run_keepsFrames (net.deployment c) 0 (net.start c) (actionsOf c actions)

/-- Completed blocks stay as they are. -/
theorem step_endOf (w : World ι) (a : ι × Chain.Action) {c : ι} {n : ℕ} (h : n < (w c).number) :
    n < (net.step w a c).number ∧ (net.step w a c).endOf n = (w c).endOf n := by
  unfold step
  by_cases hChain : c = a.1
  · subst hChain
    rw [Function.update_self]
    exact Chain.run_endOf h [a.2]
  · rw [Function.update_of_ne hChain]
    exact ⟨h, rfl⟩

theorem Genuine.step {net : Network ι} {w : World ι} {root hash : Bytes32}
    (h : net.Genuine w root hash) (a : ι × Chain.Action) :
    net.Genuine (net.step w a) root hash := by
  obtain ⟨c, n, hBlock, hHash, hRoot⟩ := h
  obtain ⟨hBlock', hEnd⟩ := net.step_endOf w a hBlock
  exact ⟨c, n, hBlock', hHash, by rw [hEnd]; exact hRoot⟩

/-- Whenever a direct verifier returns a root, the context it was called with and the root have
the property `P` at that point of the run. -/
def Answers (P : World ι → Uint256 × Uint256 × Bytes32 → Bytes32 → Prop)
    (actions : List (ι × Chain.Action)) : Prop :=
  ∀ i c root context, actions[i]? = some (c, .verifierReturns root) →
    Chain.asked (net.run (actions.take i) c) = some context →
    P (net.run (actions.take i)) context root

/-- Every direct verifier accepts only completed blocks and returns their end-of-block
TrustRoot. -/
def Honest (actions : List (ι × Chain.Action)) : Prop :=
  net.Answers (fun w context root => net.Genuine w root context.2.2) actions

section Answers

variable {net : Network ι} {P : World ι → Uint256 × Uint256 × Bytes32 → Bytes32 → Prop}
  {actions : List (ι × Chain.Action)} {a : ι × Chain.Action}

theorem Answers.of_append_singleton (h : net.Answers P (actions ++ [a])) :
    net.Answers P actions := by
  intro i c root context hAction hAsked
  obtain ⟨hRange, -⟩ := List.getElem?_eq_some_iff.mp hAction
  have hTake : (actions ++ [a]).take i = actions.take i := List.take_append_of_le_length hRange.le
  have hAnswer := h i c root context
  rw [List.getElem?_append_left hRange, hTake] at hAnswer
  exact hAnswer hAction hAsked

theorem Answers.last (h : net.Answers P (actions ++ [a])) {root : Bytes32}
    {context : Uint256 × Uint256 × Bytes32} (hAction : a.2 = .verifierReturns root)
    (hAsked : Chain.asked (net.run actions a.1) = some context) :
    P (net.run actions) context root := by
  have hAnswer := h actions.length a.1 root context
  rw [List.take_left] at hAnswer
  apply hAnswer _ hAsked
  rw [List.getElem?_concat_length, ← hAction]

end Answers

/-- Two chains over the toy hash, each deployed in its block 5. -/
def toyNetwork : Network Bool where
  keccak := Chain.toyKeccak
  depth := ⟨2, Chain.toyDepth_pos, Chain.toyDepth_le⟩
  chainid c := if c then 2 else 1
  self _ := 10
  blockhash c n := BitVec.ofNat 256 ((if c then 2000 else 1000) + n)
  start _ := 5
  start_pos _ := by decide

/-- The root of the second chain once it has recorded block 2 of the first one. -/
def toyRoot : Bytes32 :=
  hashPair Chain.toyKeccak
    (hashPair Chain.toyKeccak (hashPair Chain.toyKeccak 0 2004) (hashPair Chain.toyKeccak 0 1002))
    (hashPair Chain.toyKeccak 0 0)

/-- The second chain verifies block 2 of the first one directly and ends its block; then the first
chain verifies that block of the second one directly. -/
def toyNetworkActions : List (Bool × Chain.Action) :=
  [(true, .requestVerification 7 1 2 1002),
    (true, .verifyDirectAndRecord
      (computeRequestId (toyNetwork.deployment true) 7 0 1 2 1002) []),
    (true, .verifierReturns 0),
    (true, .nextBlock),
    (false, .requestVerification 7 2 5 2005),
    (false, .verifyDirectAndRecord
      (computeRequestId (toyNetwork.deployment false) 7 0 2 5 2005) []),
    (false, .verifierReturns toyRoot)]

end Network

end TrustMap.Contracts
