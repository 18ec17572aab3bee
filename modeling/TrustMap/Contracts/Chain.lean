import TrustMap.Contracts.TrustMapGateway

/-!
One chain with one Gateway, as a state machine. A run is a list of actions: blocks end,
transactions and calls of foreign contracts begin, return or revert, Gateway functions are
called, and a direct verifier that has been called returns a root or reverts. While a verifier
or any other foreign code is running it may call the Gateway again to any depth; the stack
holds the storage to restore when a frame reverts. An action that is not possible in a state,
and a Gateway call that reverts, leave the state as it is.
-/

namespace TrustMap.Contracts.Chain

open TrustMapGateway

/-- An open call and the Gateway state to restore if it reverts: a frame of foreign code (a
transaction, or a call whose failure its caller handles), or `verifyDirectAndRecord` waiting
for `directVerifier.verify`. -/
inductive Frame
  | code (saved : Gateway)
  | verify (saved : Gateway) (requestId : Bytes32) (proof : Bytes)

/-- The Gateway state a frame restores. -/
def Frame.saved : Frame → Gateway
  | .code saved => saved
  | .verify saved _ _ => saved

/-- A chain in the middle of block `number`. `endOf` gives the Gateway at the end of each
completed block; for blocks before the deployment it is the Gateway as deployed. -/
structure State where
  number : ℕ
  gateway : Gateway
  stack : List Frame
  endOf : ℕ → Gateway

/-- The actions of a run. -/
inductive Action
  | nextBlock
  | enter
  | leave
  | abort
  | requestVerification (sender : Address) (sourceChainId sourceHeight : Uint256)
      (sourceBlockHash : Bytes32)
  | verifyPathAndRecord (requestId baseTrustRoot : Bytes32) (blockHashes : List Bytes32)
      (witnesses : List Witness)
  | verifyDirectAndRecord (requestId : Bytes32) (proof : Bytes)
  | verifierReturns (sourceTrustRoot : Bytes32)
  | verifierReverts
  deriving DecidableEq, Repr

/-- The state after one action. -/
def step (env : Deployment) (c : State) : Action → State
  | .nextBlock =>
      match c.stack with
      | [] =>
          { c with
            number := c.number + 1
            endOf := Function.update c.endOf c.number c.gateway }
      | _ :: _ => c
  | .enter => { c with stack := .code c.gateway :: c.stack }
  | .leave =>
      match c.stack with
      | .code _ :: stack => { c with stack := stack }
      | _ => c
  | .abort =>
      match c.stack with
      | .code saved :: stack => { c with gateway := saved, stack := stack }
      | _ => c
  | .requestVerification sender sourceChainId sourceHeight sourceBlockHash =>
      match requestVerification env c.number sender sourceChainId sourceHeight
          sourceBlockHash c.gateway with
      | .error _ => c
      | .ok (_, gateway) => { c with gateway := gateway }
  | .verifyPathAndRecord requestId baseTrustRoot blockHashes witnesses =>
      match verifyPathAndRecord env c.number requestId baseTrustRoot blockHashes witnesses
          c.gateway with
      | .error _ => c
      | .ok (_, _, gateway) => { c with gateway := gateway }
  | .verifyDirectAndRecord requestId proof =>
      match beginRequest requestId c.gateway with
      | .error _ => c
      | .ok gateway =>
          { c with gateway := gateway, stack := .verify c.gateway requestId proof :: c.stack }
  | .verifierReturns sourceTrustRoot =>
      match c.stack with
      | .verify saved requestId _ :: stack =>
          match directVerified env c.number requestId sourceTrustRoot c.gateway with
          | .error _ => { c with gateway := saved, stack := stack }
          | .ok (_, _, gateway) => { c with gateway := gateway, stack := stack }
      | _ => c
  | .verifierReverts =>
      match c.stack with
      | .verify saved _ _ :: stack => { c with gateway := saved, stack := stack }
      | _ => c

/-- The chain at the deployment of the Gateway in block `number`. -/
def deploy (env : Deployment) (initialTrustRoot : Bytes32) (number : ℕ) : State where
  number := number
  gateway := initial env.keccak env.depth initialTrustRoot
  stack := []
  endOf _ := initial env.keccak env.depth initialTrustRoot

/-- The state after a list of actions. -/
def run (env : Deployment) (c : State) (actions : List Action) : State :=
  actions.foldl (step env) c

@[simp] theorem run_nil (env : Deployment) (c : State) : run env c [] = c := rfl

theorem run_append (env : Deployment) (c : State) (first second : List Action) :
    run env c (first ++ second) = run env (run env c first) second :=
  List.foldl_append

/-- An invariant of the deployed chain and of every step holds throughout every run. -/
theorem run_induction {env : Deployment} {P : State → Prop} {c : State} (h : P c)
    (hStep : ∀ c action, P c → P (step env c action)) (actions : List Action) :
    P (run env c actions) :=
  List.foldlRecOn actions (step env) h fun c hc action _ => hStep c action hc

/-- A toy hash, used where the model is evaluated on concrete inputs. -/
def toyKeccak : Keccak := fun input =>
  input.foldl (fun acc byte => acc * 257 + byte.toBitVec.setWidth 256 + 1) 1

theorem toyDepth_pos : 0 < (2 : UInt8).toNat := by decide

theorem toyDepth_le : (2 : UInt8).toNat ≤ 32 := by decide

/-- A deployment of depth two over the toy hash. -/
def toyDeployment : Deployment where
  keccak := toyKeccak
  depth := ⟨2, toyDepth_pos, toyDepth_le⟩
  chainid := 1
  self := 10
  blockhash number := BitVec.ofNat 256 (1000 + number)

/-- A request for block 3 of chain 5, verified directly with source TrustRoot 99, in the
block of the deployment. -/
def toyActions : List Action :=
  [.requestVerification 7 5 3 700,
    .verifyDirectAndRecord (computeRequestId toyDeployment 7 0 5 3 700) [],
    .verifierReturns 99]

end TrustMap.Contracts.Chain
