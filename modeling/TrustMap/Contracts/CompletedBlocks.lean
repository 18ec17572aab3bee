import Mathlib.Data.List.Induction
import TrustMap.Contracts.ChainInvariant

/-!
Completed blocks, completed transactions and reverted calls. The storage at the end of a block
is fixed once the block is complete and satisfies the commitment invariant of its own block.
What has been logged when no call is open stays logged. A call that reverts, whatever ran
inside it, leaves exactly the state in which it was made.
-/

namespace TrustMap.Contracts.Chain

open TrustMapGateway PathProofVerifier TrustRootCommitment

/-- Only the end of a block, between transactions, moves the block number. -/
theorem step_block (env : Deployment) (c : State) (action : Action) :
    ((step env c action).number = c.number ∧ (step env c action).endOf = c.endOf) ∨
      (c.stack = [] ∧ step env c action =
        { c with number := c.number + 1, endOf := Function.update c.endOf c.number c.gateway }) :=
  (step_transition env c action).block

/-- The storage at the end of a completed block never changes. -/
theorem run_endOf {env : Deployment} {c : State} {block : ℕ} (hBlock : block < c.number)
    (actions : List Action) :
    block < (run env c actions).number ∧ (run env c actions).endOf block = c.endOf block := by
  refine run_induction (P := fun c' => block < c'.number ∧ c'.endOf block = c.endOf block)
    ⟨hBlock, rfl⟩ ?_ actions
  rintro c' action ⟨hLt, hEq⟩
  rcases step_block env c' action with ⟨hNumber, hEnd⟩ | ⟨-, hNext⟩
  · rw [hNumber, hEnd]
    exact ⟨hLt, hEq⟩
  · rw [hNext]
    exact ⟨Nat.lt_succ_of_lt hLt, by simp only [Function.update_of_ne hLt.ne, hEq]⟩

section

variable {env : Deployment} {initialTrustRoot : Bytes32} {number : ℕ} {endOf endOf' : ℕ → Gateway}
  {g g' : Gateway}

/-- The invariants only look at completed blocks. -/
theorem Consistent.congr (h : Consistent env initialTrustRoot number endOf g)
    (hEnd : ∀ block < number, endOf' block = endOf block) :
    Consistent env initialTrustRoot number endOf' g := by
  have hBlocks : ∀ t ∈ historyOf g.logs, 0 < t.block ∧ t.block ≤ number := fun t hMem =>
    ⟨h.committed.wellFormed.block_pos t hMem,
      (h.committed.wellFormed.block_le t hMem).trans (h.committed.active ▸ h.active_le)⟩
  exact
    { pos := h.pos
      archived :=
        ⟨h.archived.logs_le,
          fun block hBlock => by rw [hEnd block hBlock, h.archived.logs_at block hBlock],
          fun block hBlock => by rw [hEnd block hBlock, h.archived.updateRoots block hBlock],
          fun block hBlock => by rw [hEnd block hBlock, h.archived.updated block hBlock]⟩
      committed := h.committed
      populated := h.populated
      active_le := h.active_le
      idle := fun hNe => by rw [hEnd _ (Nat.sub_lt h.pos Nat.one_pos), h.idle hNe]
      anchored := fun t hMem => by
        obtain ⟨hPos, hLe⟩ := hBlocks t hMem
        rw [hEnd _ (by omega), h.anchored t hMem]
      ended := fun t hMem hEarlier => by rw [hEnd _ hEarlier, h.ended t hMem hEarlier] }

theorem GatewayStep.extends (h : Consistent env initialTrustRoot number endOf g)
    (hStep : GatewayStep env number g g') : Extends number g g' := by
  rcases hStep.cases with hQuiet | ⟨_, _, _, _, before, after, hBefore, hRecord, hAfter⟩
  · exact hQuiet.extends
  · have hStart := h.quiet hBefore
    obtain ⟨-, hRecorded⟩ :=
      recordDependency_ok hStart.committed hStart.pos hStart.active_le hRecord
    cases hRecorded with
    | known => exact hBefore.extends.trans hAfter.extends
    | new change => exact (hBefore.extends.trans change.extends).trans hAfter.extends

end

/-- Each completed block from the deployment on satisfies the invariant at its own end; before
the deployment there is only the Gateway as deployed. -/
structure Completed (env : Deployment) (initialTrustRoot : Bytes32) (start : ℕ) (c : State) :
    Prop where
  start_le : start ≤ c.number
  deployed : ∀ block < start,
    c.endOf block = TrustMapGateway.initial env.keccak env.depth initialTrustRoot
  consistent : ∀ block, start ≤ block → block < c.number →
    Consistent env initialTrustRoot block c.endOf (c.endOf block)

theorem run_completed (env : Deployment) (initialTrustRoot : Bytes32) {start : ℕ}
    (hStart : 0 < start) (actions : List Action) :
    Completed env initialTrustRoot start
      (run env (deploy env initialTrustRoot start) actions) := by
  induction actions using List.reverseRecOn with
  | nil =>
      exact ⟨le_rfl, fun _ _ => rfl, fun block hLe hLt => absurd hLe (Nat.not_le.mpr hLt)⟩
  | append_singleton actions action ih =>
      have h := (run_consistent env initialTrustRoot hStart actions).current
      rw [run_append]
      change Completed env initialTrustRoot start
        (step env (run env (deploy env initialTrustRoot start) actions) action)
      generalize run env (deploy env initialTrustRoot start) actions = c at ih h ⊢
      rcases step_block env c action with ⟨hNumber, hEnd⟩ | ⟨-, hNext⟩
      · exact ⟨hNumber ▸ ih.start_le, hEnd ▸ ih.deployed, hNumber ▸ hEnd ▸ ih.consistent⟩
      · rw [hNext]
        have hOld : ∀ block < c.number,
            Function.update c.endOf c.number c.gateway block = c.endOf block :=
          fun block hBlock => Function.update_of_ne hBlock.ne _ _
        refine ⟨ih.start_le.trans (Nat.le_succ _), fun block hBlock => ?_,
          fun block hLe hLt => ?_⟩
        · exact (hOld block (hBlock.trans_le ih.start_le)).trans (ih.deployed block hBlock)
        · rcases (Nat.lt_succ_iff.mp hLt).eq_or_lt with rfl | hEarlier
          · simp only [Function.update_self]
            exact h.congr hOld
          · simp only [hOld block hEarlier]
            exact (ih.consistent block hLe hEarlier).congr
              fun b hb => hOld b (hb.trans hEarlier)

/-- Once no call is open, what is logged stays logged: in the storage at every later point and
in every storage a later revert may restore. -/
theorem run_logs_prefix {env : Deployment} {initialTrustRoot : Bytes32} {c : State}
    (hStack : c.stack = [])
    (h : Consistent env initialTrustRoot c.number c.endOf c.gateway) (actions : List Action) :
    c.gateway.logs <+: (run env c actions).gateway.logs := by
  refine (run_throughout (P := fun number endOf g =>
    Consistent env initialTrustRoot number endOf g ∧ c.gateway.logs <+: g.logs)
    ⟨⟨h, List.prefix_rfl⟩, by simp [hStack]⟩ ?_ ?_ actions).current.2
  · rintro number endOf g g' ⟨hConsistent, hPrefix⟩ hStep
    obtain ⟨more, hLogs, -⟩ := (hStep.extends hConsistent).logs
    refine ⟨hConsistent.gatewayStep hStep, hPrefix.trans ?_⟩
    rw [hLogs]
    exact List.prefix_append _ _
  · rintro number endOf g ⟨hConsistent, hPrefix⟩
    exact ⟨hConsistent.nextBlock, hPrefix⟩

/-- An action changes the stack by at most one frame; a new frame saves the current storage. -/
theorem step_stack (env : Deployment) (c : State) (action : Action) :
    (step env c action).stack = c.stack ∨
      (∃ frame : Frame, (step env c action).stack = frame :: c.stack ∧
        frame.saved = c.gateway) ∨
      ∃ frame, c.stack = frame :: (step env c action).stack := by
  have hTransition := step_transition env c action
  generalize step env c action = c' at hTransition ⊢
  cases hTransition with
  | idle | nextBlock stack | requested ok | path ok => exact .inl rfl
  | enter | begun ok => exact .inr (.inl ⟨_, rfl, rfl⟩)
  | leave stack | reverted stack | direct stack ok => exact .inr (.inr ⟨_, stack⟩)

/-- While a call is open the block does not end. -/
theorem step_block_of_open (env : Deployment) {c : State} (hOpen : c.stack ≠ [])
    (action : Action) :
    (step env c action).number = c.number ∧ (step env c action).endOf = c.endOf :=
  (step_block env c action).resolve_right fun hNext => hOpen hNext.1

/-- Every open frame was pushed by an action of the run, and saves the state before it. -/
theorem run_frame {env : Deployment} {start : State} (hStart : start.stack = [])
    (actions : List Action) (above : List Frame) {below : List Frame} {frame : Frame}
    (hStack : (run env start actions).stack = above ++ frame :: below) :
    ∃ prior call rest, actions = prior ++ call :: rest ∧
      run env start prior =
        ⟨(run env start actions).number, frame.saved, below, (run env start actions).endOf⟩ ∧
      (run env start (prior ++ [call])).stack = frame :: below := by
  induction actions using List.reverseRecOn generalizing above with
  | nil => simp [hStart] at hStack
  | append_singleton actions action ih =>
      have hRun : run env start (actions ++ [action]) = step env (run env start actions) action := by
        rw [run_append]
        rfl
      rw [hRun] at hStack ⊢
      -- A frame that was already open keeps its origin; the last action cannot end a block.
      have hOld : ∀ above', (run env start actions).stack = above' ++ frame :: below →
          ∃ prior call rest, actions ++ [action] = prior ++ call :: rest ∧
            run env start prior =
              ⟨(step env (run env start actions) action).number, frame.saved, below,
                (step env (run env start actions) action).endOf⟩ ∧
            (run env start (prior ++ [call])).stack = frame :: below := by
        intro above' hAbove
        obtain ⟨prior, call, rest, rfl, hPrior, hCall⟩ := ih above' hAbove
        have hOpen : (run env start (prior ++ call :: rest)).stack ≠ [] := by simp [hAbove]
        obtain ⟨hNumber, hEnd⟩ := step_block_of_open env hOpen action
        exact ⟨prior, call, rest ++ [action], by simp, by rw [hPrior, hNumber, hEnd], hCall⟩
      rcases step_stack env (run env start actions) action with
        hSame | ⟨pushed, hPush, hSaved⟩ | ⟨popped, hPop⟩
      · exact hOld above (hSame ▸ hStack)
      · cases above with
        | nil =>
            rw [hPush] at hStack
            obtain ⟨rfl, rfl⟩ : pushed = frame ∧ (run env start actions).stack = below := by
              simpa using hStack
            have hBlock : (step env (run env start actions) action).number =
                (run env start actions).number ∧
                (step env (run env start actions) action).endOf =
                (run env start actions).endOf := by
              refine (step_block env (run env start actions) action).resolve_right ?_
              rintro ⟨-, hNext⟩
              rw [hNext] at hPush
              exact (List.cons_ne_self _ _).symm hPush
            refine ⟨actions, action, [], rfl, ?_, by rw [hRun, hPush]⟩
            rw [hBlock.1, hBlock.2, hSaved]
        | cons top above =>
            rw [hPush, List.cons_append, List.cons.injEq] at hStack
            exact hOld above hStack.2
      · exact hOld (popped :: above) (by rw [hPop, hStack, List.cons_append])

/-- The actions by which a Gateway call or a foreign call reverts. -/
inductive Reverts (env : Deployment) (c : State) : Action → Prop
  | requestVerification {sender : Address} {sourceChainId sourceHeight : Uint256}
      {sourceBlockHash : Bytes32} {e : GatewayError}
      (error : TrustMapGateway.requestVerification env c.number sender sourceChainId sourceHeight
        sourceBlockHash c.gateway = .error e) :
      Reverts env c (.requestVerification sender sourceChainId sourceHeight sourceBlockHash)
  | path {requestId baseTrustRoot : Bytes32} {blockHashes : List Bytes32}
      {witnesses : List Witness} {e : GatewayError}
      (error : TrustMapGateway.verifyPathAndRecord env c.number requestId baseTrustRoot
        blockHashes witnesses c.gateway = .error e) :
      Reverts env c (.verifyPathAndRecord requestId baseTrustRoot blockHashes witnesses)
  | begin {requestId : Bytes32} {proof : Bytes} {e : GatewayError}
      (error : beginRequest requestId c.gateway = .error e) :
      Reverts env c (.verifyDirectAndRecord requestId proof)
  | direct {saved : Gateway} {requestId sourceTrustRoot : Bytes32} {proof : Bytes}
      {stack : List Frame} {e : GatewayError}
      (top : c.stack = .verify saved requestId proof :: stack)
      (error : directVerified env c.number requestId sourceTrustRoot c.gateway = .error e) :
      Reverts env c (.verifierReturns sourceTrustRoot)
  | verifier {saved : Gateway} {requestId : Bytes32} {proof : Bytes} {stack : List Frame}
      (top : c.stack = .verify saved requestId proof :: stack) :
      Reverts env c .verifierReverts
  | code {saved : Gateway} {stack : List Frame} (top : c.stack = .code saved :: stack) :
      Reverts env c .abort

/-- A revert leaves the state alone, or restores what the open call saved. -/
theorem Reverts.step_eq {env : Deployment} {c : State} {action : Action}
    (h : Reverts env c action) :
    step env c action = c ∨ ∃ frame stack, c.stack = frame :: stack ∧
      step env c action = ⟨c.number, frame.saved, stack, c.endOf⟩ := by
  cases h with
  | requestVerification error => exact .inl (by simp only [step, error])
  | path error => exact .inl (by simp only [step, error])
  | begin error => exact .inl (by simp only [step, error])
  | direct top error => exact .inr ⟨_, _, top, by simp only [step, top, error, Frame.saved]⟩
  | verifier top => exact .inr ⟨_, _, top, by simp only [step, top, Frame.saved]⟩
  | code top => exact .inr ⟨_, _, top, by simp only [step, top, Frame.saved]⟩

/-- After a revert the whole state is the one in which the reverted call was made. -/
theorem run_reverts {env : Deployment} {start : State} (hStart : start.stack = [])
    {actions : List Action} {action : Action} (h : Reverts env (run env start actions) action) :
    step env (run env start actions) action = run env start actions ∨
      ∃ prior call rest, actions = prior ++ call :: rest ∧
        (run env start (prior ++ [call])).stack = (run env start actions).stack ∧
        step env (run env start actions) action = run env start prior := by
  rcases h.step_eq with hSame | ⟨frame, stack, hTop, hStep⟩
  · exact .inl hSame
  · obtain ⟨prior, call, rest, hActions, hPrior, hCall⟩ := run_frame hStart actions [] hTop
    exact .inr ⟨prior, call, rest, hActions, by rw [hCall, hTop], by rw [hStep, hPrior]⟩

end TrustMap.Contracts.Chain
