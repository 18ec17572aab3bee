import TrustMap.Domain
import TrustMap.Library.Checks

/-!
The Go package `evidence`: locators of Gateway logs, the identifiers computed from them and the
states of an evidence record.
-/

namespace TrustMap.Mapnode

open Checks

/-- `evidence.ID`. -/
abbrev EvidenceID := Bytes32

/-- `evidence.Locator`. -/
structure Locator where
  chainID : Bytes32
  contractAddress : Address
  blockNumber : Bytes32
  blockHash : Bytes32
  txHash : Bytes32
  txIndex : UInt32
  logIndex : UInt32
  payloadDigest : Bytes32
  deriving DecidableEq, Repr

/-- The errors of locators and identifiers. -/
inductive LocatorError
  | zeroChainID
  | zeroContractAddress
  | zeroBlockHash
  | zeroTransactionHash
  | zeroPayloadDigest
  | zeroGateway
  | zeroRequester
  | syntheticIncomplete
  | syntheticCoordinates
  deriving DecidableEq, Repr

namespace Locator

/-- `Locator.Validate`. -/
def validate (locator : Locator) : Except LocatorError Unit := do
  require (locator.chainID ≠ 0) .zeroChainID
  require (locator.contractAddress ≠ 0) .zeroContractAddress
  require (locator.blockHash ≠ 0) .zeroBlockHash
  require (locator.txHash ≠ 0) .zeroTransactionHash
  require (locator.payloadDigest ≠ 0) .zeroPayloadDigest

/-- The words of a locator in the order of its ABI encoding. -/
def words (locator : Locator) : List Bytes32 :=
  [locator.chainID, locator.contractAddress.setWidth 256, locator.blockNumber, locator.blockHash,
    locator.txHash, Words.ofUInt32 locator.txIndex, Words.ofUInt32 locator.logIndex,
    locator.payloadDigest]

/-- The bytes hashed for the identifier of a locator. -/
def encoded (locator : Locator) : Bytes :=
  Words.encode locator.words

/-- `evidence.ComputeID`. -/
def computeID (keccak : Keccak) (locator : Locator) : Except LocatorError EvidenceID := do
  locator.validate
  return keccak locator.encoded

/-- `evidence.ComputeSyntheticID`: the transaction words stay zero. -/
def computeSyntheticID (keccak : Keccak) (locator : Locator) :
    Except LocatorError EvidenceID := do
  require (locator.chainID ≠ 0) .zeroChainID
  require (locator.contractAddress ≠ 0 ∧ locator.blockHash ≠ 0 ∧ locator.payloadDigest ≠ 0)
    .syntheticIncomplete
  require (locator.txHash = 0 ∧ locator.txIndex = 0 ∧ locator.logIndex = 0) .syntheticCoordinates
  return keccak (Words.encode [locator.chainID, locator.contractAddress.setWidth 256,
    locator.blockNumber, locator.blockHash, 0, 0, 0, locator.payloadDigest])

theorem validate_eq_ok {locator : Locator} :
    locator.validate = .ok () ↔ locator.chainID ≠ 0 ∧ locator.contractAddress ≠ 0 ∧
      locator.blockHash ≠ 0 ∧ locator.txHash ≠ 0 ∧ locator.payloadDigest ≠ 0 := by
  simp only [validate, check_bind_eq_ok, require_eq_ok]

theorem computeID_eq_ok {keccak : Keccak} {locator : Locator} {id : EvidenceID} :
    computeID keccak locator = .ok id ↔
      locator.validate = .ok () ∧ keccak locator.encoded = id := by
  simp only [computeID, check_bind_eq_ok, pure_eq_ok]

/-- A synthetic identifier hashes the encoding of its locator, like every other. -/
theorem computeSyntheticID_eq_ok {keccak : Keccak} {locator : Locator} {id : EvidenceID}
    (h : computeSyntheticID keccak locator = .ok id) : id = keccak locator.encoded := by
  simp only [computeSyntheticID, check_bind_eq_ok, require_eq_ok, pure_eq_ok] at h
  obtain ⟨_, _, ⟨hTx, hTxIndex, hLogIndex⟩, rfl⟩ := h
  have hZero : Words.ofUInt32 0 = 0 := rfl
  simp only [encoded, words, hTx, hTxIndex, hLogIndex, hZero]

theorem words_injective : Function.Injective words := by
  intro a b h
  cases a
  cases b
  simp only [words, List.cons.injEq, and_true] at h
  obtain ⟨hChain, hContract, hNumber, hHash, hTx, hTxIndex, hLogIndex, hDigest⟩ := h
  rw [hChain, hNumber, hHash, hTx, hDigest, Words.ofUInt32_injective hTxIndex,
    Words.ofUInt32_injective hLogIndex, Words.setWidth_injective (by decide) hContract]

theorem encoded_injective : Function.Injective encoded :=
  Words.encode_injective.comp words_injective

end Locator

/-- `evidence.State`. -/
inductive EvidenceState
  | candidate
  | verified
  | confirmed
  | active
  | invalid
  deriving DecidableEq, Repr

/-- The changes of state that `evidence.ValidateTransition` calls legal. -/
def EvidenceState.legal : EvidenceState → EvidenceState → Bool
  | .candidate, .verified | .candidate, .invalid | .verified, .confirmed | .confirmed, .active => true
  | _, _ => false

/-- The errors of `evidence.ValidateTransition`. -/
inductive TransitionError
  | invalidTransition
  | invalidReasonRequired
  deriving DecidableEq, Repr

/-- `evidence.ValidateTransition`: whether the state changes. -/
def EvidenceState.validateTransition (fromState toState : EvidenceState) (reason : String) :
    Except TransitionError Bool :=
  if fromState = toState then .ok false
  else do
    require (fromState.legal toState) .invalidTransition
    require (¬ (toState = .invalid ∧ reason = "")) .invalidReasonRequired
    return true

/-- A change of state that `ValidateTransition` lets through for some reason. -/
def EvidenceState.Moves (fromState toState : EvidenceState) : Prop :=
  ∃ reason, fromState.validateTransition toState reason = .ok true

theorem EvidenceState.moves_of_legal {fromState toState : EvidenceState}
    (hLegal : fromState.legal toState) : fromState.Moves toState := by
  cases fromState <;> cases toState
  all_goals first
    | exact ⟨"reason", rfl⟩
    | cases hLegal

theorem EvidenceState.legal_of_moves {fromState toState : EvidenceState}
    (hMoves : fromState.Moves toState) : fromState.legal toState := by
  obtain ⟨reason, hMoves⟩ := hMoves
  unfold EvidenceState.validateTransition at hMoves
  split at hMoves
  · cases hMoves
  · rw [check_bind_eq_ok, require_eq_ok] at hMoves
    exact hMoves.1

theorem EvidenceState.not_moves_active {toState : EvidenceState} :
    ¬ EvidenceState.active.Moves toState := by
  rintro ⟨reason, hMoves⟩
  cases toState
  all_goals cases hMoves

/-- Active evidence stays active. -/
theorem EvidenceState.eq_active_of_moves {toState : EvidenceState}
    (hMoves : Relation.ReflTransGen EvidenceState.Moves .active toState) : toState = .active := by
  cases Relation.ReflTransGen.cases_head hMoves with
  | inl hSame => exact hSame.symm
  | inr hStep =>
      obtain ⟨middle, hMove, -⟩ := hStep
      exact absurd hMove EvidenceState.not_moves_active

/-- `evidence.Record` without its time stamps. -/
structure EvidenceRecord where
  id : EvidenceID
  locator : Locator
  state : EvidenceState
  invalidReason : String
  deriving DecidableEq, Repr

/-- `evidence.ComputeGatewayRequestID`. -/
def computeGatewayRequestID (keccak : Keccak) (homeChainID : Bytes32) (gateway requester : Address)
    (nonce sourceChainID sourceHeight sourceBlockHash : Bytes32) :
    Except LocatorError Bytes32 := do
  require (homeChainID ≠ 0) .zeroChainID
  require (gateway ≠ 0) .zeroGateway
  require (requester ≠ 0) .zeroRequester
  require (sourceChainID ≠ 0) .zeroChainID
  require (sourceBlockHash ≠ 0) .zeroBlockHash
  return keccak (Words.encode [homeChainID, gateway.setWidth 256, requester.setWidth 256, nonce,
    sourceChainID, sourceHeight, sourceBlockHash])

end TrustMap.Mapnode
