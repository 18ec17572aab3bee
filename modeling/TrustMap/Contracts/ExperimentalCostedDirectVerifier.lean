import Mathlib.Data.List.Forall2
import Mathlib.Data.List.Nodup
import TrustMap.Contracts.Chain
import TrustMap.Library.Checks

/-!
`ExperimentalCostedDirectVerifier`: a direct verifier that accepts a root on the signatures of its
first authorized signers. What a list of signatures attests depends on the verifier, the Gateway
bound to it, the home chain and the source block.
-/

namespace TrustMap.Contracts.ExperimentalCostedDirectVerifier

open Checks

/-- The custom errors, a proof or a result that `abi.decode` refuses, and the panic of an array
access. -/
inductive VerifierError
  | emptyAuthorizedSigners
  | zeroAuthorizedSigner
  | duplicateAuthorizedSigner
  | invalidSignatureCheckCount
  | signatureChecksExceedSignerCount
  | tooManySignatureChecks
  | tooManyHashRounds
  | onlyBinder
  | zeroGateway
  | gatewayMustBeContract
  | gatewayVerifierQueryFailed
  | gatewayVerifierMismatch
  | gatewayAlreadyBound
  | onlyGateway
  | invalidProofSignatureCount
  | invalidSignatureLength
  | invalidSignature
  | malformedEncoding
  | arrayIndex
  deriving DecidableEq, Repr

/-- What the contract computes with: the hash, the precompile `ecrecover` on a digest, `v`, `r` and
`s`, and `abi.decode` of a proof. -/
structure Primitives where
  keccak : Keccak
  ecrecover : Bytes32 → UInt8 → Bytes32 → Bytes32 → Address
  decodeProof : Bytes → Option (Bytes32 × List Bytes)

/-- The idealised `ecrecover`: for each non-zero address a signature has at most one digest. -/
def IdealRecover (ecrecover : Bytes32 → UInt8 → Bytes32 → Bytes32 → Address) : Prop :=
  ∀ v r s digest digest', ecrecover digest v r s ≠ 0 →
    ecrecover digest' v r s = ecrecover digest v r s → digest' = digest

/-- The state of a deployed verifier at address `self`. -/
structure Verifier where
  self : Address
  authorizedSigners : List Address
  isAuthorizedSigner : Address → Bool
  signatureChecks : UInt32
  hashRounds : UInt32
  binder : Address
  gateway : Address

/-- `MAX_SIGNATURE_CHECKS`. -/
def maxSignatureChecks : UInt32 := 4096

/-- `MAX_HASH_ROUNDS`. -/
def maxHashRounds : UInt32 := 16384

/-- `SECP256K1_HALF_ORDER`. -/
def secp256k1HalfOrder : ℕ :=
  0x7fffffffffffffffffffffffffffffff5d576e7357a4501ddfe92f46681b20a0

/-! ## Deployment -/

/-- One turn of the loop of the constructor. -/
def addSigner (taken : List Address × (Address → Bool)) (signer : Address) :
    Except VerifierError (List Address × (Address → Bool)) :=
  if signer = 0 then .error .zeroAuthorizedSigner
  else if taken.2 signer then .error .duplicateAuthorizedSigner
  else .ok (taken.1 ++ [signer], Function.update taken.2 signer true)

/-- The constructor. -/
def constructor (self sender : Address) (authorizedSigners : List Address)
    (signatureChecks hashRounds : UInt32) : Except VerifierError Verifier := do
  require (authorizedSigners.length ≠ 0) .emptyAuthorizedSigners
  require (signatureChecks ≠ 0) .invalidSignatureCheckCount
  require (signatureChecks ≤ maxSignatureChecks) .tooManySignatureChecks
  require (signatureChecks.toNat ≤ authorizedSigners.length) .signatureChecksExceedSignerCount
  require (hashRounds ≤ maxHashRounds) .tooManyHashRounds
  let taken ← authorizedSigners.foldlM addSigner ([], fun _ => false)
  return {
    self := self
    authorizedSigners := taken.1
    isAuthorizedSigner := taken.2
    signatureChecks := signatureChecks
    hashRounds := hashRounds
    binder := sender
    gateway := 0 }

/-- What `bindGateway` sees at the address it is given: the code, and the answer to the call of
`directVerifier()`, if it succeeds. -/
structure Callee where
  code : Bytes
  directVerifier : Option Bytes

/-- `bindGateway`. -/
def bindGateway (verifier : Verifier) (sender gateway : Address) (callee : Callee) :
    Except VerifierError Verifier := do
  require (sender = verifier.binder) .onlyBinder
  require (verifier.gateway = 0) .gatewayAlreadyBound
  require (gateway ≠ 0) .zeroGateway
  require (callee.code.length ≠ 0) .gatewayMustBeContract
  match callee.directVerifier with
  | none => .error .gatewayVerifierQueryFailed
  | some result =>
      require (result.length = 32) .gatewayVerifierQueryFailed
      require ((Words.wordAt result 0).toNat < 2 ^ 160) .malformedEncoding
      require (Words.wordAt result 0 = verifier.self.setWidth 256) .gatewayVerifierMismatch
      return { verifier with gateway := gateway }

/-- The states of deployed verifiers. -/
inductive Deployed : Verifier → Prop
  | constructed {self sender : Address} {signers : List Address} {checks rounds : UInt32}
      {verifier : Verifier} (h : constructor self sender signers checks rounds = .ok verifier) :
      Deployed verifier
  | bound {verifier next : Verifier} {sender gateway : Address} {callee : Callee}
      (hBefore : Deployed verifier) (h : bindGateway verifier sender gateway callee = .ok next) :
      Deployed next

/-! ## Verification -/

/-- Where an attestation is valid. -/
structure Context where
  verifier : Address
  gateway : Address
  homeChainId : Uint256
  sourceChainId : Uint256
  sourceHeight : Uint256
  sourceBlockHash : Bytes32
  deriving DecidableEq

/-- `ATTESTATION_TYPEHASH`. -/
def attestationTypehash (keccak : Keccak) : Bytes32 :=
  keccak ("TrustMapExperimentalCostedDirect(address verifier,address gateway,uint256 homeChainId," ++
    "uint256 sourceChainId,uint256 sourceHeight,bytes32 sourceBlockHash,bytes32 sourceTrustRoot)"
    ).toUTF8.data.toList

/-- The bytes of the first hash of an attestation. -/
def Context.encoded (keccak : Keccak) (context : Context) (sourceTrustRoot : Bytes32) : Bytes :=
  Words.encode [attestationTypehash keccak, context.verifier.setWidth 256,
    context.gateway.setWidth 256, context.homeChainId, context.sourceChainId,
    context.sourceHeight, context.sourceBlockHash, sourceTrustRoot]

/-- The variable `workHash` after a number of rounds. -/
def workHash (keccak : Keccak) (start : Bytes) : ℕ → Bytes32
  | 0 => keccak start
  | round + 1 => keccak (Words.encode [workHash keccak start round, BitVec.ofNat 256 round])

/-- The bytes of the last hash. -/
def signedMessage (hash : Bytes32) : Bytes :=
  "\x19Ethereum Signed Message:\n32".toUTF8.data.toList ++ Words.bytes hash

/-- `attestationDigest`. -/
def attestationDigest (keccak : Keccak) (hashRounds : UInt32) (context : Context)
    (sourceTrustRoot : Bytes32) : Bytes32 :=
  keccak (signedMessage (workHash keccak (context.encoded keccak sourceTrustRoot) hashRounds.toNat))

/-- `_recover`. -/
def recover (p : Primitives) (digest : Bytes32) (signature : Bytes) :
    Except VerifierError Address := do
  require (signature.length = 65) .invalidSignatureLength
  let r := Words.wordAt signature 0
  let s := Words.wordAt signature 1
  let v := signature.getD 64 0
  require (v = 27 ∨ v = 28) .invalidSignature
  require (s.toNat ≤ secp256k1HalfOrder) .invalidSignature
  return p.ecrecover digest v r s

/-- The loop of `verify`: signature `i` has to be of signer `i`. -/
def checkSignatures (p : Primitives) (digest : Bytes32) :
    List Address → List Bytes → Except VerifierError Unit
  | _, [] => .ok ()
  | [], _ :: _ => .error .arrayIndex
  | signer :: signers, signature :: signatures => do
      let recovered ← recover p digest signature
      require (recovered = signer) .invalidSignature
      checkSignatures p digest signers signatures

/-- A call of `verify` on a home chain. -/
structure Call where
  sender : Address
  homeChainId : Uint256
  sourceChainId : Uint256
  sourceHeight : Uint256
  sourceBlockHash : Bytes32
  proof : Bytes

/-- The context of a call. -/
def Call.context (call : Call) (verifier : Verifier) : Context where
  verifier := verifier.self
  gateway := verifier.gateway
  homeChainId := call.homeChainId
  sourceChainId := call.sourceChainId
  sourceHeight := call.sourceHeight
  sourceBlockHash := call.sourceBlockHash

/-- The digest that the signers attest in a call. -/
def Call.digest (p : Primitives) (call : Call) (verifier : Verifier) (root : Bytes32) : Bytes32 :=
  attestationDigest p.keccak verifier.hashRounds (call.context verifier) root

/-- `verify`. -/
def verify (p : Primitives) (verifier : Verifier) (call : Call) : Except VerifierError Bytes32 := do
  require (call.sender = verifier.gateway ∧ verifier.gateway ≠ 0) .onlyGateway
  match p.decodeProof call.proof with
  | none => .error .malformedEncoding
  | some (sourceTrustRoot, signatures) =>
      require (signatures.length = verifier.signatureChecks.toNat) .invalidProofSignatureCount
      checkSignatures p (call.digest p verifier sourceTrustRoot) verifier.authorizedSigners
        signatures
      return sourceTrustRoot

/-! ## Deployed verifiers -/

/-- What the constructor establishes about the signers and the number of checks. -/
structure Verifier.WellFormed (verifier : Verifier) : Prop where
  nodup : verifier.authorizedSigners.Nodup
  nonzero : ∀ signer ∈ verifier.authorizedSigners, signer ≠ 0
  authorized : ∀ signer, verifier.isAuthorizedSigner signer ↔ signer ∈ verifier.authorizedSigners
  checks_pos : 0 < verifier.signatureChecks.toNat
  checks_le : verifier.signatureChecks.toNat ≤ verifier.authorizedSigners.length

/-- The loop invariant of the constructor: the signers taken so far are distinct, not zero, and
those the mapping marks. -/
structure Taken (taken : List Address × (Address → Bool)) : Prop where
  nodup : taken.1.Nodup
  nonzero : ∀ signer ∈ taken.1, signer ≠ 0
  marked : ∀ signer, taken.2 signer ↔ signer ∈ taken.1

theorem Taken.addSigner {taken next : List Address × (Address → Bool)} {signer : Address}
    (hTaken : Taken taken) (hStep : addSigner taken signer = .ok next) :
    Taken next ∧ next.1 = taken.1 ++ [signer] := by
  unfold ExperimentalCostedDirectVerifier.addSigner at hStep
  split at hStep
  · cases hStep
  split at hStep
  · cases hStep
  rename_i hNonzero hFree
  cases hStep
  have hNew : signer ∉ taken.1 := fun hMem => hFree ((hTaken.marked signer).mpr hMem)
  refine ⟨⟨?_, ?_, ?_⟩, rfl⟩
  · exact hTaken.nodup.append (List.nodup_singleton signer) (by simpa using hNew)
  · intro other hMem
    rcases List.mem_append.mp hMem with hOld | hLast
    · exact hTaken.nonzero other hOld
    · rwa [List.mem_singleton.mp hLast]
  · intro other
    by_cases h : other = signer
    · simp [h]
    · simp [h, hTaken.marked]

theorem Taken.foldlM_addSigner {taken final : List Address × (Address → Bool)}
    {signers : List Address} (hTaken : Taken taken)
    (hLoop : signers.foldlM ExperimentalCostedDirectVerifier.addSigner taken = .ok final) :
    Taken final ∧ final.1 = taken.1 ++ signers := by
  induction signers generalizing taken with
  | nil =>
      rw [List.foldlM_nil, pure_eq_ok] at hLoop
      subst hLoop
      exact ⟨hTaken, (List.append_nil _).symm⟩
  | cons signer signers ih =>
      rw [List.foldlM_cons, bind_eq_ok] at hLoop
      obtain ⟨next, hStep, hRest⟩ := hLoop
      obtain ⟨hNext, hList⟩ := hTaken.addSigner hStep
      obtain ⟨hFinal, hAll⟩ := ih hNext hRest
      refine ⟨hFinal, ?_⟩
      rw [hAll, hList, List.append_assoc, List.singleton_append]

theorem constructor_wellFormed {self sender : Address} {signers : List Address}
    {checks rounds : UInt32} {verifier : Verifier}
    (h : constructor self sender signers checks rounds = .ok verifier) : verifier.WellFormed := by
  simp only [constructor, check_bind_eq_ok, require_eq_ok] at h
  obtain ⟨-, hChecks, -, hEnough, -, hRest⟩ := h
  obtain ⟨taken, hLoop, hVerifier⟩ := bind_eq_ok.mp hRest
  obtain rfl := pure_eq_ok.mp hVerifier
  have hStart : Taken ([], fun _ => false) := ⟨List.nodup_nil, by simp, by simp⟩
  obtain ⟨hTaken, hList⟩ := hStart.foldlM_addSigner hLoop
  refine ⟨hTaken.nodup, hTaken.nonzero, hTaken.marked, ?_, ?_⟩
  · exact Nat.pos_of_ne_zero fun hZero => hChecks (UInt32.toNat_inj.mp hZero)
  · rw [hList, List.nil_append]
    exact hEnough

/-- Binding needs an unbound verifier and changes nothing but the Gateway. -/
theorem bindGateway_eq_ok {verifier next : Verifier} {sender gateway : Address} {callee : Callee}
    (h : bindGateway verifier sender gateway callee = .ok next) :
    verifier.gateway = 0 ∧ gateway ≠ 0 ∧ next = { verifier with gateway := gateway } := by
  simp only [bindGateway, check_bind_eq_ok, require_eq_ok] at h
  obtain ⟨-, hUnbound, hGateway, -, hQuery⟩ := h
  cases hResult : callee.directVerifier with
  | none =>
      rw [hResult] at hQuery
      cases hQuery
  | some result =>
      rw [hResult] at hQuery
      simp only [check_bind_eq_ok, require_eq_ok, pure_eq_ok] at hQuery
      exact ⟨hUnbound, hGateway, hQuery.2.2.2.symm⟩

theorem Deployed.wellFormed {verifier : Verifier} (h : Deployed verifier) :
    verifier.WellFormed := by
  induction h with
  | constructed h => exact constructor_wellFormed h
  | bound _ h ih =>
      obtain ⟨-, -, rfl⟩ := bindGateway_eq_ok h
      exact ⟨ih.nodup, ih.nonzero, ih.authorized, ih.checks_pos, ih.checks_le⟩

/-! ## What a digest determines -/

/-- The inputs of the hash function in the computation of `workHash`. -/
def workInputs (keccak : Keccak) (start : Bytes) : ℕ → List Bytes
  | 0 => [start]
  | round + 1 =>
      Words.encode [workHash keccak start round, BitVec.ofNat 256 round] ::
        workInputs keccak start round

/-- The inputs of the hash function in the computation of a digest. -/
def digestInputs (keccak : Keccak) (hashRounds : UInt32) (context : Context)
    (sourceTrustRoot : Bytes32) : List Bytes :=
  let start := context.encoded keccak sourceTrustRoot
  signedMessage (workHash keccak start hashRounds.toNat) ::
    workInputs keccak start hashRounds.toNat

theorem Context.encoded_length (keccak : Keccak) (context : Context) (root : Bytes32) :
    (context.encoded keccak root).length = 256 := by
  rw [encoded, Words.encode_length]
  rfl

variable {root : Bytes32}

theorem Context.encoded_injective {keccak : Keccak} {context context' : Context} {root' : Bytes32}
    (h : context.encoded keccak root = context'.encoded keccak root') :
    context = context' ∧ root = root' := by
  have hWords := Words.encode_injective h
  simp only [List.cons.injEq, and_true, true_and] at hWords
  obtain ⟨hVerifier, hGateway, hHome, hSource, hHeight, hHash, hRoot⟩ := hWords
  have hWide : Function.Injective (BitVec.setWidth 256 : Address → Bytes32) :=
    Words.setWidth_injective (by decide)
  refine ⟨?_, hRoot⟩
  cases context
  cases context'
  simp_all [hWide.eq_iff]

/-- Without collisions among the hashed inputs the last work hash determines the number of rounds
and the first input, which no round has the length of. -/
theorem workHash_injective {keccak : Keccak} {start start' : Bytes} {rounds rounds' : ℕ}
    (hLength : start.length = 256) (hLength' : start'.length = 256)
    (hFree : Set.InjOn keccak
      {input | input ∈ workInputs keccak start rounds ∨ input ∈ workInputs keccak start' rounds'})
    (hHash : workHash keccak start rounds = workHash keccak start' rounds') : start = start' := by
  have hRound : ∀ hash index : Bytes32, (Words.encode [hash, index]).length = 64 := by
    intro hash index
    rw [Words.encode_length]
    rfl
  induction rounds generalizing rounds' with
  | zero =>
      cases rounds' with
      | zero => exact hFree (Or.inl List.mem_cons_self) (Or.inr List.mem_cons_self) hHash
      | succ round' =>
          have hInput := hFree (Or.inl List.mem_cons_self) (Or.inr List.mem_cons_self) hHash
          rw [hInput, hRound] at hLength
          cases hLength
  | succ round ih =>
      cases rounds' with
      | zero =>
          have hInput := hFree (Or.inl List.mem_cons_self) (Or.inr List.mem_cons_self) hHash
          rw [← hInput, hRound] at hLength'
          cases hLength'
      | succ round' =>
          have hInput := hFree (Or.inl List.mem_cons_self) (Or.inr List.mem_cons_self) hHash
          have hWords := Words.encode_injective hInput
          simp only [List.cons.injEq] at hWords
          refine ih (hFree.mono ?_) hWords.1
          rintro input (hMem | hMem)
          · exact Or.inl (List.mem_cons_of_mem _ hMem)
          · exact Or.inr (List.mem_cons_of_mem _ hMem)

/-- Without collisions among the hashed inputs a digest determines its context and its root. -/
theorem attestationDigest_injective {keccak : Keccak} {rounds rounds' : UInt32}
    {context context' : Context} {root' : Bytes32}
    (hFree : Set.InjOn keccak {input | input ∈ digestInputs keccak rounds context root ∨ input ∈ digestInputs keccak rounds' context' root'})
    (hDigest : attestationDigest keccak rounds context root = attestationDigest keccak rounds' context' root') : context = context' ∧ root = root' := by
  have hMessage := hFree (Or.inl List.mem_cons_self) (Or.inr List.mem_cons_self) hDigest
  have hHash := Words.bytes_injective (List.append_cancel_left hMessage)
  refine Context.encoded_injective
    (workHash_injective (Context.encoded_length ..) (Context.encoded_length ..) ?_ hHash)
  refine hFree.mono ?_
  rintro input (hMem | hMem)
  · exact Or.inl (List.mem_cons_of_mem _ hMem)
  · exact Or.inr (List.mem_cons_of_mem _ hMem)

/-! ## What an accepted proof attests -/

/-- A signature is a signer's on a digest. -/
def SignedBy (p : Primitives) (digest : Bytes32) (signer : Address) (signature : Bytes) : Prop :=
  recover p digest signature = .ok signer

variable {p : Primitives}

/-- The loop of `verify` accepts exactly the signatures of the first signers in their order. -/
theorem checkSignatures_eq_ok {digest : Bytes32} {signers : List Address} {signatures : List Bytes} :
    checkSignatures p digest signers signatures = .ok () ↔
      signatures.length ≤ signers.length ∧
        List.Forall₂ (SignedBy p digest) (signers.take signatures.length) signatures := by
  induction signatures generalizing signers with
  | nil => simp [checkSignatures]
  | cons signature signatures ih =>
      cases signers with
      | nil => simp [checkSignatures]
      | cons signer signers =>
          rw [checkSignatures, bind_eq_ok]
          simp only [require_eq_ok, check_bind_eq_ok, ih, List.length_cons, List.take_succ_cons,
            List.forall₂_cons, SignedBy, Nat.add_le_add_iff_right]
          constructor
          · rintro ⟨recovered, hRecover, rfl, hLength, hRest⟩
            exact ⟨hLength, hRecover, hRest⟩
          · rintro ⟨hLength, hRecover, hRest⟩
            exact ⟨signer, hRecover, rfl, hLength, hRest⟩

/-- What `verify` has checked when it accepts. -/
theorem verify_eq_ok {verifier : Verifier} {call : Call} (h : verify p verifier call = .ok root) :
    verifier.gateway ≠ 0 ∧ ∃ signatures, p.decodeProof call.proof = some (root, signatures) ∧
      signatures.length = verifier.signatureChecks.toNat ∧
      checkSignatures p (call.digest p verifier root) verifier.authorizedSigners signatures =
        .ok () := by
  simp only [verify, check_bind_eq_ok, require_eq_ok] at h
  obtain ⟨⟨-, hBound⟩, hProof⟩ := h
  cases hDecode : p.decodeProof call.proof with
  | none =>
      rw [hDecode] at hProof
      cases hProof
  | some decoded =>
      obtain ⟨decodedRoot, signatures⟩ := decoded
      rw [hDecode] at hProof
      simp only [check_bind_eq_ok, require_eq_ok, pure_eq_ok] at hProof
      obtain ⟨hLength, hLoop, rfl⟩ := hProof
      exact ⟨hBound, signatures, rfl, hLength, hLoop⟩

/-- With the idealised `ecrecover` a signature is a given signer's on one digest only. -/
theorem SignedBy.digest_unique (hIdeal : IdealRecover p.ecrecover) {digest digest' : Bytes32}
    {signer : Address} {signature : Bytes} (hSigner : signer ≠ 0)
    (h : SignedBy p digest signer signature) (h' : SignedBy p digest' signer signature) :
    digest' = digest := by
  simp only [SignedBy, recover, check_bind_eq_ok, require_eq_ok, pure_eq_ok] at h h'
  obtain ⟨-, -, -, hRecover⟩ := h
  obtain ⟨-, -, -, hRecover'⟩ := h'
  exact hIdeal _ _ _ digest digest' (hRecover ▸ hSigner) (hRecover'.trans hRecover.symm)

/-- If the same signatures are of signer lists that share a signer at some position, both lists
signed the same digest. -/
theorem digest_eq_of_common_signer (hIdeal : IdealRecover p.ecrecover) {digest digest' : Bytes32}
    {signers signers' : List Address} {signatures : List Bytes}
    (hNonzero : ∀ signer ∈ signers, signer ≠ 0)
    (h : List.Forall₂ (SignedBy p digest) signers signatures)
    (h' : List.Forall₂ (SignedBy p digest') signers' signatures)
    (hCommon : ∃ pair ∈ signers.zip signers', pair.1 = pair.2) : digest' = digest := by
  induction h generalizing signers' with
  | nil =>
      obtain ⟨pair, hMem, -⟩ := hCommon
      simp at hMem
  | @cons signer signature signers signatures hFirst hRest ih =>
      cases h' with
      | @cons signer' _ signers' _ hFirst' hRest' =>
          obtain ⟨pair, hMem, hSame⟩ := hCommon
          rw [List.zip_cons_cons, List.mem_cons] at hMem
          rcases hMem with rfl | hMem
          · obtain rfl : signer = signer' := hSame
            exact hFirst.digest_unique hIdeal (hNonzero _ List.mem_cons_self) hFirst'
          · exact ih (fun other hOther => hNonzero other (List.mem_cons_of_mem _ hOther)) hRest'
              ⟨pair, hMem, hSame⟩

/-- The signers whose signatures `verify` checks. -/
def Verifier.checkedSigners (verifier : Verifier) : List Address :=
  verifier.authorizedSigners.take verifier.signatureChecks.toNat

/-! ## Two verifiers without a common signer

Used where the model is evaluated on concrete inputs. A signature recovers to the address 1 for the
digest `r`, to the address 2 for the digest `r + s`, and to zero otherwise. -/

namespace Toy

/-- The recovered address. -/
def ecrecover (digest : Bytes32) (_ : UInt8) (r s : Bytes32) : Address :=
  if digest = r then 1 else if digest = r + s then 2 else 0

theorem ecrecover_ideal : IdealRecover ecrecover := by
  intro v r s digest digest' hNonzero hSame
  unfold ecrecover at hNonzero hSame
  have hOne : (1 : Address) ≠ 0 := by decide
  have hTwo : (2 : Address) ≠ 0 := by decide
  have hOneTwo : (1 : Address) ≠ 2 := by decide
  by_cases hFirst : digest = r
  · rw [if_pos hFirst] at hSame
    by_cases hFirst' : digest' = r
    · rw [hFirst', hFirst]
    · rw [if_neg hFirst'] at hSame
      split at hSame
      · exact absurd hSame.symm hOneTwo
      · exact absurd hSame.symm hOne
  · rw [if_neg hFirst] at hSame hNonzero
    by_cases hSecond : digest = r + s
    · rw [if_pos hSecond] at hSame
      split at hSame
      · exact absurd hSame hOneTwo
      · split at hSame
        · rename_i hSecond'
          rw [hSecond', hSecond]
        · exact absurd hSame.symm hTwo
    · rw [if_neg hSecond] at hNonzero
      exact absurd rfl hNonzero

/-- The verifier at an address with one signer, bound to its own Gateway. -/
def verifier (self signer : Address) : Verifier where
  self := self
  authorizedSigners := [signer]
  isAuthorizedSigner := Function.update (fun _ => false) signer true
  signatureChecks := 1
  hashRounds := 1
  binder := 7
  gateway := self + 10

/-- The context of block 3 of chain 5 at the verifier with the given address. -/
def context (self : Address) : Context := ⟨self, self + 10, 1, 5, 3, 700⟩

/-- The digest for root 99. -/
def digest (self : Address) : Bytes32 :=
  attestationDigest Chain.toyKeccak 1 (context self) 99

/-- A signature that recovers to 1 for the digest of the verifier at 21 and to 2 for the digest of
the verifier at 20. -/
def signature : Bytes :=
  Words.bytes (digest 21) ++ Words.bytes (digest 20 - digest 21) ++ [27]

/-- The ABI encoding of the root 99 and the one signature. -/
def proof : Bytes :=
  [99, 64, 1, 32, 65].flatMap Words.bytes ++ signature ++ List.replicate 31 0

/-- A call from the Gateway of the verifier with the given address. -/
def call (self : Address) : Call where
  sender := self + 10
  homeChainId := 1
  sourceChainId := 5
  sourceHeight := 3
  sourceBlockHash := 700
  proof := proof

/-- Only the one proof is decoded. -/
def primitives : Primitives where
  keccak := Chain.toyKeccak
  ecrecover := ecrecover
  decodeProof bytes := if bytes = proof then some (99, [signature]) else none

theorem decodeProof_proof : primitives.decodeProof proof = some (99, [signature]) := by
  simp only [primitives, if_true]

theorem verifier_deployed_first : Deployed (verifier 21 1) := by
  have hConstructed : constructor 21 7 [1] 1 1 = .ok { verifier 21 1 with gateway := 0 } := rfl
  have hBound : bindGateway { verifier 21 1 with gateway := 0 } 7 31 ⟨[0], some (Words.bytes 21)⟩ =
      .ok (verifier 21 1) := rfl
  exact .bound (.constructed hConstructed) hBound

theorem verifier_deployed_second : Deployed (verifier 20 2) := by
  have hConstructed : constructor 20 7 [2] 1 1 = .ok { verifier 20 2 with gateway := 0 } := rfl
  have hBound : bindGateway { verifier 20 2 with gateway := 0 } 7 30 ⟨[0], some (Words.bytes 20)⟩ =
      .ok (verifier 20 2) := rfl
  exact .bound (.constructed hConstructed) hBound

/-- What is hashed for the two digests. -/
def inputs : List Bytes :=
  digestInputs Chain.toyKeccak 1 (context 21) 99 ++ digestInputs Chain.toyKeccak 1 (context 20) 99

theorem hashes_injective : Set.InjOn primitives.keccak
    {input | input ∈ digestInputs primitives.keccak 1 ((call 21).context (verifier 21 1)) 99 ∨
      input ∈ digestInputs primitives.keccak 1 ((call 20).context (verifier 20 2)) 99} := by
  have hFinite : ∀ input ∈ inputs, ∀ input' ∈ inputs,
      primitives.keccak input = primitives.keccak input' → input = input' := by
    decide +kernel
  intro input hInput input' hInput' hHash
  exact hFinite input (List.mem_append.mpr hInput) input' (List.mem_append.mpr hInput') hHash

end Toy

/-! ## Attestations are bound to their context -/

/-- An accepted proof carries, for its root, the signatures of exactly `signatureChecks` distinct
authorized signers over one digest. No other context and no other root has this digest, and a
verifier that checks one of the signers at the same position accepts these signatures in no other
context and for no other root. -/
theorem verify_attests (hIdeal : IdealRecover p.ecrecover) {verifier verifier' : Verifier}
    (hDeployed : Deployed verifier) {call call' : Call} {root' : Bytes32}
    (hFree : Set.InjOn p.keccak
      {input | input ∈ digestInputs p.keccak verifier.hashRounds (call.context verifier) root ∨
        input ∈ digestInputs p.keccak verifier'.hashRounds (call'.context verifier') root'})
    (hAccept : verify p verifier call = .ok root) :
    ∃ signatures, p.decodeProof call.proof = some (root, signatures) ∧
      verifier.checkedSigners.length = verifier.signatureChecks.toNat ∧
      verifier.checkedSigners.Nodup ∧
      (∀ signer ∈ verifier.checkedSigners, signer ≠ 0 ∧ verifier.isAuthorizedSigner signer) ∧
      List.Forall₂ (SignedBy p (call.digest p verifier root)) verifier.checkedSigners signatures ∧
      (call'.digest p verifier' root' = call.digest p verifier root →
        call'.context verifier' = call.context verifier ∧ root' = root) ∧
      (verify p verifier' call' = .ok root' →
        p.decodeProof call'.proof = some (root', signatures) →
        (∃ pair ∈ verifier.checkedSigners.zip verifier'.checkedSigners, pair.1 = pair.2) →
        call'.context verifier' = call.context verifier ∧ root' = root) := by
  obtain ⟨-, signatures, hDecode, hLength, hLoop⟩ := verify_eq_ok hAccept
  have hWell := hDeployed.wellFormed
  have hMem : ∀ signer ∈ verifier.checkedSigners, signer ∈ verifier.authorizedSigners :=
    fun signer => List.mem_of_mem_take
  have hSigned : List.Forall₂ (SignedBy p (call.digest p verifier root)) verifier.checkedSigners
      signatures := by
    rw [Verifier.checkedSigners, ← hLength]
    exact (checkSignatures_eq_ok.mp hLoop).2
  have hUnique : call'.digest p verifier' root' = call.digest p verifier root →
      call'.context verifier' = call.context verifier ∧ root' = root := by
    intro hDigest
    obtain ⟨hContext, hRoot⟩ := attestationDigest_injective hFree hDigest.symm
    exact ⟨hContext.symm, hRoot.symm⟩
  refine ⟨signatures, hDecode, ?_, ?_, ?_, hSigned, hUnique, ?_⟩
  · exact List.length_take_of_le hWell.checks_le
  · exact hWell.nodup.sublist (List.take_sublist _ _)
  · intro signer hSigner
    exact ⟨hWell.nonzero signer (hMem signer hSigner), (hWell.authorized signer).mpr (hMem signer hSigner)⟩
  · intro hAccept' hDecode' hCommon
    obtain ⟨-, signatures', hSame, hLength', hLoop'⟩ := verify_eq_ok hAccept'
    obtain rfl : signatures' = signatures := by
      rw [hDecode'] at hSame
      simpa using hSame.symm
    have hSigned' : List.Forall₂ (SignedBy p (call'.digest p verifier' root'))
        verifier'.checkedSigners signatures' := by
      rw [Verifier.checkedSigners, ← hLength']
      exact (checkSignatures_eq_ok.mp hLoop').2
    refine hUnique (digest_eq_of_common_signer hIdeal ?_ hSigned hSigned' hCommon)
    exact fun signer hSigner => hWell.nonzero signer (hMem signer hSigner)

theorem verify_attests_toy :
    verify Toy.primitives (Toy.verifier 21 1) (Toy.call 21) = .ok 99 ∧
      ∃ signatures, Toy.primitives.decodeProof Toy.proof = some (99, signatures) ∧
        List.Forall₂ (SignedBy Toy.primitives (Toy.digest 21)) [1] signatures := by
  have hAccept : verify Toy.primitives (Toy.verifier 21 1) (Toy.call 21) = .ok 99 := by
    decide +kernel
  obtain ⟨signatures, hDecode, -, -, -, hSigned, -⟩ :=
    verify_attests Toy.ecrecover_ideal Toy.verifier_deployed_first Toy.hashes_injective hAccept
  exact ⟨hAccept, signatures, hDecode, hSigned⟩

/-- Two deployed verifiers without a common signer accept the same proof, and so the same
signatures, in different contexts. -/
theorem signatures_accepted_twice :
    IdealRecover Toy.primitives.ecrecover ∧
      Set.InjOn Toy.primitives.keccak
        {input | input ∈ digestInputs Toy.primitives.keccak 1
            ((Toy.call 21).context (Toy.verifier 21 1)) 99 ∨
          input ∈ digestInputs Toy.primitives.keccak 1
            ((Toy.call 20).context (Toy.verifier 20 2)) 99} ∧
      Deployed (Toy.verifier 21 1) ∧ Deployed (Toy.verifier 20 2) ∧
      (Toy.call 20).proof = (Toy.call 21).proof ∧
      Toy.primitives.decodeProof (Toy.call 21).proof = some (99, [Toy.signature]) ∧
      verify Toy.primitives (Toy.verifier 21 1) (Toy.call 21) = .ok 99 ∧
      verify Toy.primitives (Toy.verifier 20 2) (Toy.call 20) = .ok 99 ∧
      (Toy.call 21).context (Toy.verifier 21 1) ≠ (Toy.call 20).context (Toy.verifier 20 2) := by
  refine ⟨Toy.ecrecover_ideal, Toy.hashes_injective, Toy.verifier_deployed_first,
    Toy.verifier_deployed_second, rfl, Toy.decodeProof_proof, ?_, ?_, ?_⟩
  · decide +kernel
  · decide +kernel
  · decide

end TrustMap.Contracts.ExperimentalCostedDirectVerifier
