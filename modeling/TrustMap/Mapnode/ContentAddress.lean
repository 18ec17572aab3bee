import TrustMap.Library.Readable
import TrustMap.Mapnode.Execution

/-!
Content-derived identifiers are unambiguous. The bytes hashed for a plan, a path proof or a
transaction submission can be read back field by field, and they start with a domain of another
length for each kind; so identifiers only coincide for the same content, unless the hash collides.
The texts are byte strings here, as the strings of Go are, and the lists are as long as a slice of Go
can be.
-/

namespace TrustMap.Mapnode

/-! ## Fields -/

theorem ofUInt64_inj {a b : UInt64} (h : Words.ofUInt64 a = Words.ofUInt64 b) : a = b := by
  have hNat := congrArg BitVec.toNat h
  have ha := a.toNat_lt
  have hb := b.toNat_lt
  simp only [Words.ofUInt64, BitVec.toNat_ofNat] at hNat
  rw [Nat.mod_eq_of_lt (by omega), Nat.mod_eq_of_lt (by omega)] at hNat
  exact UInt64.toNat_inj.mp hNat

theorem lengthWord_injOn : Set.InjOn lengthWord {length | length < 2 ^ 63} := by
  intro a (ha : a < 2 ^ 63) b (hb : b < 2 ^ 63) h
  have hNat := congrArg UInt64.toNat (ofUInt64_inj h)
  have hSize : UInt64.size = 2 ^ 64 := rfl
  rwa [UInt64.toNat_ofNat_of_lt' (by omega), UInt64.toNat_ofNat_of_lt' (by omega)] at hNat

theorem readable_lengthWord :
    ReadableOn (fun length => [lengthWord length]) {length | length < 2 ^ 63} :=
  ReadableOn.letter.comp (Set.mapsTo_univ _ _) lengthWord_injOn

theorem readable_ofUInt32 : ReadableOn (fun number => [Words.ofUInt32 number]) Set.univ :=
  ReadableOn.letter.comp (Set.mapsTo_univ _ _) Words.ofUInt32_injective.injOn

/-- A list of words behind its length. -/
theorem readable_words :
    ReadableOn (fun words : List Bytes32 => lengthWord words.length :: words)
      {words | words.length < 2 ^ 63} := by
  intro a ha b hb rest rest' h
  rw [List.cons_append, List.cons_append] at h
  obtain ⟨hLength, h⟩ := readable_lengthWord ha hb h
  exact List.append_inj h hLength

theorem readable_bytes : ReadableOn Words.bytes Set.univ :=
  .of_length (fun word _ => Words.bytes_length word) Words.bytes_injective.injOn

theorem readable_bigEndian (width : ℕ) :
    ReadableOn (Words.bigEndian width) {number | number < 256 ^ width} :=
  .of_length (fun number _ => Words.bigEndian_length width number) (Words.bigEndian_injOn width)

theorem readable_uint64 : ReadableOn (fun number : UInt64 => Words.bigEndian 8 number.toNat)
    Set.univ :=
  (readable_bigEndian 8).comp (fun number _ => number.toNat_lt)
    fun _ _ _ _ h => UInt64.toNat_inj.mp h

theorem readable_address : ReadableOn (fun address : Address => Words.bigEndian 20 address.toNat)
    Set.univ :=
  (readable_bigEndian 20).comp (fun address _ => address.isLt)
    fun _ _ _ _ h => BitVec.eq_of_toNat_eq h

/-- A byte string behind its length in four bytes. -/
theorem readable_lengthPrefixed : ReadableOn lengthPrefixed {value | value.length < 2 ^ 32} := by
  intro a ha b hb rest rest' h
  rw [lengthPrefixed, lengthPrefixed, List.append_assoc, List.append_assoc] at h
  obtain ⟨hLength, h⟩ := readable_bigEndian 4 ha hb h
  exact List.append_inj h hLength

theorem readable_encode {words words' : List Bytes32} {rest rest' : Bytes}
    (h : Words.encode words ++ rest = Words.encode words' ++ rest')
    (hLength : words.length = words'.length) : words = words' ∧ rest = rest' :=
  readable_bytes.flatMap (fun _ _ => trivial) (fun _ _ => trivial) hLength h

theorem costWord_injective : Function.Injective Plan.costWord := by
  intro a b h
  have hWide : ∀ value : UInt64,
      (BitVec.ofNat 256 (2 ^ 248 + value.toNat)).toNat = 2 ^ 248 + value.toNat := by
    intro value
    have hValue := value.toNat_lt
    rw [BitVec.toNat_ofNat]
    omega
  have hZero : (0 : Bytes32).toNat = 0 := rfl
  have hNat := congrArg BitVec.toNat h
  cases a with
  | none =>
      cases b with
      | none => rfl
      | some b =>
          rw [Plan.costWord, Plan.costWord, hWide, hZero] at hNat
          omega
  | some a =>
      cases b with
      | none =>
          rw [Plan.costWord, Plan.costWord, hWide, hZero] at hNat
          omega
      | some b =>
          simp only [Plan.costWord, hWide] at hNat
          exact congrArg some (UInt64.toNat_inj.mp (by omega))

/-- The first bytes of the three kinds differ: they are the lengths of their domains. -/
theorem domain_ne {first second : Bytes} (hFirst : first.length < 2 ^ 32)
    (hSecond : second.length < 2 ^ 32) (hNe : first.length ≠ second.length) {rest rest' : Bytes} :
    lengthPrefixed first ++ rest ≠ lengthPrefixed second ++ rest' := by
  intro h
  obtain ⟨hSame, -⟩ := readable_lengthPrefixed hFirst hSecond h
  exact hNe (congrArg List.length hSame)

/-! ## Plans -/

namespace PlanContent

/-- The strings are shorter than 2 ^ 32 bytes, and the length of a slice is an `int`. -/
structure Sized (content : PlanContent) : Prop where
  profileID : content.profileID.length < 2 ^ 32
  type : content.type.length < 2 ^ 32
  fallbackReason : content.fallbackReason.length < 2 ^ 32
  hops : content.hops.length < 2 ^ 63

theorem encoded_injOn : Set.InjOn encoded {content | content.Sized} := by
  intro a ha b hb h
  simp only [encoded, List.append_assoc] at h
  obtain ⟨-, h⟩ := readable_lengthPrefixed (by decide) (by decide) h
  obtain ⟨hIDs, h⟩ := readable_encode h rfl
  obtain ⟨hProfile, h⟩ := readable_lengthPrefixed ha.profileID hb.profileID h
  obtain ⟨hFingerprint, h⟩ := readable_bytes trivial trivial h
  obtain ⟨hType, h⟩ := readable_lengthPrefixed ha.type hb.type h
  obtain ⟨hEnds, h⟩ := readable_encode h rfl
  simp only [List.cons.injEq, and_true] at hIDs hEnds
  have hLength := lengthWord_injOn ha.hops hb.hops hEnds.2.2
  obtain ⟨hHopsEq, h⟩ := readable_encode h hLength
  obtain ⟨hCosts, h⟩ := readable_encode h rfl
  simp only [List.cons.injEq, and_true] at hCosts
  have hReason := readable_lengthPrefixed.injOn ha.fallbackReason hb.fallbackReason h
  cases a
  cases b
  simp only [PlanContent.mk.injEq]
  exact ⟨hIDs.1, ofUInt64_inj hIDs.2.1, hIDs.2.2, hProfile, hFingerprint, hType, hEnds.1, hEnds.2.1,
    hHopsEq, ofUInt64_inj hCosts.1, costWord_injective hCosts.2.1, costWord_injective hCosts.2.2,
    hReason⟩

end PlanContent

/-! ## Path proofs -/

namespace ProofContent

/-- The lengths of the slices are `int`s. -/
structure Sized (content : ProofContent) : Prop where
  blockHashes : content.blockHashes.length < 2 ^ 63
  witnesses : content.witnesses.length < 2 ^ 63
  siblings : ∀ witness ∈ content.witnesses, witness.2.length < 2 ^ 63
  hops : content.hops.length < 2 ^ 63

theorem readable_witnessWords :
    ReadableOn witnessWords {witness | witness.2.length < 2 ^ 63} := by
  rintro ⟨index, siblings⟩ ha ⟨index', siblings'⟩ hb rest rest' h
  obtain ⟨rfl, h⟩ := readable_ofUInt32 trivial trivial h
  obtain ⟨rfl, hRest⟩ := readable_words ha hb h
  exact ⟨rfl, hRest⟩

theorem readable_hopWords : ReadableOn hopWords Set.univ := by
  have hLength : ∀ hop ∈ Set.univ, (hopWords hop).length = 5 := fun _ _ => rfl
  refine .of_length hLength ?_
  rintro ⟨index, edgeID, toNodeID, blockHash, witnessID⟩ - ⟨index', _, _, _, _⟩ - h
  simp only [hopWords, List.cons.injEq, and_true] at h
  obtain ⟨hIndex, rfl, rfl, rfl, rfl⟩ := h
  obtain rfl : index = index' := congrArg Int64.ofUInt64 (ofUInt64_inj hIndex)
  rfl

theorem words_injOn : Set.InjOn words {content | content.Sized} := by
  intro a ha b hb h
  simp only [words, List.append_assoc, List.cons_append, List.nil_append, List.cons.injEq] at h
  obtain ⟨hRequest, hPlan, hSnapshot, hBase, hTail⟩ := h
  obtain ⟨hHashes, hTail⟩ := readable_words ha.blockHashes hb.blockHashes
    (by simpa using hTail)
  obtain ⟨hWitnesses, hTail⟩ := readable_witnessWords.counted readable_lengthWord
    ⟨ha.witnesses, ha.siblings⟩ ⟨hb.witnesses, hb.siblings⟩ (by simpa using hTail)
  have hHops := (readable_hopWords.counted readable_lengthWord).injOn
    ⟨ha.hops, fun _ _ => trivial⟩ ⟨hb.hops, fun _ _ => trivial⟩
    (by simpa using hTail)
  cases a
  cases b
  simp only [ProofContent.mk.injEq]
  exact ⟨hRequest, hPlan, hSnapshot, hBase, hHashes, hWitnesses, hHops⟩

theorem encoded_injOn : Set.InjOn encoded {content | content.Sized} := by
  intro a ha b hb h
  obtain ⟨-, h⟩ := readable_lengthPrefixed (by decide) (by decide) h
  exact words_injOn ha hb (Words.encode_injective h)

end ProofContent

/-! ## Submissions -/

namespace TransactionSubmission

theorem readable_bigWord : ReadableOn bigWord {number | number < 2 ^ 256} := by
  intro a (ha : a < 2 ^ 256) b (hb : b < 2 ^ 256) rest rest' h
  rw [bigWord, bigWord, if_pos ha, if_pos hb] at h
  exact readable_bigEndian 32 ha hb h

/-- The field for the proof. -/
theorem readable_proofID :
    ReadableOn (fun proofID : Option Bytes32 =>
      match proofID with
      | none => [(0 : UInt8)]
      | some id => 1 :: Words.bytes id) Set.univ := by
  intro a _ b _ rest rest' h
  apply readable_bytes.option (show (0 : UInt8) ≠ 1 by decide) (fun _ _ => trivial)
    (fun _ _ => trivial)
  cases a <;> cases b <;> exact h

theorem planType_text_injective {a b : PlanType} (h : textBytes a.text = textBytes b.text) :
    a = b := by
  cases a <;> cases b
  all_goals first | rfl | exact absurd h (by decide)

/-- The numbers and the byte string are in the range of their fields. -/
structure Sized (submission : TransactionSubmission) : Prop where
  rawSignedTx : submission.rawSignedTx.length < 2 ^ 32
  maxFeePerGas : submission.maxFeePerGas < 2 ^ 256
  maxPriorityFeePerGas : submission.maxPriorityFeePerGas < 2 ^ 256

theorem text_length (type : PlanType) : (textBytes type.text).length < 2 ^ 32 := by
  cases type <;> decide

/-- The bytes of a submission determine all but its identifier, its state and its reason. -/
theorem eq_of_encoded {a b : TransactionSubmission} (ha : a.Sized) (hb : b.Sized)
    (h : a.encoded = b.encoded) :
    { a with id := b.id, state := b.state, reason := b.reason } = b := by
  simp only [encoded, List.append_assoc] at h
  obtain ⟨-, h⟩ := readable_lengthPrefixed (by decide) (by decide) h
  obtain ⟨hRequest, h⟩ := readable_bytes trivial trivial h
  obtain ⟨hAttempt, h⟩ := readable_uint64 trivial trivial h
  obtain ⟨hPlan, h⟩ := readable_bytes trivial trivial h
  obtain ⟨hType, h⟩ := readable_lengthPrefixed (text_length _) (text_length _) h
  obtain ⟨hSnapshot, h⟩ := readable_bytes trivial trivial h
  obtain ⟨hProof, h⟩ := readable_proofID trivial trivial h
  obtain ⟨hHome, h⟩ := readable_bytes trivial trivial h
  obtain ⟨hGateway, h⟩ := readable_address trivial trivial h
  obtain ⟨hSender, h⟩ := readable_address trivial trivial h
  obtain ⟨hNonce, h⟩ := readable_uint64 trivial trivial h
  obtain ⟨hCalldata, h⟩ := readable_bytes trivial trivial h
  obtain ⟨hRaw, h⟩ := readable_lengthPrefixed ha.rawSignedTx hb.rawSignedTx h
  obtain ⟨hTx, h⟩ := readable_bytes trivial trivial h
  obtain ⟨hFee, h⟩ := readable_bigWord ha.maxFeePerGas hb.maxFeePerGas h
  obtain ⟨hTip, h⟩ := readable_bigWord ha.maxPriorityFeePerGas hb.maxPriorityFeePerGas h
  have hGas := readable_uint64.injOn trivial trivial h
  cases a
  cases b
  simp only [TransactionSubmission.mk.injEq, true_and, and_true]
  exact ⟨hRequest, hAttempt, hPlan, planType_text_injective hType, hSnapshot, hProof, hHome,
    hGateway, hSender, hNonce, hCalldata, hRaw, hTx, hFee, hTip, hGas⟩

/-- What `ValidatePrepared` says about the fields that are not hashed and the ranges of the others. -/
theorem validatePrepared_ok {keccak : Keccak} {submission : TransactionSubmission}
    (h : submission.validatePrepared keccak = .ok ()) :
    submission.Sized ∧ submission.state = .prepared ∧ submission.reason = "" ∧
      submission.id = submission.computeID keccak := by
  simp only [validatePrepared, Checks.check_bind_eq_ok, Checks.require_eq_ok] at h
  obtain ⟨⟨-, -, -, -, -, -, -, -, -, hRaw, -, -, hTip, hFee, hState, hReason⟩, -, hID, -⟩ := h
  exact ⟨⟨by omega, hFee, hTip.trans_lt hFee⟩, hState, hReason, hID⟩

end TransactionSubmission

/-! ## Identifiers -/

namespace AddressToy

/-- A hash that tells inputs of different lengths apart. -/
def keccak : Keccak :=
  fun input => BitVec.ofNat 256 input.length

/-- A direct plan. -/
def plan : PlanContent :=
  ⟨1, 0, 2, textBytes "profile", 3, textBytes "direct", 4, 5, [], 0, none, some 7, textBytes "no_path"⟩

/-- A proof with one hop. -/
def proof : ProofContent :=
  ⟨1, 2, 3, 4, [5], [(0, [6])], [⟨0, 7, 8, 9, 10⟩]⟩

/-- A prepared transaction. -/
def submission (rawSignedTx : Bytes) : TransactionSubmission :=
  let submission : TransactionSubmission := ⟨0, 1, 0, 2, .direct, 3, none, 4, 5, 6, 0, 7, rawSignedTx,
    keccak rawSignedTx, 9, 1, 21000, .prepared, ""⟩
  { submission with id := submission.computeID keccak }

/-- Another plan, another proof and another transaction. -/
def plan' : PlanContent := { plan with profileID := [] }

def proof' : ProofContent := { proof with blockHashes := [] }

/-- What is hashed. -/
def inputs : List Bytes :=
  [plan.encoded, plan'.encoded, proof.encoded, proof'.encoded, (submission [1]).encoded,
    (submission [1, 2]).encoded]

theorem keccak_injOn : Set.InjOn keccak {input | input ∈ inputs} := by
  have hNodup : (inputs.map keccak).Nodup := by decide +kernel
  intro a ha b hb hSame
  exact List.inj_on_of_nodup_map hNodup ha hb hSame

end AddressToy

/-- Where the hash has no collision among its inputs, plans and path proofs with the same identifier
have the same content, prepared submissions with the same identifier are the same, and no identifier
is one of two kinds. -/
theorem contentAddresses_unambiguous {keccak : Keccak} {inputs : Set Bytes}
    (hKeccak : Set.InjOn keccak inputs) :
    (∀ plan plan' : PlanContent, plan.Sized → plan'.Sized → plan.encoded ∈ inputs →
        plan'.encoded ∈ inputs → plan.computeID keccak = plan'.computeID keccak → plan = plan') ∧
      (∀ proof proof' : ProofContent, proof.Sized → proof'.Sized → proof.encoded ∈ inputs →
        proof'.encoded ∈ inputs → proof.computeID keccak = proof'.computeID keccak →
          proof = proof') ∧
      (∀ submission submission' : TransactionSubmission,
        submission.validatePrepared keccak = .ok () →
        submission'.validatePrepared keccak = .ok () → submission.encoded ∈ inputs →
        submission'.encoded ∈ inputs → submission.computeID keccak = submission'.computeID keccak →
          submission = submission') ∧
      (∀ (plan : PlanContent) (proof : ProofContent), plan.encoded ∈ inputs →
        proof.encoded ∈ inputs → plan.computeID keccak ≠ proof.computeID keccak) ∧
      (∀ (plan : PlanContent) (submission : TransactionSubmission), plan.encoded ∈ inputs →
        submission.encoded ∈ inputs → plan.computeID keccak ≠ submission.computeID keccak) ∧
      ∀ (proof : ProofContent) (submission : TransactionSubmission), proof.encoded ∈ inputs →
        submission.encoded ∈ inputs → proof.computeID keccak ≠ submission.computeID keccak := by
  refine ⟨?_, ?_, ?_, ?_, ?_, ?_⟩
  · intro plan plan' hSized hSized' hMem hMem' hID
    exact PlanContent.encoded_injOn hSized hSized' (hKeccak hMem hMem' hID)
  · intro proof proof' hSized hSized' hMem hMem' hID
    exact ProofContent.encoded_injOn hSized hSized' (hKeccak hMem hMem' hID)
  · intro submission submission' hValid hValid' hMem hMem' hID
    obtain ⟨hSized, hState, hReason, hOwn⟩ := TransactionSubmission.validatePrepared_ok hValid
    obtain ⟨hSized', hState', hReason', hOwn'⟩ := TransactionSubmission.validatePrepared_ok hValid'
    have hRest := TransactionSubmission.eq_of_encoded hSized hSized' (hKeccak hMem hMem' hID)
    have hSame : submission.id = submission'.id := hOwn.trans (hID.trans hOwn'.symm)
    rw [← hRest, ← hSame, hState', hReason', ← hState, ← hReason]
  · intro plan proof hMem hMem' hID
    have hSame := hKeccak hMem hMem' hID
    simp only [PlanContent.encoded, List.append_assoc] at hSame
    exact domain_ne (by decide) (by decide) (by decide) hSame
  · intro plan submission hMem hMem' hID
    have hSame := hKeccak hMem hMem' hID
    simp only [PlanContent.encoded, TransactionSubmission.encoded, List.append_assoc] at hSame
    exact domain_ne (by decide) (by decide) (by decide) hSame
  · intro proof submission hMem hMem' hID
    have hSame := hKeccak hMem hMem' hID
    simp only [TransactionSubmission.encoded, List.append_assoc] at hSame
    exact domain_ne (by decide) (by decide) (by decide) hSame

open AddressToy in
theorem contentAddresses_unambiguous_toy :
    plan.computeID keccak ≠ plan'.computeID keccak ∧
      proof.computeID keccak ≠ proof'.computeID keccak ∧
      (submission [1]).computeID keccak ≠ (submission [1, 2]).computeID keccak ∧
      plan.computeID keccak ≠ proof.computeID keccak ∧
      plan.computeID keccak ≠ (submission [1]).computeID keccak ∧
      proof.computeID keccak ≠ (submission [1]).computeID keccak := by
  obtain ⟨hPlans, hProofs, hSubmissions, hPlanProof, hPlanTx, hProofTx⟩ :=
    contentAddresses_unambiguous keccak_injOn
  have hPlan := List.mem_cons_self (a := plan.encoded) (l := inputs.tail)
  have hProof : proof.encoded ∈ inputs := by simp [inputs]
  have hTx : (submission [1]).encoded ∈ inputs := by simp [inputs]
  refine ⟨fun h => ?_, fun h => ?_, fun h => ?_, hPlanProof _ _ hPlan hProof,
    hPlanTx _ _ hPlan hTx, hProofTx _ _ hProof hTx⟩
  · have hSame := hPlans _ _ ⟨by decide, by decide, by decide, by decide⟩
      ⟨by decide, by decide, by decide, by decide⟩ hPlan (by simp [inputs]) h
    exact absurd hSame (by decide)
  · have hSame := hProofs _ _ ⟨by decide, by decide, by decide, by decide⟩
      ⟨by decide, by decide, by decide, by decide⟩ hProof (by simp [inputs]) h
    exact absurd hSame (by decide)
  · have hSame := hSubmissions _ _ (by decide +kernel) (by decide +kernel) hTx
      (by simp [inputs]) h
    exact absurd (congrArg TransactionSubmission.rawSignedTx hSame) (by decide)

end TrustMap.Mapnode
