import TrustMap.Library.Framing
import TrustMap.Mapnode.Envelope

/-!
The wire format of the dependency evidence envelope is canonical: an envelope has one encoding, and
bytes that are accepted are the encoding of what is read from them.
-/

namespace TrustMap.Mapnode.Envelope

open Checks

/-! ## The fields -/

/-- The fields of the encoding, in their order. -/
def fields (envelope : Envelope) : List Bytes :=
  [magic, Words.bytes envelope.messageID, Words.bigEndian 2 envelope.protocolVersion.toNat,
    Words.bigEndian 2 envelope.originPeer.length, envelope.originPeer,
    Words.bigEndian 8 envelope.observedAt.toUInt64.toNat, Words.bytes envelope.recordingChainID,
    Words.bigEndian 20 envelope.gateway.toNat, Words.bytes envelope.blockNumber,
    Words.bytes envelope.blockHash, Words.bytes envelope.txHash,
    Words.bigEndian 4 envelope.txIndex.toNat, Words.bigEndian 4 envelope.logIndex.toNat,
    Words.bytes envelope.payloadDigest]

/-- The widths of the fields, for an origin of the given length. -/
def widths (originLength : ℕ) : List ℕ :=
  [4, 32, 2, 2, originLength, 8, 32, 20, 32, 32, 32, 4, 4, 32]

theorem flatten_fields (envelope : Envelope) :
    envelope.fields.flatten = magic ++ Words.bytes envelope.messageID ++ envelope.content := by
  simp [fields, content]

theorem flatten_fields_length (envelope : Envelope) :
    envelope.fields.flatten.length = 236 + envelope.originPeer.length := by
  simp [fields, magic]
  omega

/-! ## Reading what was written -/

section Read

variable {envelope : Envelope}

theorem field_flatten {i offset width number : ℕ}
    (hField : envelope.fields[i]? = some (Words.bigEndian width number))
    (hOffset : (envelope.fields.take i).flatten.length = offset) (hSmall : number < 256 ^ width) :
    field envelope.fields.flatten offset width = number :=
  Words.value_slice_flatten hField hOffset hSmall

theorem field_originLength (hOrigin : envelope.originPeer.length ≤ maxOriginBytes) :
    field envelope.fields.flatten 38 2 = envelope.originPeer.length := by
  have hSmall : envelope.originPeer.length ≤ 128 := hOrigin
  exact @field_flatten envelope 3 _ _ _ rfl (by simp [fields, magic]) (by omega)

/-- An envelope is read back from its encoding. -/
theorem decoded_flatten (hOrigin : envelope.originPeer.length ≤ maxOriginBytes) :
    decoded envelope.fields.flatten = envelope := by
  have hLength := field_originLength hOrigin
  have hVersion : field envelope.fields.flatten 36 2 = envelope.protocolVersion.toNat :=
    @field_flatten envelope 2 _ _ _ rfl (by simp [fields, magic]) envelope.protocolVersion.toNat_lt
  have hID : field envelope.fields.flatten 4 32 = envelope.messageID.toNat :=
    @field_flatten envelope 1 _ _ _ rfl (by simp [fields, magic]) envelope.messageID.isLt
  have hPeer : (envelope.fields.flatten.drop 40).take envelope.originPeer.length =
      envelope.originPeer :=
    @Words.slice_flatten envelope.fields 4 40 _ _ rfl (by simp [fields, magic]) rfl
  have hTime : field envelope.fields.flatten (40 + envelope.originPeer.length) 8 =
      envelope.observedAt.toUInt64.toNat :=
    @field_flatten envelope 5 _ _ _ rfl (by simp [fields, magic]; omega)
      envelope.observedAt.toUInt64.toNat_lt
  have hChain : field envelope.fields.flatten (40 + envelope.originPeer.length + 8) 32 =
      envelope.recordingChainID.toNat :=
    @field_flatten envelope 6 _ _ _ rfl (by simp [fields, magic]; omega)
      envelope.recordingChainID.isLt
  have hGateway : field envelope.fields.flatten (40 + envelope.originPeer.length + 40) 20 =
      envelope.gateway.toNat :=
    @field_flatten envelope 7 _ _ _ rfl (by simp [fields, magic]; omega) envelope.gateway.isLt
  have hNumber : field envelope.fields.flatten (40 + envelope.originPeer.length + 60) 32 =
      envelope.blockNumber.toNat :=
    @field_flatten envelope 8 _ _ _ rfl (by simp [fields, magic]; omega) envelope.blockNumber.isLt
  have hHash : field envelope.fields.flatten (40 + envelope.originPeer.length + 92) 32 =
      envelope.blockHash.toNat :=
    @field_flatten envelope 9 _ _ _ rfl (by simp [fields, magic]; omega) envelope.blockHash.isLt
  have hTx : field envelope.fields.flatten (40 + envelope.originPeer.length + 124) 32 =
      envelope.txHash.toNat :=
    @field_flatten envelope 10 _ _ _ rfl (by simp [fields, magic]; omega) envelope.txHash.isLt
  have hTxIndex : field envelope.fields.flatten (40 + envelope.originPeer.length + 156) 4 =
      envelope.txIndex.toNat :=
    @field_flatten envelope 11 _ _ _ rfl (by simp [fields, magic]; omega) envelope.txIndex.toNat_lt
  have hLogIndex : field envelope.fields.flatten (40 + envelope.originPeer.length + 160) 4 =
      envelope.logIndex.toNat :=
    @field_flatten envelope 12 _ _ _ rfl (by simp [fields, magic]; omega) envelope.logIndex.toNat_lt
  have hDigest : field envelope.fields.flatten (40 + envelope.originPeer.length + 164) 32 =
      envelope.payloadDigest.toNat :=
    @field_flatten envelope 13 _ _ _ rfl (by simp [fields, magic]; omega) envelope.payloadDigest.isLt
  simp only [decoded, hLength, hVersion, hID, hPeer, hTime, hChain, hGateway, hNumber, hHash, hTx,
    hTxIndex, hLogIndex, hDigest, BitVec.ofNat_toNat, BitVec.setWidth_eq, UInt16.ofNat_toNat,
    UInt32.ofNat_toNat, UInt64.ofNat_toNat, Int64.toInt64_toUInt64]

end Read

/-! ## Writing what was read -/

section Write

variable {encoded : Bytes}

theorem bigEndian_field {offset width : ℕ} (h : offset + width ≤ encoded.length) :
    Words.bigEndian width (field encoded offset width) = Words.slice encoded offset width :=
  Words.bigEndian_slice h

theorem field_lt {offset width : ℕ} (h : offset + width ≤ encoded.length) :
    field encoded offset width < 256 ^ width :=
  Words.value_slice_lt h

/-- A word that is read from a field is written as the field. -/
theorem bytes_field {offset : ℕ} (h : offset + 32 ≤ encoded.length) :
    Words.bytes (BitVec.ofNat 256 (field encoded offset 32)) = Words.slice encoded offset 32 := by
  have hSmall : field encoded offset 32 < 2 ^ 256 := field_lt h
  rw [Words.bytes, BitVec.toNat_ofNat, Nat.mod_eq_of_lt hSmall, bigEndian_field h]

/-- Bytes with the framing of an envelope are the encoding of what is read from them. -/
theorem flatten_fields_decoded (hMagic : encoded.take 4 = magic)
    (hLength : 40 + field encoded 38 2 + 196 = encoded.length) :
    (decoded encoded).fields.flatten = encoded := by
  have hOrigin : (decoded encoded).originPeer.length = field encoded 38 2 :=
    Words.slice_length (by omega)
  have hVersion : Words.bigEndian 2 (UInt16.ofNat (field encoded 36 2)).toNat =
      Words.slice encoded 36 2 := by
    have hSmall : field encoded 36 2 < 2 ^ 16 := field_lt (by omega)
    rw [UInt16.toNat_ofNat', Nat.mod_eq_of_lt hSmall, bigEndian_field (by omega)]
  have hTime : Words.bigEndian 8
      (UInt64.ofNat (field encoded (40 + field encoded 38 2) 8)).toInt64.toUInt64.toNat =
      Words.slice encoded (40 + field encoded 38 2) 8 := by
    have hSmall : field encoded (40 + field encoded 38 2) 8 < 2 ^ 64 := field_lt (by omega)
    rw [UInt64.toUInt64_toInt64, UInt64.toNat_ofNat', Nat.mod_eq_of_lt hSmall,
      bigEndian_field (by omega)]
  have hGateway : Words.bigEndian 20
      (BitVec.ofNat 160 (field encoded (40 + field encoded 38 2 + 40) 20)).toNat =
      Words.slice encoded (40 + field encoded 38 2 + 40) 20 := by
    have hSmall : field encoded (40 + field encoded 38 2 + 40) 20 < 2 ^ 160 := field_lt (by omega)
    rw [BitVec.toNat_ofNat, Nat.mod_eq_of_lt hSmall, bigEndian_field (by omega)]
  have hIndex : ∀ offset, offset + 4 ≤ encoded.length →
      Words.bigEndian 4 (UInt32.ofNat (field encoded offset 4)).toNat = Words.slice encoded offset 4 := by
    intro offset hBound
    have hSmall : field encoded offset 4 < 2 ^ 32 := field_lt hBound
    rw [UInt32.toNat_ofNat', Nat.mod_eq_of_lt hSmall, bigEndian_field hBound]
  have hCut : (decoded encoded).fields = Words.cut encoded 0 (widths (field encoded 38 2)) := by
    rw [fields, hOrigin]
    simp only [decoded]
    rw [bytes_field (by omega), hVersion, bigEndian_field (by omega), hTime, bytes_field (by omega),
      hGateway, bytes_field (by omega), bytes_field (by omega), bytes_field (by omega),
      hIndex _ (by omega), hIndex _ (by omega), bytes_field (by omega), ← hMagic]
    simp [Words.cut, widths, Words.slice, Nat.add_assoc]
  have hSum : 0 + (widths (field encoded 38 2)).sum = encoded.length := by
    simp [widths]
    omega
  rw [hCut, Words.flatten_cut hSum, List.drop_zero]

end Write

/-! ## The two directions -/

section Canonical

variable {p : Primitives} {envelope : Envelope} {encoded : Bytes}

theorem validateContent_origin (h : envelope.validateContent p = .ok ()) :
    envelope.originPeer ≠ [] ∧ envelope.originPeer.length ≤ maxOriginBytes ∧
      p.validPeer envelope.originPeer = true := by
  rw [validateContent, check_bind_eq_ok, check_bind_eq_ok, check_bind_eq_ok, require_eq_ok,
    require_eq_ok, require_eq_ok] at h
  exact ⟨h.2.1.1, h.2.1.2, h.2.2.1⟩

theorem marshalBinary_eq_ok :
    envelope.marshalBinary p = .ok encoded ↔ envelope.validateContent p = .ok () ∧
      envelope.messageID = p.sha256 (messageDomain ++ envelope.content) ∧
      envelope.fields.flatten.length ≤ maxSize ∧ envelope.fields.flatten = encoded := by
  rw [marshalBinary, bind_eq_ok]
  simp only [computeMessageID, check_bind_eq_ok, pure_eq_ok, require_eq_ok, flatten_fields]
  constructor
  · rintro ⟨_, ⟨hValid, rfl⟩, hID, hSize, hEncoded⟩
    exact ⟨hValid, hID, hSize, hEncoded⟩
  · rintro ⟨hValid, hID, hSize, hEncoded⟩
    exact ⟨_, ⟨hValid, rfl⟩, hID, hSize, hEncoded⟩

theorem parse_eq_ok :
    parse p encoded = .ok envelope ↔ (encoded.length ≤ maxSize ∧ 236 ≤ encoded.length) ∧
      encoded.take 4 = magic ∧
      (field encoded 38 2 ≠ 0 ∧ field encoded 38 2 ≤ maxOriginBytes ∧
        40 + field encoded 38 2 + 196 = encoded.length) ∧
      p.validPeer ((encoded.drop 40).take (field encoded 38 2)) = true ∧
      (decoded encoded).validateContent p = .ok () ∧
      p.sha256 (messageDomain ++ (decoded encoded).content) = (decoded encoded).messageID ∧
      decoded encoded = envelope := by
  have hID : ∀ id, (decoded encoded).computeMessageID p = .ok id ↔
      (decoded encoded).validateContent p = .ok () ∧
        p.sha256 (messageDomain ++ (decoded encoded).content) = id := by
    intro id
    rw [computeMessageID, check_bind_eq_ok, pure_eq_ok]
  rw [parse, check_bind_eq_ok, check_bind_eq_ok, check_bind_eq_ok, check_bind_eq_ok, bind_eq_ok,
    require_eq_ok, require_eq_ok, require_eq_ok, require_eq_ok]
  constructor
  · rintro ⟨hSize, hMagic, hFraming, hPeer, id, hCompute, hRest⟩
    obtain ⟨hValid, rfl⟩ := (hID id).mp hCompute
    obtain ⟨hSame, hEnvelope⟩ := check_bind_eq_ok.mp hRest
    exact ⟨hSize, hMagic, hFraming, hPeer, hValid, require_eq_ok.mp hSame, pure_eq_ok.mp hEnvelope⟩
  · rintro ⟨hSize, hMagic, hFraming, hPeer, hValid, hSame, hEnvelope⟩
    exact ⟨hSize, hMagic, hFraming, hPeer, _, (hID _).mpr ⟨hValid, rfl⟩,
      check_bind_eq_ok.mpr ⟨require_eq_ok.mpr hSame, pure_eq_ok.mpr hEnvelope⟩⟩

/-- What is written is read back. -/
theorem parse_of_marshalBinary (h : envelope.marshalBinary p = .ok encoded) :
    parse p encoded = .ok envelope := by
  obtain ⟨hValid, hID, hSize, rfl⟩ := marshalBinary_eq_ok.mp h
  obtain ⟨hNonempty, hOrigin, hPeer⟩ := validateContent_origin hValid
  have hLength := flatten_fields_length envelope
  have hField := field_originLength hOrigin
  have hDecoded := decoded_flatten hOrigin
  have hPositive : 0 < envelope.originPeer.length := List.length_pos_iff.mpr hNonempty
  refine parse_eq_ok.mpr ⟨⟨hSize, by omega⟩, ?_, ⟨by omega, by omega, by omega⟩, ?_, ?_, ?_, hDecoded⟩
  · rw [flatten_fields, List.append_assoc]
    exact List.take_left' rfl
  · have hRead : (decoded envelope.fields.flatten).originPeer = envelope.originPeer := by rw [hDecoded]
    exact (congrArg p.validPeer hRead).trans hPeer
  · rw [hDecoded]
    exact hValid
  · rw [hDecoded]
    exact hID.symm

/-- What is read is written back. -/
theorem marshalBinary_of_parse (h : parse p encoded = .ok envelope) :
    envelope.marshalBinary p = .ok encoded := by
  obtain ⟨hSize, hMagic, hFraming, _, hValid, hID, rfl⟩ := parse_eq_ok.mp h
  have hFields := flatten_fields_decoded hMagic hFraming.2.2
  exact marshalBinary_eq_ok.mpr ⟨hValid, hID.symm, by rw [hFields]; exact hSize.1, hFields⟩

end Canonical

namespace WireToy

/-- A hash that is 7 everywhere, and one peer. -/
def primitives : Primitives := ⟨fun _ => 0, fun _ => 7, fun peer => peer == [1, 2]⟩

/-- An envelope of the peer. -/
def envelope : Envelope := ⟨1, 7, [1, 2], 5, 1, 2, 3, 4, 5, 6, 7, 8⟩

end WireToy

/-- An envelope that is written is read back equal, bytes that are read are what is written for the
envelope they give, and bytes with the same message identifier are the same unless their contents
collide. -/
theorem wire_format_canonical (p : Primitives) :
    (∀ (envelope : Envelope) (encoded : Bytes), envelope.marshalBinary p = .ok encoded →
      parse p encoded = .ok envelope) ∧
    (∀ (encoded : Bytes) (envelope : Envelope), parse p encoded = .ok envelope →
      envelope.marshalBinary p = .ok encoded) ∧
    ∀ (first second : Bytes) (a b : Envelope), parse p first = .ok a → parse p second = .ok b →
      Set.InjOn p.sha256 {messageDomain ++ a.content, messageDomain ++ b.content} →
      a.messageID = b.messageID → first = second := by
  refine ⟨fun _ _ h => parse_of_marshalBinary h, fun _ _ h => marshalBinary_of_parse h, ?_⟩
  intro first second a b hFirst hSecond hInjective hSame
  obtain ⟨_, hID, _, rfl⟩ := marshalBinary_eq_ok.mp (marshalBinary_of_parse hFirst)
  obtain ⟨_, hID', _, rfl⟩ := marshalBinary_eq_ok.mp (marshalBinary_of_parse hSecond)
  have hHash : p.sha256 (messageDomain ++ a.content) = p.sha256 (messageDomain ++ b.content) := by
    rw [← hID, ← hID', hSame]
  have hContent : a.content = b.content :=
    List.append_cancel_left (hInjective (by simp) (by simp) hHash)
  rw [flatten_fields, flatten_fields, hSame, hContent]

/-- The toy envelope goes over the wire and back. -/
theorem wire_format_canonical_toy :
    ∃ encoded, WireToy.envelope.marshalBinary WireToy.primitives = .ok encoded ∧
      parse WireToy.primitives encoded = .ok WireToy.envelope ∧
      ∀ second, parse WireToy.primitives second = .ok WireToy.envelope → encoded = second := by
  obtain ⟨hRead, hWrite, hUnique⟩ := wire_format_canonical WireToy.primitives
  have hMarshal : WireToy.envelope.marshalBinary WireToy.primitives =
      .ok WireToy.envelope.fields.flatten :=
    marshalBinary_eq_ok.mpr (by decide +kernel)
  have hParse := hRead _ _ hMarshal
  refine ⟨_, hMarshal, hParse, fun second hSecond => ?_⟩
  exact hUnique _ _ _ _ hParse hSecond (by simp) rfl

end TrustMap.Mapnode.Envelope
