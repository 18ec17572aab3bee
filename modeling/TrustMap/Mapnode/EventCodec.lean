import TrustMap.Contracts.EmittedEvents
import TrustMap.Library.Framing
import TrustMap.Mapnode.ChainAbi

/-!
The parsers of Gateway events against the ABI encoding. A parser accepts exactly the encodings of
events with checked values, so that every event the Gateway emits is read back as it was and no two
logs are read as one event.
-/

namespace TrustMap.Mapnode.ChainAbi

open Checks Contracts

/-! ## The event of a parsed record -/

def VerificationRequested.event (v : VerificationRequested) : GatewayEvent :=
  .verificationRequested v.requestID v.requester v.sourceChainID v.sourceHeight v.sourceBlockHash
    v.requesterNonce

def TrustRootUpdated.event (v : TrustRootUpdated) : GatewayEvent :=
  .trustRootUpdated v.requestID v.leafIndex v.leaf v.oldTrustRoot v.newTrustRoot v.isAnchor

def DependencyRecorded.event (v : DependencyRecorded) : GatewayEvent :=
  .dependencyRecorded v.dependencyKey v.requestID v.sourceChainID v.sourceHeight v.sourceBlockHash
    v.sourceTrustRoot v.leafIndex

def RequestResolved.event (v : RequestResolved) : GatewayEvent :=
  .requestResolved v.requestID v.requester v.dependencyKey v.newDependency v.homeTrustRoot

def VerificationSucceeded.event (v : VerificationSucceeded) : GatewayEvent :=
  match v.hopCount with
  | none =>
      .directVerificationSucceeded v.requestID v.sourceChainID v.sourceHeight v.sourceBlockHash
        v.sourceTrustRoot v.dependencyKey
  | some hopCount =>
      .pathVerificationSucceeded v.requestID v.sourceChainID v.sourceHeight v.sourceBlockHash
        v.sourceTrustRoot hopCount.toNat v.dependencyKey

/-- The parser of the log's event returns these values. -/
inductive Decoded (log : Log) : GatewayEvent → Prop
  | verificationRequested {v : VerificationRequested} (ok : parseVerificationRequested log = .ok v) :
      Decoded log v.event
  | trustRootUpdated {v : TrustRootUpdated} (ok : parseTrustRootUpdated log = .ok v) :
      Decoded log v.event
  | dependencyRecorded {v : DependencyRecorded} (ok : parseDependencyRecorded log = .ok v) :
      Decoded log v.event
  | requestResolved {v : RequestResolved} (ok : parseRequestResolved log = .ok v) :
      Decoded log v.event
  | verificationSucceeded {v : VerificationSucceeded} (ok : parseVerificationSucceeded log = .ok v) :
      Decoded log v.event

/-! ## Words and topics -/

/-- The loop of `wordUint32`: the first 28 bytes are zero and the last four are the number. -/
theorem wordUint32_loop (value : Bytes32) :
    wordUint32 value =
      if ((Words.bytes value).take 28).all (· == 0) then
        .ok (UInt32.ofNat (Words.value ((Words.bytes value).drop 28)))
      else .error .uint32Overflows := by
  have hLeading := Words.leading_bytes_all_zero_iff 28 4 rfl value
  by_cases hSmall : value.toNat < 2 ^ 32
  · rw [wordUint32, if_pos hSmall, if_pos (hLeading.mpr hSmall),
      Words.value_drop_bytes 28 4 rfl hSmall]
  · rw [wordUint32, if_neg hSmall, if_neg (fun hZero => hSmall (hLeading.mp hZero))]

/-- The loop of `topicAddress`: the first 12 bytes are zero and the others are the address. -/
theorem topicAddress_loop (value : Bytes32) :
    topicAddress value =
      if ((Words.bytes value).take 12).all (· == 0) then
        .ok (BitVec.ofNat 160 (Words.value ((Words.bytes value).drop 12)))
      else .error .addressNotCanonical := by
  have hLeading := Words.leading_bytes_all_zero_iff 12 20 rfl value
  by_cases hSmall : value.toNat < 2 ^ 160
  · rw [topicAddress, if_pos hSmall, if_pos (hLeading.mpr hSmall),
      Words.value_drop_bytes 12 20 rfl hSmall, BitVec.ofNat_toNat]
  · rw [topicAddress, if_neg hSmall, if_neg (fun hZero => hSmall (hLeading.mp hZero))]

variable {value : Bytes32}

@[simp] theorem wordUint32_eq_ok {number : UInt32} :
    wordUint32 value = .ok number ↔ value = Words.ofUInt32 number := by
  have hNumber := number.toNat_lt
  have hWord : (Words.ofUInt32 number).toNat = number.toNat := by
    rw [Words.ofUInt32, BitVec.toNat_ofNat, Nat.mod_eq_of_lt (by omega)]
  unfold wordUint32
  constructor
  · intro h
    split at h
    · rename_i hSmall
      rw [← Except.ok.inj h]
      refine BitVec.eq_of_toNat_eq ?_
      rw [Words.ofUInt32, UInt32.toNat_ofNat_of_lt' hSmall, BitVec.ofNat_toNat, BitVec.setWidth_eq]
    · cases h
  · rintro rfl
    rw [hWord, if_pos hNumber, UInt32.ofNat_toNat]

@[simp] theorem topicAddress_eq_ok {address : Address} :
    topicAddress value = .ok address ↔ value = address.setWidth 256 := by
  have hWide : (address.setWidth 256).toNat = address.toNat :=
    BitVec.toNat_setWidth_of_le (by decide)
  unfold topicAddress
  constructor
  · intro h
    split at h
    · rename_i hSmall
      rw [← Except.ok.inj h]
      refine BitVec.eq_of_toNat_eq ?_
      rw [BitVec.toNat_setWidth_of_le (by decide), BitVec.toNat_setWidth, Nat.mod_eq_of_lt hSmall]
    · cases h
  · rintro rfl
    rw [hWide, if_pos address.isLt, BitVec.setWidth_setWidth_of_le _ (by decide),
      BitVec.setWidth_eq]

@[simp] theorem wordBool_eq_ok {flag : Bool} :
    wordBool value = .ok flag ↔ value = boolWord flag := by
  have hFlag : boolWord flag = Words.ofUInt32 (if flag then 1 else 0) := by
    cases flag with
    | false => rfl
    | true => rfl
  unfold wordBool
  constructor
  · intro h
    split at h
    · rename_i number hNumber
      split at h
      · rename_i hSmall
        rw [wordUint32_eq_ok.mp hNumber, hFlag, ← Except.ok.inj h]
        have hCases : number = 0 ∨ number = 1 := by
          rw [← UInt32.toNat_inj, ← UInt32.toNat_inj]
          have hLe := UInt32.le_iff_toNat_le.mp hSmall
          simp only [UInt32.reduceToNat] at hLe ⊢
          omega
        rcases hCases with rfl | rfl
        · rfl
        · rfl
      · cases h
    · cases h
  · rintro rfl
    rw [hFlag, wordUint32_eq_ok.mpr rfl]
    cases flag with
    | false => rfl
    | true => rfl

@[simp] theorem newChainID_eq_ok {chainID : Bytes32} :
    newChainID value = .ok chainID ↔ chainID ≠ 0 ∧ value = chainID := by
  unfold newChainID
  split
  · rename_i hZero
    simp only [reduceCtorEq, false_iff, not_and]
    rintro hNe rfl
    exact hNe hZero
  · rename_i hNe
    rw [Except.ok.injEq]
    constructor
    · rintro rfl
      exact ⟨hNe, rfl⟩
    · exact And.right

theorem requireEvent_abiLog {topic : Bytes32} {indexed values : List Bytes32} {topics words : ℕ}
    (hTopics : (topic :: indexed).length = topics) (hWords : values.length = words) :
    requireEvent ⟨topic :: indexed, Words.encode values⟩ topic topics words = .ok () := by
  rw [requireEvent, require_eq_ok]
  refine ⟨hTopics, ?_, rfl⟩
  rw [Words.encode_length, hWords, Nat.mul_comm]

variable {log : Log}

theorem topics_eq {topic : Bytes32} {count : ℕ} (hLength : log.topics.length = count + 1)
    (hHead : log.topics.head? = some topic) :
    log.topics = topic :: (List.range count).map (fun i => topicAt log (i + 1)) := by
  refine List.ext_getElem? fun i => ?_
  cases i with
  | zero => rw [← List.head?_eq_getElem?, hHead, List.getElem?_cons_zero]
  | succ i =>
      rw [List.getElem?_cons_succ, List.getElem?_map]
      by_cases hBound : i < count
      · rw [List.getElem?_range hBound, Option.map_some, topicAt, List.getD_eq_getElem?_getD,
          List.getElem?_eq_getElem (by omega), Option.getD_some]
      · rw [List.getElem?_eq_none (by omega), List.getElem?_eq_none (by simpa using hBound),
          Option.map_none]

/-- A log of the right layout is made of its topics and of the words of its data. -/
theorem layout_of_requireEvent {topic : Bytes32} {count words : ℕ} {u : Unit}
    (h : requireEvent log topic (count + 1) words = .ok u) :
    log = ⟨topic :: (List.range count).map (fun i => topicAt log (i + 1)),
      Words.encode ((List.range words).map (Words.wordAt log.data))⟩ := by
  rw [requireEvent, require_eq_ok] at h
  obtain ⟨hTopics, hData, hHead⟩ := h
  rw [Words.encode_wordAt hData, ← topics_eq hTopics hHead]

/-! ## Parsers accept exactly the encodings -/

theorem parseVerificationRequested_eq_ok {v : VerificationRequested} :
    parseVerificationRequested log = .ok v ↔ v.event.Checked ∧ log = abiLog v.event := by
  unfold parseVerificationRequested
  simp only [bind_eq_ok, newChainID_eq_ok, topicAddress_eq_ok, pure_eq_ok]
  constructor
  · rintro ⟨_, hLayout, chainID, ⟨hChain, hChainTopic⟩, requester, hRequester, rfl⟩
    refine ⟨hChain, (layout_of_requireEvent hLayout).trans ?_⟩
    change (⟨[_, _, topicAt log 2, topicAt log 3], _⟩ : Log) = _
    rw [hRequester, hChainTopic]
    rfl
  · rintro ⟨hChecked, rfl⟩
    refine ⟨(), requireEvent_abiLog rfl rfl, v.sourceChainID, ⟨hChecked, rfl⟩, v.requester, rfl, ?_⟩
    have hHeight : Words.wordAt (abiLog v.event).data 0 = v.sourceHeight := Words.wordAt_encode rfl
    have hHash : Words.wordAt (abiLog v.event).data 1 = v.sourceBlockHash := Words.wordAt_encode rfl
    have hNonce : Words.wordAt (abiLog v.event).data 2 = v.requesterNonce := Words.wordAt_encode rfl
    rw [hHeight, hHash, hNonce]
    rfl

theorem parseTrustRootUpdated_eq_ok {v : TrustRootUpdated} :
    parseTrustRootUpdated log = .ok v ↔ v.event.Checked ∧ log = abiLog v.event := by
  unfold parseTrustRootUpdated
  simp only [bind_eq_ok, wordUint32_eq_ok, wordBool_eq_ok, pure_eq_ok]
  constructor
  · rintro ⟨_, hLayout, leafIndex, hIndex, isAnchor, hAnchor, rfl⟩
    refine ⟨trivial, (layout_of_requireEvent hLayout).trans ?_⟩
    change (⟨[_, _, topicAt log 2], Words.encode [_, _, _, Words.wordAt log.data 3]⟩ : Log) = _
    rw [hIndex, hAnchor]
    rfl
  · rintro ⟨-, rfl⟩
    have hLeaf : Words.wordAt (abiLog v.event).data 0 = v.leaf := Words.wordAt_encode rfl
    have hOld : Words.wordAt (abiLog v.event).data 1 = v.oldTrustRoot := Words.wordAt_encode rfl
    have hNew : Words.wordAt (abiLog v.event).data 2 = v.newTrustRoot := Words.wordAt_encode rfl
    refine ⟨(), requireEvent_abiLog rfl rfl, v.leafIndex, rfl, v.isAnchor,
      Words.wordAt_encode rfl, ?_⟩
    rw [hLeaf, hOld, hNew]
    rfl

theorem parseDependencyRecorded_eq_ok {v : DependencyRecorded} :
    parseDependencyRecorded log = .ok v ↔ v.event.Checked ∧ log = abiLog v.event := by
  unfold parseDependencyRecorded
  simp only [bind_eq_ok, newChainID_eq_ok, wordUint32_eq_ok, pure_eq_ok]
  constructor
  · rintro ⟨_, hLayout, chainID, ⟨hChain, hChainTopic⟩, leafIndex, hIndex, rfl⟩
    refine ⟨hChain, (layout_of_requireEvent hLayout).trans ?_⟩
    change (⟨[_, _, _, topicAt log 3], Words.encode [_, _, _, Words.wordAt log.data 3]⟩ : Log) = _
    rw [hChainTopic, hIndex]
    rfl
  · rintro ⟨hChecked, rfl⟩
    have hHeight : Words.wordAt (abiLog v.event).data 0 = v.sourceHeight := Words.wordAt_encode rfl
    have hHash : Words.wordAt (abiLog v.event).data 1 = v.sourceBlockHash := Words.wordAt_encode rfl
    have hRoot : Words.wordAt (abiLog v.event).data 2 = v.sourceTrustRoot := Words.wordAt_encode rfl
    refine ⟨(), requireEvent_abiLog rfl rfl, v.sourceChainID, ⟨hChecked, rfl⟩, v.leafIndex,
      Words.wordAt_encode rfl, ?_⟩
    rw [hHeight, hHash, hRoot]
    rfl

theorem parseRequestResolved_eq_ok {v : RequestResolved} :
    parseRequestResolved log = .ok v ↔ v.event.Checked ∧ log = abiLog v.event := by
  unfold parseRequestResolved
  simp only [bind_eq_ok, topicAddress_eq_ok, wordBool_eq_ok, pure_eq_ok]
  constructor
  · rintro ⟨_, hLayout, requester, hRequester, newDependency, hNew, rfl⟩
    refine ⟨trivial, (layout_of_requireEvent hLayout).trans ?_⟩
    change (⟨[_, _, topicAt log 2, _], Words.encode [Words.wordAt log.data 0, _]⟩ : Log) = _
    rw [hRequester, hNew]
    rfl
  · rintro ⟨-, rfl⟩
    have hRoot : Words.wordAt (abiLog v.event).data 1 = v.homeTrustRoot := Words.wordAt_encode rfl
    refine ⟨(), requireEvent_abiLog rfl rfl, v.requester, rfl, v.newDependency,
      Words.wordAt_encode rfl, ?_⟩
    rw [hRoot]
    rfl

variable {v : VerificationSucceeded}

theorem parseSucceeded_direct :
    parseSucceeded log directVerificationSucceededTopic false = .ok v ↔
      v.hopCount = none ∧ v.event.Checked ∧ log = abiLog v.event := by
  unfold parseSucceeded
  simp only [bind_eq_ok, newChainID_eq_ok, require_eq_ok, pure_eq_ok, Bool.false_eq_true, if_false]
  constructor
  · rintro ⟨_, hLayout, chainID, ⟨hChain, hChainTopic⟩, _, -, rfl⟩
    refine ⟨rfl, hChain, (layout_of_requireEvent hLayout).trans ?_⟩
    change (⟨[_, _, topicAt log 2], _⟩ : Log) = _
    rw [hChainTopic]
    rfl
  · rintro ⟨hHops, hChecked, rfl⟩
    obtain ⟨requestID, chainID, height, hash, root, key, hopCount⟩ := v
    obtain rfl : hopCount = none := hHops
    refine ⟨(), requireEvent_abiLog rfl rfl, chainID, ⟨hChecked, rfl⟩, (), by simp, ?_⟩
    rw [VerificationSucceeded.mk.injEq]
    exact ⟨rfl, rfl, Words.wordAt_encode rfl, Words.wordAt_encode rfl, Words.wordAt_encode rfl,
      Words.wordAt_encode rfl, rfl⟩

theorem parseSucceeded_path :
    parseSucceeded log pathVerificationSucceededTopic true = .ok v ↔
      v.hopCount ≠ none ∧ v.event.Checked ∧ log = abiLog v.event := by
  unfold parseSucceeded
  simp only [bind_eq_ok, newChainID_eq_ok, require_eq_ok, pure_eq_ok, if_true]
  constructor
  · rintro ⟨_, hLayout, chainID, ⟨hChain, hChainTopic⟩, _, hHops, rfl⟩
    refine ⟨Option.some_ne_none _, ⟨hChain, ?_⟩, (layout_of_requireEvent hLayout).trans ?_⟩
    · intro hZero
      exact hHops (congrArg some (BitVec.eq_of_toNat_eq hZero))
    · have hWord : BitVec.ofNat 256 (Words.wordAt log.data 3).toNat = Words.wordAt log.data 3 := by
        rw [BitVec.ofNat_toNat, BitVec.setWidth_eq]
      change _ = (⟨_, Words.encode [_, _, _, BitVec.ofNat 256 (Words.wordAt log.data 3).toNat, _]⟩ : Log)
      rw [hWord, ← hChainTopic]
      rfl
  · rintro ⟨hHops, hChecked, rfl⟩
    obtain ⟨requestID, chainID, height, hash, root, key, hopCount⟩ := v
    cases hopCount with
    | none => exact absurd rfl hHops
    | some hopCount =>
        have hWord : Words.wordAt (Words.encode [height, hash, root, BitVec.ofNat 256 hopCount.toNat,
            key]) 3 = hopCount := by
          rw [Words.wordAt_encode rfl, BitVec.ofNat_toNat, BitVec.setWidth_eq]
        refine ⟨(), requireEvent_abiLog rfl rfl, chainID, ⟨hChecked.1, rfl⟩, (), ?_, ?_⟩
        · intro hZero
          have hHop : hopCount = 0 := by
            rw [← hWord]
            exact Option.some.inj hZero
          exact hChecked.2 (congrArg BitVec.toNat hHop)
        · rw [VerificationSucceeded.mk.injEq]
          exact ⟨rfl, rfl, Words.wordAt_encode rfl, Words.wordAt_encode rfl,
            Words.wordAt_encode rfl, Words.wordAt_encode rfl, congrArg some hWord⟩

/-- The topic of a success event says whether it has a hop count. -/
theorem VerificationSucceeded.topic_event (v : VerificationSucceeded) :
    (abiLog v.event).topics.head? =
      some (if v.hopCount = none then directVerificationSucceededTopic
        else pathVerificationSucceededTopic) := by
  unfold VerificationSucceeded.event
  cases v.hopCount with
  | none => rfl
  | some hopCount => rfl

theorem parseVerificationSucceeded_eq_ok :
    parseVerificationSucceeded log = .ok v ↔ v.event.Checked ∧ log = abiLog v.event := by
  have hTopics : directVerificationSucceededTopic ≠ pathVerificationSucceededTopic := by decide
  have hTopic : log = abiLog v.event → log.topics.head? = some (if v.hopCount = none then
      directVerificationSucceededTopic else pathVerificationSucceededTopic) := by
    rintro rfl
    exact v.topic_event
  unfold parseVerificationSucceeded
  split
  · rename_i hDirect
    rw [parseSucceeded_direct, and_iff_right_iff_imp]
    rintro ⟨-, hLog⟩
    by_contra hHops
    rw [hTopic hLog, if_neg hHops] at hDirect
    exact hTopics (Option.some.inj hDirect).symm
  split
  · rename_i hPath
    rw [parseSucceeded_path, and_iff_right_iff_imp]
    rintro ⟨-, hLog⟩ hHops
    rw [hTopic hLog, if_pos hHops] at hPath
    exact hTopics (Option.some.inj hPath)
  · rename_i hDirect hPath
    simp only [reduceCtorEq, false_iff, not_and]
    intro _ hLog
    have hHead := hTopic hLog
    split at hHead
    · exact hDirect hHead
    · exact hPath hHead

/-! ## Events of the Gateway -/

theorem Decoded.eq_abiLog {event : GatewayEvent} (h : Decoded log event) : log = abiLog event := by
  cases h with
  | verificationRequested ok => exact (parseVerificationRequested_eq_ok.mp ok).2
  | trustRootUpdated ok => exact (parseTrustRootUpdated_eq_ok.mp ok).2
  | dependencyRecorded ok => exact (parseDependencyRecorded_eq_ok.mp ok).2
  | requestResolved ok => exact (parseRequestResolved_eq_ok.mp ok).2
  | verificationSucceeded ok => exact (parseVerificationSucceeded_eq_ok.mp ok).2

/-- The values have the types of the event's arguments; a hop count is the length of a calldata
array, which is a `uint256`. -/
def Typed : GatewayEvent → Prop
  | .pathVerificationSucceeded _ _ _ _ _ hopCount _ => hopCount < 2 ^ 256
  | _ => True

theorem decoded_abiLog {event : GatewayEvent} (hChecked : event.Checked) (hTyped : Typed event) :
    Decoded (abiLog event) event := by
  cases event with
  | trustRootUpdated requestId leafIndex leaf oldTrustRoot newTrustRoot isAnchor =>
      let v : TrustRootUpdated := ⟨requestId, leafIndex, leaf, oldTrustRoot, newTrustRoot, isAnchor⟩
      exact .trustRootUpdated (parseTrustRootUpdated_eq_ok (v := v) |>.mpr ⟨hChecked, rfl⟩)
  | verificationRequested requestId requester chainId height blockHash nonce =>
      let v : VerificationRequested := ⟨requestId, requester, chainId, height, blockHash, nonce⟩
      exact .verificationRequested
        (parseVerificationRequested_eq_ok (v := v) |>.mpr ⟨hChecked, rfl⟩)
  | directVerificationSucceeded requestId chainId height blockHash trustRoot key =>
      let v : VerificationSucceeded := ⟨requestId, chainId, height, blockHash, trustRoot, key, none⟩
      exact .verificationSucceeded
        (parseVerificationSucceeded_eq_ok (v := v) |>.mpr ⟨hChecked, rfl⟩)
  | pathVerificationSucceeded requestId chainId height blockHash trustRoot hopCount key =>
      let v : VerificationSucceeded :=
        ⟨requestId, chainId, height, blockHash, trustRoot, key, some (BitVec.ofNat 256 hopCount)⟩
      have hHops : (BitVec.ofNat 256 hopCount).toNat = hopCount := by
        rw [BitVec.toNat_ofNat, Nat.mod_eq_of_lt hTyped]
      have hEvent : v.event = .pathVerificationSucceeded requestId chainId height blockHash trustRoot
          hopCount key := by
        change GatewayEvent.pathVerificationSucceeded _ _ _ _ _ (BitVec.ofNat 256 hopCount).toNat _ = _
        rw [hHops]
      rw [← hEvent] at hChecked ⊢
      exact .verificationSucceeded (parseVerificationSucceeded_eq_ok.mpr ⟨hChecked, rfl⟩)
  | dependencyRecorded key requestId chainId height blockHash trustRoot leafIndex =>
      let v : DependencyRecorded :=
        ⟨key, requestId, chainId, height, blockHash, trustRoot, leafIndex⟩
      exact .dependencyRecorded (parseDependencyRecorded_eq_ok (v := v) |>.mpr ⟨hChecked, rfl⟩)
  | requestResolved requestId requester key newDependency trustRoot =>
      let v : RequestResolved := ⟨requestId, requester, key, newDependency, trustRoot⟩
      exact .requestResolved (parseRequestResolved_eq_ok (v := v) |>.mpr ⟨hChecked, rfl⟩)

/-- Decoding is canonical. In every run the log of every emitted event is parsed back to the event,
whatever a parser accepts is the encoding of what it returns, and so two logs that are parsed to the
same event are the same. -/
theorem gatewayEvents_canonical :
    (∀ (env : TrustMapGateway.Deployment) (initialTrustRoot : Bytes32) (start : ℕ)
        (actions : List Chain.Action),
      ∀ entry ∈ (Chain.run env (Chain.deploy env initialTrustRoot start) actions).gateway.logs,
        Typed entry.event → Decoded (abiLog entry.event) entry.event) ∧
      (∀ log event, Decoded log event → log = abiLog event) ∧
      ∀ log log' event, Decoded log event → Decoded log' event → log = log' := by
  refine ⟨?_, ?_, ?_⟩
  · intro env initialTrustRoot start actions entry hEntry hTyped
    have hChecked := Chain.run_emitsChecked env initialTrustRoot start actions
    exact decoded_abiLog (hChecked.current.logs entry hEntry) hTyped
  · intro log event h
    exact h.eq_abiLog
  · intro log log' event h h'
    rw [h.eq_abiLog, h'.eq_abiLog]

end TrustMap.Mapnode.ChainAbi
