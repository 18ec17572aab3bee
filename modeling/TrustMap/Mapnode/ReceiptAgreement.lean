import TrustMap.Library.Framing
import TrustMap.Mapnode.RemoteReceipt

/-!
The two receipt verifiers accept the same receipts. Their loops go through the logs in step, with the
remote one holding less; after the loop both have checked the same equations, only with the request
known in one and read from the dependency in the other.
-/

namespace TrustMap.Mapnode

open Checks ChainAbi Internal.Proof

/-! ## The two loops -/

/-- What the remote loop holds of the variables of the home loop. -/
def ReceiptScan.remote (scan : ReceiptScan) : RemoteScan where
  success := scan.success.map fun entry => (entry.1.index, entry.2)
  updates := scan.updates.map fun entry => (entry.1.index, entry.2)
  dependency := scan.dependency.map fun entry => (entry.1.index, entry.2)
  resolution := scan.resolution.map fun entry => (entry.1.index, entry.2)
  previous := scan.previousIndex

/-- The log of a recorded dependency, by its first topic. -/
def ReceiptLog.isDependency (item : ReceiptLog) : Bool :=
  item.log.topics.head? = some dependencyRecordedTopic

/-- A dependency log stands where the locator says. -/
def Named (locator : Locator) (item : ReceiptLog) : Prop :=
  item.isDependency → item.index.toNat < 2 ^ 32 ∧ item.index.toUInt32 = locator.logIndex

section Loop

variable {scan scan' : ReceiptScan} {item : ReceiptLog} {locator : Locator} {result : RemoteScan}

theorem addSuccess_remote : scan.remote.addSuccess item = .ok result ↔
    ∃ scan', scan.addSuccess item = .ok scan' ∧ scan'.remote = result := by
  simp only [RemoteScan.addSuccess, ReceiptScan.addSuccess, require_eq_ok, exists_const,
    bind_eq_ok, mapError_eq_ok, pure_eq_ok, ReceiptScan.remote, Option.map_eq_none_iff]
  constructor
  · rintro ⟨hFirst, event, hParse, rfl⟩
    exact ⟨_, ⟨hFirst, event, hParse, rfl⟩, rfl⟩
  · rintro ⟨_, ⟨hFirst, event, hParse, rfl⟩, rfl⟩
    exact ⟨hFirst, event, hParse, rfl⟩

theorem addUpdate_remote : scan.remote.addUpdate item = .ok result ↔
    ∃ scan', scan.addUpdate item = .ok scan' ∧ scan'.remote = result := by
  simp only [RemoteScan.addUpdate, ReceiptScan.addUpdate, bind_eq_ok, mapError_eq_ok, pure_eq_ok,
    ReceiptScan.remote]
  constructor
  · rintro ⟨event, hParse, rfl⟩
    exact ⟨_, ⟨event, hParse, rfl⟩, by simp⟩
  · rintro ⟨_, ⟨event, hParse, rfl⟩, rfl⟩
    exact ⟨event, hParse, by simp⟩

theorem addResolution_remote : scan.remote.addResolution item = .ok result ↔
    ∃ scan', scan.addResolution item = .ok scan' ∧ scan'.remote = result := by
  simp only [RemoteScan.addResolution, ReceiptScan.addResolution, require_eq_ok, exists_const,
    bind_eq_ok, mapError_eq_ok, pure_eq_ok, ReceiptScan.remote, Option.map_eq_none_iff]
  constructor
  · rintro ⟨hFirst, event, hParse, rfl⟩
    exact ⟨_, ⟨hFirst, event, hParse, rfl⟩, rfl⟩
  · rintro ⟨_, ⟨hFirst, event, hParse, rfl⟩, rfl⟩
    exact ⟨hFirst, event, hParse, rfl⟩

theorem addDependency_remote : scan.remote.addDependency item locator = .ok result ↔
    (item.index.toNat < 2 ^ 32 ∧ item.index.toUInt32 = locator.logIndex) ∧
      ∃ scan', scan.addDependency item = .ok scan' ∧ scan'.remote = result := by
  simp only [RemoteScan.addDependency, ReceiptScan.addDependency, require_eq_ok, exists_const,
    bind_eq_ok, mapError_eq_ok, pure_eq_ok, ReceiptScan.remote, Option.map_eq_none_iff]
  constructor
  · rintro ⟨hFirst, event, hParse, hIndex, rfl⟩
    exact ⟨hIndex, _, ⟨hFirst, event, hParse, rfl⟩, rfl⟩
  · rintro ⟨hIndex, _, ⟨hFirst, event, hParse, rfl⟩, rfl⟩
    exact ⟨hFirst, event, hParse, hIndex, rfl⟩

/-- The remote switch accepts what the home switch accepts, if the dependency is the named one. -/
theorem addGatewayLog_remote : scan.remote.addGatewayLog item locator = .ok result ↔
    Named locator item ∧ ∃ scan', scan.addGatewayLog item = .ok scan' ∧ scan'.remote = result := by
  unfold RemoteScan.addGatewayLog ReceiptScan.addGatewayLog Named ReceiptLog.isDependency
  cases item.log.topics.head? with
  | none => simp
  | some topic =>
      -- every other topic leaves the locator out of the matter
      have hOther : topic ≠ dependencyRecordedTopic →
          ((decide (some topic = some dependencyRecordedTopic) →
            item.index.toNat < 2 ^ 32 ∧ item.index.toUInt32 = locator.logIndex) ↔ True) := by
        intro hTopic
        simp [hTopic]
      dsimp only
      by_cases hSuccess :
          topic = directVerificationSucceededTopic ∨ topic = pathVerificationSucceededTopic
      · have hTopic : topic ≠ dependencyRecordedTopic := by
          rintro rfl
          revert hSuccess
          decide
        rw [if_pos hSuccess, if_pos hSuccess, hOther hTopic, true_and]
        exact addSuccess_remote
      rw [if_neg hSuccess, if_neg hSuccess]
      by_cases hUpdate : topic = trustRootUpdatedTopic
      · have hTopic : topic ≠ dependencyRecordedTopic := by
          rw [hUpdate]
          decide
        rw [if_pos hUpdate, if_pos hUpdate, hOther hTopic, true_and]
        exact addUpdate_remote
      rw [if_neg hUpdate, if_neg hUpdate]
      by_cases hDependency : topic = dependencyRecordedTopic
      · rw [if_pos hDependency, if_pos hDependency, addDependency_remote]
        simp [hDependency]
      rw [if_neg hDependency, if_neg hDependency, hOther hDependency, true_and]
      by_cases hResolution : topic = requestResolvedTopic
      · rw [if_pos hResolution, if_pos hResolution]
        exact addResolution_remote
      rw [if_neg hResolution, if_neg hResolution]
      split
      all_goals simp

/-- The home loop and the remote loop on one receipt. -/
structure SameReceipt (config : RemoteDependencyConfig) (locator : Locator)
    (input : VerificationReceiptInput) (receipt : TxReceipt) : Prop where
  gateway : input.gateway = config.gateway
  blockHash : locator.blockHash = input.blockHash
  number : locator.number = input.blockNumber
  txHash : locator.txHash = receipt.txHash

variable {config : RemoteDependencyConfig} {input : VerificationReceiptInput} {receipt : TxReceipt}

/-- One turn of the remote loop is one of the home loop. -/
theorem scanLog_remote (hSame : SameReceipt config locator input receipt)
    (hRemoved : item.removed = false) :
    scanRemoteLog config locator receipt scan.remote (some item) = .ok result ↔
      (item.address = config.gateway → Named locator item) ∧
        ∃ scan', scanLog input receipt scan (some item) = .ok scan' ∧ scan'.remote = result := by
  simp only [scanRemoteLog, scanLog, require_eq_ok, bind_eq_ok, exists_const, hRemoved,
    hSame.gateway, hSame.blockHash, hSame.number, hSame.txHash, Bool.false_eq_true, not_false_eq_true,
    true_and]
  by_cases hAddress : item.address = config.gateway
  · have hNext : ({ scan.remote with previous := some item.index } : RemoteScan) =
        ReceiptScan.remote { scan with previousIndex := some item.index } := rfl
    simp only [hAddress, ne_eq, not_true_eq_false, if_false, hNext, addGatewayLog_remote, forall_const]
    constructor
    · rintro ⟨⟨hHash, hNumber, hTx, hIndex, hOrder⟩, hNamed, scan', hAdd, hResult⟩
      exact ⟨hNamed, scan', ⟨⟨hHash, hNumber, hTx, hIndex⟩, hOrder, hAdd⟩, hResult⟩
    · rintro ⟨hNamed, scan', ⟨⟨hHash, hNumber, hTx, hIndex⟩, hOrder, hAdd⟩, hResult⟩
      exact ⟨⟨hHash, hNumber, hTx, hIndex, hOrder⟩, hNamed, scan', hAdd, hResult⟩
  · simp only [hAddress, ne_eq, not_false_eq_true, if_true, pure_eq_ok, false_implies, true_and]
    constructor
    · rintro ⟨⟨hHash, hNumber, hTx, hIndex, hOrder⟩, rfl⟩
      exact ⟨_, ⟨⟨hHash, hNumber, hTx, hIndex⟩, hOrder, rfl⟩, rfl⟩
    · rintro ⟨_, ⟨⟨hHash, hNumber, hTx, hIndex⟩, hOrder, rfl⟩, rfl⟩
      exact ⟨⟨hHash, hNumber, hTx, hIndex, hOrder⟩, rfl⟩

/-- The remote loop succeeds where the home loop does and every dependency log is the named one. -/
theorem scan_remote (hSame : SameReceipt config locator input receipt)
    {logs : List (Option ReceiptLog)}
    (hRemoved : ∀ item, some item ∈ logs → item.removed = false) :
    logs.foldlM (scanRemoteLog config locator receipt) scan.remote = .ok result ↔
      (∀ item, some item ∈ logs → item.address = config.gateway → Named locator item) ∧
        ∃ scan', logs.foldlM (scanLog input receipt) scan = .ok scan' ∧ scan'.remote = result := by
  induction logs generalizing scan with
  | nil => simp
  | cons first logs ih =>
      rw [List.foldlM_cons, bind_eq_ok]
      cases first with
      | none => simp [scanRemoteLog, scanLog, bind_eq_ok]
      | some item =>
          have hRest : ∀ other, some other ∈ logs → other.removed = false :=
            fun other hMem => hRemoved other (List.mem_cons_of_mem _ hMem)
          constructor
          · rintro ⟨middle, hFirst, hTail⟩
            obtain ⟨hNamed, next, hScan, rfl⟩ :=
              (scanLog_remote hSame (hRemoved item List.mem_cons_self)).mp hFirst
            obtain ⟨hOthers, scan', hLoop, hResult⟩ := (ih hRest).mp hTail
            refine ⟨fun other hMem => ?_, scan', ?_, hResult⟩
            · rcases List.mem_cons.mp hMem with hHead | hMem
              · cases hHead
                exact hNamed
              · exact hOthers other hMem
            · rw [List.foldlM_cons, bind_eq_ok]
              exact ⟨next, hScan, hLoop⟩
          · rintro ⟨hNamed, scan', hLoop, hResult⟩
            rw [List.foldlM_cons, bind_eq_ok] at hLoop
            obtain ⟨next, hScan, hLoop⟩ := hLoop
            refine ⟨next.remote, ?_, ?_⟩
            · exact (scanLog_remote hSame (hRemoved item List.mem_cons_self)).mpr
                ⟨hNamed item List.mem_cons_self, next, hScan, rfl⟩
            · exact (ih hRest).mpr
                ⟨fun other hMem => hNamed other (List.mem_cons_of_mem _ hMem), scan', hLoop, hResult⟩

end Loop

/-! ## The dependency log -/

/-- The first Gateway log of a recorded dependency. -/
def firstDependencyLog (gateway : Address) (logs : List (Option ReceiptLog)) : Option ReceiptLog :=
  (logs.filterMap id).find? fun item => item.address = gateway ∧ item.isDependency

/-- What the home loop knows of the dependency: it is the only one among the logs it has seen, and
the first one among the logs it has kept. -/
structure DependencyScanned (gateway : Address) (seen : List (Option ReceiptLog))
    (scan : ReceiptScan) : Prop where
  first : firstDependencyLog gateway seen = scan.dependency.map Prod.fst
  kept : scan.logs.find? ReceiptLog.isDependency = scan.dependency.map Prod.fst
  parsed : ∀ entry ∈ scan.dependency, parseDependencyRecorded entry.1.log = .ok entry.2
  only : ∀ item, some item ∈ seen → item.address = gateway → item.isDependency →
    scan.dependency.map Prod.fst = some item

section Dependency

variable {scan scan' : ReceiptScan} {item : ReceiptLog} {gateway : Address}
  {seen : List (Option ReceiptLog)}

/-- A Gateway log is kept; it is a dependency only if there was none before. -/
theorem addGatewayLog_dependency (hAdd : scan.addGatewayLog item = .ok scan') :
    scan'.logs = scan.logs ++ [item] ∧
      ((item.isDependency = false ∧ scan'.dependency = scan.dependency) ∨
        (item.isDependency = true ∧ scan.dependency = none ∧
          ∃ event, parseDependencyRecorded item.log = .ok event ∧
            scan'.dependency = some (item, event))) := by
  unfold ReceiptScan.addGatewayLog at hAdd
  cases hTopic : item.log.topics.head? with
  | none =>
      rw [hTopic] at hAdd
      cases hAdd
  | some topic =>
      simp only [hTopic] at hAdd
      split at hAdd
      · rename_i hSuccess
        have hOther : item.isDependency = false := by
          rw [ReceiptLog.isDependency, hTopic]
          rcases hSuccess with rfl | rfl
          all_goals decide
        simp only [ReceiptScan.addSuccess, require_eq_ok, exists_const, bind_eq_ok, mapError_eq_ok,
          pure_eq_ok] at hAdd
        obtain ⟨-, event, -, rfl⟩ := hAdd
        exact ⟨rfl, Or.inl ⟨hOther, rfl⟩⟩
      split at hAdd
      · rename_i hUpdate
        have hOther : item.isDependency = false := by
          rw [ReceiptLog.isDependency, hTopic, hUpdate]
          decide
        simp only [ReceiptScan.addUpdate, bind_eq_ok, mapError_eq_ok, pure_eq_ok] at hAdd
        obtain ⟨event, -, rfl⟩ := hAdd
        exact ⟨rfl, Or.inl ⟨hOther, rfl⟩⟩
      split at hAdd
      · rename_i hDependency
        have hOwn : item.isDependency = true := by
          rw [ReceiptLog.isDependency, hTopic, hDependency]
          decide
        simp only [ReceiptScan.addDependency, require_eq_ok, exists_const, bind_eq_ok,
          mapError_eq_ok, pure_eq_ok] at hAdd
        obtain ⟨hNone, event, hParse, rfl⟩ := hAdd
        exact ⟨rfl, Or.inr ⟨hOwn, hNone, event, hParse, rfl⟩⟩
      rename_i hDependency
      have hOther : item.isDependency = false := by
        simp [ReceiptLog.isDependency, hTopic, hDependency]
      split at hAdd
      · simp only [ReceiptScan.addResolution, require_eq_ok, exists_const, bind_eq_ok,
          mapError_eq_ok, pure_eq_ok] at hAdd
        obtain ⟨-, event, -, rfl⟩ := hAdd
        exact ⟨rfl, Or.inl ⟨hOther, rfl⟩⟩
      split at hAdd
      all_goals cases hAdd

theorem firstDependencyLog_append :
    firstDependencyLog gateway (seen ++ [some item]) =
      (firstDependencyLog gateway seen).or
        (if item.address = gateway ∧ item.isDependency then some item else none) := by
  have hLast : ([some item].filterMap id).find?
      (fun item => decide (item.address = gateway ∧ item.isDependency)) =
        if item.address = gateway ∧ item.isDependency then some item else none := by
    have hItems : [some item].filterMap id = [item] := rfl
    rw [hItems, List.find?_cons, List.find?_nil]
    by_cases hItem : item.address = gateway ∧ item.isDependency
    · simp [hItem]
    · rw [if_neg hItem, decide_eq_false hItem]
  rw [firstDependencyLog, List.filterMap_append, List.find?_append, hLast]
  rfl

/-- A log that is no dependency of the Gateway leaves everything about the dependency as it is. -/
theorem DependencyScanned.skip (h : DependencyScanned gateway seen scan)
    (hItem : ¬ (item.address = gateway ∧ item.isDependency))
    (hKept : scan'.logs.find? ReceiptLog.isDependency = scan.logs.find? ReceiptLog.isDependency)
    (hDependency : scan'.dependency = scan.dependency) :
    DependencyScanned gateway (seen ++ [some item]) scan' := by
  refine ⟨?_, ?_, ?_, fun other hMem hAddress hOther => ?_⟩
  · rw [firstDependencyLog_append, if_neg hItem, Option.or_none, hDependency]
    exact h.first
  · rw [hKept, hDependency]
    exact h.kept
  · rw [hDependency]
    exact h.parsed
  · rw [hDependency]
    rcases List.mem_append.mp hMem with hMem | hMem
    · exact h.only other hMem hAddress hOther
    · cases List.mem_singleton.mp hMem
      exact absurd ⟨hAddress, hOther⟩ hItem

/-- One turn of the home loop. -/
theorem DependencyScanned.scanLog {input : VerificationReceiptInput} {receipt : TxReceipt}
    {first : Option ReceiptLog} (h : DependencyScanned input.gateway seen scan)
    (hStep : scanLog input receipt scan first = .ok scan') :
    DependencyScanned input.gateway (seen ++ [first]) scan' := by
  cases first with
  | none => cases hStep
  | some item =>
      simp only [Mapnode.scanLog, require_eq_ok, bind_eq_ok, exists_const] at hStep
      obtain ⟨-, -, hStep⟩ := hStep
      split at hStep
      · rename_i hAddress
        cases hStep
        exact h.skip (fun hItem => hAddress hItem.1) rfl rfl
      · rename_i hAddress
        rw [ne_eq, not_not] at hAddress
        obtain ⟨hLogs, ⟨hOther, hSame⟩ | ⟨hOwn, hNone, event, hParse, hNew⟩⟩ :=
          addGatewayLog_dependency hStep
        · refine h.skip (fun hItem => ?_) ?_ hSame
          · rw [hOther] at hItem
            exact Bool.false_ne_true hItem.2
          · rw [hLogs, List.find?_append]
            simp [hOther]
        · -- there was no dependency before this one
          have hFirst := h.first
          have hKept := h.kept
          replace hNone : scan.dependency = none := hNone
          rw [hNone, Option.map_none] at hFirst hKept
          refine ⟨?_, ?_, ?_, fun other hMem hOtherAddress hOther => ?_⟩
          · rw [firstDependencyLog_append, hFirst, if_pos ⟨hAddress, hOwn⟩, hNew]
            rfl
          · rw [hLogs, List.find?_append, hKept, hNew]
            simp [hOwn]
          · rw [hNew]
            rintro _ ⟨⟩
            exact hParse
          · rcases List.mem_append.mp hMem with hMem | hMem
            · have hBefore := h.only other hMem hOtherAddress hOther
              rw [hNone] at hBefore
              cases hBefore
            · cases List.mem_singleton.mp hMem
              rw [hNew]
              rfl

/-- The dependency of the whole receipt. -/
theorem dependencyScanned {input : VerificationReceiptInput} {receipt : TxReceipt}
    {logs : List (Option ReceiptLog)} (hLoop : logs.foldlM (scanLog input receipt) {} = .ok scan) :
    DependencyScanned input.gateway logs scan := by
  have hStart : DependencyScanned input.gateway [] {} := by
    constructor
    all_goals simp [firstDependencyLog]
  exact foldlM_invariant (fun seen scan item scan' h hStep => h.scanLog hStep) hStart hLoop

end Dependency

/-! ## The checks after the loop -/

variable {siblings : List Bytes32}

/-- The reasons given for a refusal do not matter to what is accepted. -/
theorem rebuildTree_reasons {keccak : Keccak} {depth : UInt8} {reasons reasons' : TreeReasons}
    {anchorLeaf dependencyLeaf anchorRoot dependencyRoot homeRoot : Bytes32} {leafIndex : UInt32} :
    rebuildTree keccak depth reasons anchorLeaf dependencyLeaf leafIndex anchorRoot dependencyRoot
        homeRoot = .ok siblings ↔
      rebuildTree keccak depth reasons' anchorLeaf dependencyLeaf leafIndex anchorRoot
        dependencyRoot homeRoot = .ok siblings := by
  have hAppend : ∀ {tree next : IncrementalTree} {leaf root : Bytes32} {reason reason' : String},
      appendExpecting keccak tree leaf root reason = .ok next →
        appendExpecting keccak tree leaf root reason' = .ok next := by
    intro tree next leaf root reason reason' h
    unfold appendExpecting at h ⊢
    split at h
    · split at h
      · rename_i hRoot
        rw [if_pos hRoot]
        exact h
      · cases h
    · cases h
  have hOne : ∀ {reasons reasons' : TreeReasons},
      rebuildTree keccak depth reasons anchorLeaf dependencyLeaf leafIndex anchorRoot
          dependencyRoot homeRoot = .ok siblings →
        rebuildTree keccak depth reasons' anchorLeaf dependencyLeaf leafIndex anchorRoot
          dependencyRoot homeRoot = .ok siblings := by
    intro reasons reasons' h
    simp only [rebuildTree, bind_eq_ok, require_eq_ok, exists_const] at h ⊢
    obtain ⟨tree, hTree, next, hAnchor, last, hDependency, zeros, hZeros, hRoot, hSiblings⟩ := h
    exact ⟨tree, hTree, next, hAppend hAnchor, last, hAppend hDependency, zeros, hZeros, hRoot,
      hSiblings⟩
  exact ⟨hOne, hOne⟩

theorem canonicalDependencyKey_eq (keccak : Keccak) :
    canonicalDependencyKey keccak = computeDependencyKey keccak := by
  funext chainID height blockHash root
  simp [canonicalDependencyKey, computeDependencyKey]

/-- The dependency the indexer makes of the event, before it has its evidence. -/
def ChainAbi.DependencyRecorded.verified (keccak : Keccak) (event : DependencyRecorded) :
    VerifiedDependency :=
  newVerifiedDependency keccak event.requestID event.sourceChainID event.sourceHeight
    event.sourceBlockHash event.sourceTrustRoot event.leafIndex 0

theorem bytes_ofUInt32 (number : UInt32) :
    Words.bytes (Words.ofUInt32 number) =
      List.replicate 28 0 ++ Words.bigEndian 4 number.toNat := by
  have hSmall : number.toNat < 256 ^ 4 := number.toNat_lt
  have hWord : (Words.ofUInt32 number).toNat = number.toNat := by
    rw [Words.ofUInt32, BitVec.toNat_ofNat, Nat.mod_eq_of_lt (hSmall.trans (by decide))]
  rw [Words.bytes, hWord]
  exact Words.bigEndian_add_of_lt hSmall 28

/-- The two digests are the same for an event with the key of its source block. -/
theorem payloadDigest_eq {keccak : Keccak} {event : DependencyRecorded}
    (hKey : event.dependencyKey = computeDependencyKey keccak event.sourceChainID
      event.sourceHeight event.sourceBlockHash event.sourceTrustRoot) :
    canonicalDependencyPayloadDigest keccak event =
      (event.verified keccak).payloadDigest keccak := by
  simp [canonicalDependencyPayloadDigest, VerifiedDependency.payloadDigest,
    DependencyRecorded.verified, newVerifiedDependency, ← hKey, bytes_ofUInt32]

variable {resolution : ReceiptLog × RequestResolved} {success : ReceiptLog × VerificationSucceeded}

theorem ReceiptScan.ends_eq_ok {scan : ReceiptScan} :
    scan.ends = .ok (success, resolution) ↔ scan.success = some success ∧
      scan.resolution = some resolution ∧ success.1.index < resolution.1.index := by
  unfold ReceiptScan.ends
  cases scan.success with
  | none => simp
  | some found =>
      cases scan.resolution with
      | none => simp
      | some found' =>
          by_cases hOrder : found.1.index < found'.1.index
          · simp only [if_pos hOrder, Except.ok.injEq, Prod.mk.injEq, Option.some.injEq]
            constructor
            · rintro ⟨rfl, rfl⟩
              exact ⟨rfl, rfl, hOrder⟩
            · rintro ⟨rfl, rfl, -⟩
              exact ⟨rfl, rfl⟩
          · simp only [if_neg hOrder, Option.some.injEq, reduceCtorEq, false_iff]
            rintro ⟨rfl, rfl, hLess⟩
            exact hOrder hLess

variable {anchor dependencyUpdate : ReceiptLog × TrustRootUpdated}
  {dependency : ReceiptLog × DependencyRecorded}

theorem ReceiptScan.newDependency_eq_ok {scan : ReceiptScan} :
    scan.newDependency = .ok (dependency, anchor, dependencyUpdate) ↔
      scan.dependency = some dependency ∧ scan.updates = [anchor, dependencyUpdate] := by
  unfold ReceiptScan.newDependency
  split
  · rename_i found first second hDependency hUpdates
    simp [hDependency, hUpdates]
  · rename_i hOther
    simp only [reduceCtorEq, false_iff]
    rintro ⟨hDependency, hUpdates⟩
    exact hOther dependency anchor dependencyUpdate hDependency hUpdates

/-- The events of a complete receipt, out of the variables of the home loop. -/
structure ScannedEvents (scan : ReceiptScan) (success : ReceiptLog × VerificationSucceeded)
    (anchor dependencyUpdate : ReceiptLog × TrustRootUpdated)
    (dependency : ReceiptLog × DependencyRecorded) (resolution : ReceiptLog × RequestResolved) :
    Prop where
  success_eq : scan.success = some success
  updates_eq : scan.updates = [anchor, dependencyUpdate]
  dependency_eq : scan.dependency = some dependency
  resolution_eq : scan.resolution = some resolution
  new : resolution.2.newDependency

/-- The remote view of the events. -/
def remoteEvents (success : ReceiptLog × VerificationSucceeded)
    (anchor dependencyUpdate : ReceiptLog × TrustRootUpdated)
    (dependency : ReceiptLog × DependencyRecorded) (resolution : ReceiptLog × RequestResolved) :
    NewDependencyEvents where
  success := (success.1.index, success.2)
  anchor := (anchor.1.index, anchor.2)
  dependencyUpdate := (dependencyUpdate.1.index, dependencyUpdate.2)
  dependency := (dependency.1.index, dependency.2)
  resolution := (resolution.1.index, resolution.2)

/-- The remote loop is complete where the home loop has found all events. -/
theorem complete_remote {scan : ReceiptScan} {events : NewDependencyEvents} :
    scan.remote.complete = .ok events ↔
      ∃ success anchor dependencyUpdate dependency resolution,
        ScannedEvents scan success anchor dependencyUpdate dependency resolution ∧
          events = remoteEvents success anchor dependencyUpdate dependency resolution := by
  constructor
  · intro h
    unfold RemoteScan.complete at h
    split at h
    · rename_i success anchor dependencyUpdate dependency resolution hSuccess hUpdates hDependency
        hResolution
      split at h
      · rename_i hNew
        cases h
        obtain ⟨success', hSuccess', rfl⟩ := Option.map_eq_some_iff.mp hSuccess
        obtain ⟨dependency', hDependency', rfl⟩ := Option.map_eq_some_iff.mp hDependency
        obtain ⟨resolution', hResolution', rfl⟩ := Option.map_eq_some_iff.mp hResolution
        obtain ⟨anchor', rest, hUpdates', rfl, hRest⟩ := List.map_eq_cons_iff.mp hUpdates
        obtain ⟨dependencyUpdate', rest', rfl, rfl, hNil⟩ := List.map_eq_cons_iff.mp hRest
        obtain rfl := List.map_eq_nil_iff.mp hNil
        exact ⟨success', anchor', dependencyUpdate', dependency', resolution',
          ⟨hSuccess', hUpdates', hDependency', hResolution', hNew⟩, rfl⟩
      · cases h
    · cases h
  · rintro ⟨success, anchor, dependencyUpdate, dependency, resolution, h, rfl⟩
    simp [RemoteScan.complete, ReceiptScan.remote, h.success_eq, h.updates_eq, h.dependency_eq,
      h.resolution_eq, h.new, remoteEvents]

/-! ## The two verifiers -/

/-- What the indexer hands to the home verifier for a block. -/
def receiptInput (config : RemoteDependencyConfig) (header : BlockHeader) (request : Request)
    (receipt : TxReceipt) : VerificationReceiptInput where
  gateway := config.gateway
  blockHash := header.hash
  blockNumber := header.number
  parentHash := header.parentHash
  merkleDepth := config.merkleDepth
  request := request
  receipt := some receipt

/-- The event of a request. -/
def Request.requested (request : Request) : VerificationRequested where
  requestID := request.id
  requester := request.requester
  sourceChainID := request.sourceChainID
  sourceHeight := request.sourceHeight
  sourceBlockHash := request.sourceBlockHash
  requesterNonce := request.nonce

/-- The locator of a log of the receipt. -/
def logLocator (config : RemoteDependencyConfig) (header : BlockHeader) (receipt : TxReceipt)
    (item : ReceiptLog) (payloadDigest : Bytes32) : Locator where
  chainID := config.chainID
  contractAddress := config.gateway
  blockNumber := Words.ofUInt64 header.number
  blockHash := header.hash
  txHash := receipt.txHash
  txIndex := receipt.transactionIndex.toUInt32
  logIndex := item.index.toUInt32
  payloadDigest := payloadDigest

/-- The locator of the first dependency log, with the digest of its event. -/
def receiptLocator (keccak : Keccak) (config : RemoteDependencyConfig) (header : BlockHeader)
    (receipt : TxReceipt) : Option Locator := do
  let item ← firstDependencyLog config.gateway receipt.logs
  let event ← (parseDependencyRecorded item.log).toOption
  return logLocator config header receipt item (canonicalDependencyPayloadDigest keccak event)

/-- The locator `prepareBlock` makes of the bundle of the home verifier. -/
def bundleLocator (keccak : Keccak) (config : RemoteDependencyConfig) (header : BlockHeader)
    (receipt : TxReceipt) (bundle : VerificationReceiptBundle) : Option Locator := do
  let event ← bundle.dependency
  let item ← bundle.logs.find? ReceiptLog.isDependency
  return logLocator config header receipt item ((event.verified keccak).payloadDigest keccak)

theorem logLocator_number {config : RemoteDependencyConfig} {header : BlockHeader}
    {receipt : TxReceipt} {item : ReceiptLog} {payloadDigest : Bytes32} :
    (logLocator config header receipt item payloadDigest).number = header.number := by
  have hSmall : header.number.toNat < 2 ^ 256 := header.number.toNat_lt.trans (by norm_num)
  rw [Locator.number, logLocator, Words.ofUInt64, BitVec.toNat_ofNat, Nat.mod_eq_of_lt hSmall,
    UInt64.ofNat_toNat]

section Verifiers

variable {keccak : Keccak} {config : RemoteDependencyConfig} {header : BlockHeader}
  {request : Request} {receipt : TxReceipt}

/-- The facts both verifiers establish about the five events of a new dependency and a request. -/
structure BoundEvents (keccak : Keccak) (config : RemoteDependencyConfig) (header : BlockHeader)
    (request : Request) (success : ReceiptLog × VerificationSucceeded)
    (anchor dependencyUpdate : ReceiptLog × TrustRootUpdated)
    (dependency : ReceiptLog × DependencyRecorded) (resolution : ReceiptLog × RequestResolved)
    (siblings : List Bytes32) : Prop where
  order : success.1.index < anchor.1.index ∧ anchor.1.index < dependencyUpdate.1.index ∧
    dependencyUpdate.1.index < dependency.1.index ∧ dependency.1.index < resolution.1.index
  requestID : success.2.requestID = request.id ∧ anchor.2.requestID = request.id ∧
    dependencyUpdate.2.requestID = request.id ∧ dependency.2.requestID = request.id ∧
    resolution.2.requestID = request.id
  requester : resolution.2.requester = request.requester
  source : dependency.2.sourceChainID = request.sourceChainID ∧
    dependency.2.sourceHeight = request.sourceHeight ∧
    dependency.2.sourceBlockHash = request.sourceBlockHash
  success_source : success.2.sourceChainID = request.sourceChainID ∧
    success.2.sourceHeight = request.sourceHeight ∧
    success.2.sourceBlockHash = request.sourceBlockHash ∧
    success.2.sourceTrustRoot = dependency.2.sourceTrustRoot
  key : dependency.2.dependencyKey = computeDependencyKey keccak dependency.2.sourceChainID
    dependency.2.sourceHeight dependency.2.sourceBlockHash dependency.2.sourceTrustRoot
  keys : success.2.dependencyKey = dependency.2.dependencyKey ∧
    resolution.2.dependencyKey = dependency.2.dependencyKey
  indices : anchor.2.leafIndex = 0 ∧ anchor.2.isAnchor = true ∧ dependencyUpdate.2.leafIndex = 1 ∧
    ¬ dependencyUpdate.2.isAnchor = true ∧ dependency.2.leafIndex = 1
  leaves : anchor.2.leaf = leafHash keccak anchor.2.oldTrustRoot header.parentHash ∧
    dependencyUpdate.2.leaf =
      leafHash keccak dependency.2.sourceTrustRoot dependency.2.sourceBlockHash ∧
    dependencyUpdate.2.oldTrustRoot = anchor.2.newTrustRoot ∧
    resolution.2.homeTrustRoot = dependencyUpdate.2.newTrustRoot
  tree : ∀ reasons, rebuildTree keccak config.merkleDepth reasons
    (leafHash keccak anchor.2.oldTrustRoot header.parentHash)
    (leafHash keccak dependency.2.sourceTrustRoot dependency.2.sourceBlockHash)
    dependency.2.leafIndex anchor.2.newTrustRoot dependencyUpdate.2.newTrustRoot
    resolution.2.homeTrustRoot = .ok siblings

/-- What the remote checks say. -/
theorem NewDependencyEvents.check_eq_ok {events : NewDependencyEvents} {locator : Locator} :
    events.check keccak config locator header = .ok siblings ↔
      (events.success.1 < events.anchor.1 ∧ events.anchor.1 < events.dependencyUpdate.1 ∧
        events.dependencyUpdate.1 < events.dependency.1 ∧
        events.dependency.1 < events.resolution.1) ∧
      (events.success.2.requestID = events.dependency.2.requestID ∧
        events.resolution.2.requestID = events.dependency.2.requestID ∧
        events.anchor.2.requestID = events.dependency.2.requestID ∧
        events.dependencyUpdate.2.requestID = events.dependency.2.requestID ∧
        events.success.2.sourceChainID = events.dependency.2.sourceChainID ∧
        events.success.2.sourceHeight = events.dependency.2.sourceHeight ∧
        events.success.2.sourceBlockHash = events.dependency.2.sourceBlockHash ∧
        events.success.2.sourceTrustRoot = events.dependency.2.sourceTrustRoot ∧
        events.success.2.dependencyKey = events.dependency.2.dependencyKey ∧
        events.resolution.2.dependencyKey = events.dependency.2.dependencyKey) ∧
      events.dependency.2.dependencyKey = canonicalDependencyKey keccak
        events.dependency.2.sourceChainID events.dependency.2.sourceHeight
        events.dependency.2.sourceBlockHash events.dependency.2.sourceTrustRoot ∧
      canonicalDependencyPayloadDigest keccak events.dependency.2 = locator.payloadDigest ∧
      (events.anchor.2.leafIndex = 0 ∧ events.anchor.2.isAnchor ∧
        events.dependencyUpdate.2.leafIndex = 1 ∧ ¬ events.dependencyUpdate.2.isAnchor ∧
        events.dependency.2.leafIndex = 1) ∧
      (events.anchor.2.leaf = leafHash keccak events.anchor.2.oldTrustRoot header.parentHash ∧
        events.dependencyUpdate.2.leaf = leafHash keccak events.dependency.2.sourceTrustRoot
          events.dependency.2.sourceBlockHash ∧
        events.dependencyUpdate.2.oldTrustRoot = events.anchor.2.newTrustRoot ∧
        events.resolution.2.homeTrustRoot = events.dependencyUpdate.2.newTrustRoot) ∧
      rebuildTree keccak config.merkleDepth
        ⟨"anchor TrustRoot mismatch", "dependency TrustRoot mismatch",
          "fixed-depth membership witness does not close"⟩
        (leafHash keccak events.anchor.2.oldTrustRoot header.parentHash)
        (leafHash keccak events.dependency.2.sourceTrustRoot events.dependency.2.sourceBlockHash)
        events.dependency.2.leafIndex events.anchor.2.newTrustRoot
        events.dependencyUpdate.2.newTrustRoot events.resolution.2.homeTrustRoot =
          .ok siblings := by
  simp only [NewDependencyEvents.check, check_bind_eq_ok, require_eq_ok]

/-- What the remote checks and `bindRequest` say together. -/
theorem check_bound {locator : Locator}
    (hDigest : canonicalDependencyPayloadDigest keccak dependency.2 = locator.payloadDigest) :
    ((remoteEvents success anchor dependencyUpdate dependency resolution).check keccak config locator
          header = .ok siblings ∧
        bindRequest request.requested ⟨success.2, dependency.2, resolution.2, siblings⟩ = .ok ()) ↔
      BoundEvents keccak config header request success anchor dependencyUpdate dependency resolution
        siblings := by
  rw [NewDependencyEvents.check_eq_ok, bindRequest, require_eq_ok, canonicalDependencyKey_eq]
  constructor
  · rintro ⟨⟨hOrder, hIDs, hKey, -, hIndices, hLeaves, hTree⟩, hRequest⟩
    obtain ⟨hSuccess, hResolution, hAnchor, hUpdate, hChain, hHeight, hHash, hRoot, hKeys⟩ := hIDs
    obtain ⟨hID, hRequester, hSource⟩ := hRequest
    exact {
      order := hOrder
      requestID := ⟨hSuccess.trans hID.symm, hAnchor.trans hID.symm, hUpdate.trans hID.symm,
        hID.symm, hResolution.trans hID.symm⟩
      requester := hRequester.symm
      source := ⟨hSource.1.symm, hSource.2.1.symm, hSource.2.2.symm⟩
      success_source := ⟨hChain.trans hSource.1.symm, hHeight.trans hSource.2.1.symm,
        hHash.trans hSource.2.2.symm, hRoot⟩
      key := hKey
      keys := hKeys
      indices := hIndices
      leaves := hLeaves
      tree := fun reasons => rebuildTree_reasons.mp hTree }
  · intro h
    obtain ⟨hSuccess, hAnchor, hUpdate, hID, hResolution⟩ := h.requestID
    refine ⟨⟨h.order, ?_, h.key, hDigest, h.indices, h.leaves, h.tree _⟩, ?_⟩
    · exact ⟨hSuccess.trans hID.symm, hResolution.trans hID.symm, hAnchor.trans hID.symm,
        hUpdate.trans hID.symm, h.success_source.1.trans h.source.1.symm,
        h.success_source.2.1.trans h.source.2.1.symm, h.success_source.2.2.1.trans h.source.2.2.symm,
        h.success_source.2.2.2, h.keys⟩
    · exact ⟨hID.symm, h.requester.symm, h.source.1.symm, h.source.2.1.symm, h.source.2.2.symm⟩

/-- What the home checks say. -/
theorem verifyNewDependency_bound {scan : ReceiptScan} {event : DependencyRecorded}
    {witness : WitnessMaterial} {input : VerificationReceiptInput}
    (hInput : input = receiptInput config header request receipt) :
    (verifySuccessAndResolution keccak input.request success.2 resolution.2 = .ok () ∧
        verifyNewDependency keccak input scan success resolution = .ok (event, witness)) ↔
      ∃ dependency anchor dependencyUpdate siblings,
        (scan.dependency = some dependency ∧ scan.updates = [anchor, dependencyUpdate]) ∧
        event = dependency.2 ∧ witness = ⟨dependency.2.leafIndex, siblings⟩ ∧
        BoundEvents keccak config header request success anchor dependencyUpdate dependency
          resolution siblings := by
  simp only [verifySuccessAndResolution, verifyNewDependency, require_eq_ok, exists_const,
    bind_eq_ok, pure_eq_ok, Prod.exists, ReceiptScan.newDependency_eq_ok, Prod.mk.injEq]
  subst hInput
  constructor
  · rintro ⟨⟨hBinds, hSuccessKey⟩, log, dependency, anchorLog, anchor, updateLog, dependencyUpdate,
      hEvents, hOrder, hDependency, hKey, hAnchor, hAnchorLeaf, hUpdate, siblings, hTree, hEvent,
      hWitness⟩
    obtain ⟨hSuccessID, hChain, hHeight, hHash, hKeys, hResolutionID, hRequester⟩ := hBinds
    obtain ⟨hID, hSourceChain, hSourceHeight, hSourceHash, hRoot, hSuccessKeys, hResolutionKey⟩ :=
      hDependency
    obtain ⟨hUpdateID, hUpdateIndex, hNotAnchor, hIndex, hLeaf, hOld, hHome⟩ := hUpdate
    refine ⟨log, dependency, anchorLog, anchor, updateLog, dependencyUpdate, siblings, hEvents,
      hEvent.symm, hWitness.symm, ?_⟩
    exact {
      order := hOrder
      requestID := ⟨hSuccessID, hAnchor.1, hUpdateID, hID, hResolutionID⟩
      requester := hRequester
      source := ⟨hSourceChain, hSourceHeight, hSourceHash⟩
      success_source := ⟨hChain, hHeight, hHash, hRoot.symm⟩
      key := hKey
      keys := ⟨hSuccessKeys.symm, hResolutionKey.symm⟩
      indices := ⟨hAnchor.2.1, hAnchor.2.2, hUpdateIndex, hNotAnchor, hIndex⟩
      leaves := ⟨hAnchorLeaf, hLeaf, hOld, hHome⟩
      tree := fun reasons => rebuildTree_reasons.mp hTree }
  · rintro ⟨log, dependency, anchorLog, anchor, updateLog, dependencyUpdate, siblings, hEvents,
      hEvent, hWitness, h⟩
    obtain ⟨hSuccessID, hAnchorID, hUpdateID, hID, hResolutionID⟩ := h.requestID
    obtain ⟨hChain, hHeight, hHash, hRoot⟩ := h.success_source
    refine ⟨⟨⟨hSuccessID, hChain, hHeight, hHash, h.keys.1.trans h.keys.2.symm, hResolutionID,
      h.requester⟩, ?_⟩, log, dependency, anchorLog, anchor, updateLog, dependencyUpdate, hEvents,
      h.order, ⟨hID, h.source.1, h.source.2.1, h.source.2.2, hRoot.symm, h.keys.1.symm,
        h.keys.2.symm⟩, h.key, ⟨hAnchorID, h.indices.1, h.indices.2.1⟩, h.leaves.1,
      ⟨hUpdateID, h.indices.2.2.1, h.indices.2.2.2.1, h.indices.2.2.2.2, h.leaves.2⟩, siblings,
      h.tree _, hEvent.symm, hWitness.symm⟩
    rw [h.keys.1, h.key, hChain, hHeight, hHash, hRoot, h.source.1, h.source.2.1, h.source.2.2]

/-- The receipt is of a successful transaction in the block of the header. -/
structure InBlock (header : BlockHeader) (receipt : TxReceipt) : Prop where
  status : receipt.status = receiptStatusSuccessful
  blockHash : receipt.blockHash = header.hash
  blockNumber : receipt.blockNumber = some (header.number.toNat : ℤ)
  transactionIndex : receipt.transactionIndex.toNat < 2 ^ 32

/-- The five events of a receipt with a new dependency, as the home loop finds them, with the facts
about them. -/
structure NewDependencyReceipt (keccak : Keccak) (config : RemoteDependencyConfig)
    (header : BlockHeader) (request : Request) (receipt : TxReceipt) (scan : ReceiptScan)
    (success : ReceiptLog × VerificationSucceeded)
    (anchor dependencyUpdate : ReceiptLog × TrustRootUpdated)
    (dependency : ReceiptLog × DependencyRecorded) (resolution : ReceiptLog × RequestResolved)
    (siblings : List Bytes32) : Prop where
  inBlock : InBlock header receipt
  loop : receipt.logs.foldlM (scanLog (receiptInput config header request receipt) receipt) {} =
    .ok scan
  events : ScannedEvents scan success anchor dependencyUpdate dependency resolution
  bound : BoundEvents keccak config header request success anchor dependencyUpdate dependency
    resolution siblings

theorem checkReceiptContext_eq_ok (hHash : header.hash ≠ 0) (hParent : header.parentHash ≠ 0)
    (hTx : receipt.txHash ≠ 0) {receipt' : TxReceipt} :
    checkReceiptContext (receiptInput config header request receipt) = .ok receipt' ↔
      receipt' = receipt ∧ InBlock header receipt := by
  have hContext : checkReceiptContext (receiptInput config header request receipt) = .ok receipt' ↔
      (config.gateway ≠ 0 ∧ header.hash ≠ 0 ∧ header.parentHash ≠ 0) ∧
      (config.merkleDepth ≠ 0 ∧ config.merkleDepth ≤ maxTreeDepth) ∧
      (receipt.status = receiptStatusSuccessful ∧ receipt.txHash ≠ 0 ∧
        receipt.blockHash = header.hash ∧ receipt.blockNumber = some (header.number.toNat : ℤ) ∧
        receipt.transactionIndex.toNat < 2 ^ 32) ∧ receipt = receipt' := by
    unfold checkReceiptContext receiptInput
    simp only [bind_eq_ok, require_eq_ok, exists_const, pure_eq_ok]
  rw [hContext]
  constructor
  · rintro ⟨-, -, ⟨hStatus, -, hBlock, hNumber, hIndex⟩, rfl⟩
    exact ⟨rfl, hStatus, hBlock, hNumber, hIndex⟩
  · rintro ⟨rfl, hStatus, hBlock, hNumber, hIndex⟩
    exact ⟨⟨config.gateway_ne, hHash, hParent⟩, ⟨config.depth_ne, config.depth_le⟩,
      ⟨hStatus, hTx, hBlock, hNumber, hIndex⟩, rfl⟩

/-- What the home verifier accepts as a new dependency. -/
theorem home_accepts_iff (hHash : header.hash ≠ 0) (hParent : header.parentHash ≠ 0)
    (hTx : receipt.txHash ≠ 0) {bundle : VerificationReceiptBundle} :
    (verifyVerificationReceipt keccak (receiptInput config header request receipt) = .ok bundle ∧
        bundle.resolution.newDependency) ↔
      ∃ scan success anchor dependencyUpdate dependency resolution siblings,
        NewDependencyReceipt keccak config header request receipt scan success anchor
          dependencyUpdate dependency resolution siblings ∧
        bundle = ⟨success.2, resolution.2, some dependency.2,
          some ⟨dependency.2.leafIndex, siblings⟩, scan.logs⟩ := by
  rw [verifyVerificationReceipt, bind_eq_ok]
  constructor
  · rintro ⟨⟨receipt', hContext, hRun⟩, hNew⟩
    obtain ⟨rfl, hInBlock⟩ := (checkReceiptContext_eq_ok hHash hParent hTx).mp hContext
    obtain ⟨scan, hLoop, hRun⟩ := bind_eq_ok.mp hRun
    obtain ⟨⟨success, resolution⟩, hEnds, hRun⟩ := bind_eq_ok.mp hRun
    obtain ⟨hSuccess, hResolution, -⟩ := ReceiptScan.ends_eq_ok.mp hEnds
    obtain ⟨hBinds, hRun⟩ := check_bind_eq_ok.mp hRun
    unfold finishReceipt at hRun
    split at hRun
    · rename_i hNewEvent
      obtain ⟨⟨event, witness⟩, hVerify, hRun⟩ := bind_eq_ok.mp hRun
      cases hRun
      obtain ⟨dependency, anchor, dependencyUpdate, siblings, ⟨hDependency, hUpdates⟩, rfl, rfl,
        hBound⟩ := (verifyNewDependency_bound rfl).mp ⟨hBinds, hVerify⟩
      exact ⟨scan, success, anchor, dependencyUpdate, dependency, resolution, siblings,
        ⟨hInBlock, hLoop, ⟨hSuccess, hUpdates, hDependency, hResolution, hNewEvent⟩, hBound⟩, rfl⟩
    · rename_i hNewEvent
      obtain ⟨-, hRun⟩ := check_bind_eq_ok.mp hRun
      cases hRun
      exact absurd hNew hNewEvent
  · rintro ⟨scan, success, anchor, dependencyUpdate, dependency, resolution, siblings, h, rfl⟩
    have hInput : receiptInput config header request receipt =
        receiptInput config header request receipt := rfl
    obtain ⟨hBinds, hVerify⟩ := (verifyNewDependency_bound hInput).mpr ⟨dependency, anchor,
      dependencyUpdate, siblings, ⟨h.events.dependency_eq, h.events.updates_eq⟩, rfl, rfl, h.bound⟩
    have hOrder : success.1.index < resolution.1.index :=
      h.bound.order.1.trans (h.bound.order.2.1.trans (h.bound.order.2.2.1.trans h.bound.order.2.2.2))
    refine ⟨⟨receipt, (checkReceiptContext_eq_ok hHash hParent hTx).mpr ⟨rfl, h.inBlock⟩, ?_⟩,
      h.events.new⟩
    refine bind_eq_ok.mpr ⟨scan, h.loop, bind_eq_ok.mpr ⟨(success, resolution),
      ReceiptScan.ends_eq_ok.mpr ⟨h.events.success_eq, h.events.resolution_eq, hOrder⟩, ?_⟩⟩
    refine check_bind_eq_ok.mpr ⟨hBinds, ?_⟩
    rw [finishReceipt, if_pos h.events.new]
    exact bind_eq_ok.mpr ⟨_, hVerify, rfl⟩

theorem receiptLocator_eq_some {locator : Locator} :
    receiptLocator keccak config header receipt = some locator ↔
      ∃ item event, firstDependencyLog config.gateway receipt.logs = some item ∧
        parseDependencyRecorded item.log = .ok event ∧
        locator = logLocator config header receipt item
          (canonicalDependencyPayloadDigest keccak event) := by
  unfold receiptLocator
  cases firstDependencyLog config.gateway receipt.logs with
  | none => simp
  | some item =>
      cases hParse : parseDependencyRecorded item.log with
      | error e => simp [Except.toOption, hParse]
      | ok event => simp [Except.toOption, hParse, eq_comm]

/-- The locator of the receipt is the one of the dependency the home loop has found. -/
theorem locator_of_scanned {scan : ReceiptScan}
    (hScanned : DependencyScanned config.gateway receipt.logs scan)
    (hDependency : scan.dependency = some dependency) :
    receiptLocator keccak config header receipt =
      some (logLocator config header receipt dependency.1
        (canonicalDependencyPayloadDigest keccak dependency.2)) := by
  have hFirst := hScanned.first
  rw [hDependency, Option.map_some] at hFirst
  exact receiptLocator_eq_some.mpr
    ⟨dependency.1, dependency.2, hFirst, hScanned.parsed dependency hDependency, rfl⟩

theorem inBlock_iff {item : ReceiptLog} {digest : Bytes32} :
    (receipt.status = receiptStatusSuccessful ∧
        receipt.txHash = (logLocator config header receipt item digest).txHash ∧
        receipt.blockHash = (logLocator config header receipt item digest).blockHash ∧
        receipt.blockNumber =
          some ((logLocator config header receipt item digest).number.toNat : ℤ) ∧
        receipt.transactionIndex.toNat < 2 ^ 32 ∧
        receipt.transactionIndex.toUInt32 = (logLocator config header receipt item digest).txIndex) ↔
      InBlock header receipt := by
  rw [logLocator_number]
  constructor
  · rintro ⟨hStatus, -, hBlock, hNumber, hIndex, -⟩
    exact ⟨hStatus, hBlock, hNumber, hIndex⟩
  · rintro ⟨hStatus, hBlock, hNumber, hIndex⟩
    exact ⟨hStatus, rfl, hBlock, hNumber, hIndex, rfl⟩

/-- What the remote verifier accepts for the locator of the receipt. -/
theorem remote_accepts_iff (hRemoved : ∀ item, some item ∈ receipt.logs → item.removed = false)
    (hIndex : ∀ item, some item ∈ receipt.logs → item.index.toNat < 2 ^ 32)
    {bundle : ValidatedReceiptBundle} :
    (∃ locator, receiptLocator keccak config header receipt = some locator ∧
        validateReceipt keccak config locator header receipt = .ok bundle ∧
        bindRequest request.requested bundle = .ok ()) ↔
      ∃ scan success anchor dependencyUpdate dependency resolution siblings,
        NewDependencyReceipt keccak config header request receipt scan success anchor
          dependencyUpdate dependency resolution siblings ∧
        bundle = ⟨success.2, dependency.2, resolution.2, siblings⟩ := by
  constructor
  · rintro ⟨locator, hLocator, hValidate, hBind⟩
    obtain ⟨item, event, hFirst, hParse, rfl⟩ := receiptLocator_eq_some.mp hLocator
    have hSame : SameReceipt config (logLocator config header receipt item
        (canonicalDependencyPayloadDigest keccak event))
        (receiptInput config header request receipt) receipt :=
      ⟨rfl, rfl, logLocator_number, rfl⟩
    rw [validateReceipt, check_bind_eq_ok, require_eq_ok, inBlock_iff] at hValidate
    obtain ⟨hInBlock, hRun⟩ := hValidate
    obtain ⟨remote, hLoop, hRun⟩ := bind_eq_ok.mp hRun
    obtain ⟨events, hComplete, hRun⟩ := bind_eq_ok.mp hRun
    obtain ⟨siblings, hCheck, hRun⟩ := bind_eq_ok.mp hRun
    cases hRun
    have hStart : ({} : RemoteScan) = ReceiptScan.remote {} := rfl
    rw [hStart] at hLoop
    obtain ⟨-, scan, hScan, rfl⟩ := (scan_remote hSame hRemoved).mp hLoop
    obtain ⟨success, anchor, dependencyUpdate, dependency, resolution, hEvents, rfl⟩ :=
      complete_remote.mp hComplete
    have hOwn : receiptLocator keccak config header receipt =
        some (logLocator config header receipt dependency.1
          (canonicalDependencyPayloadDigest keccak dependency.2)) :=
      locator_of_scanned (dependencyScanned hScan) hEvents.dependency_eq
    rw [hLocator] at hOwn
    have hDigest := congrArg (Option.map Locator.payloadDigest) hOwn
    simp only [Option.map_some, Option.some.injEq] at hDigest
    have hBound : BoundEvents keccak config header request success anchor dependencyUpdate
        dependency resolution siblings := (check_bound hDigest.symm).mp ⟨hCheck, hBind⟩
    exact ⟨scan, success, anchor, dependencyUpdate, dependency, resolution, siblings,
      ⟨hInBlock, hScan, hEvents, hBound⟩, rfl⟩
  · rintro ⟨scan, success, anchor, dependencyUpdate, dependency, resolution, siblings, h, rfl⟩
    have hScanned := dependencyScanned h.loop
    refine ⟨_, locator_of_scanned hScanned h.events.dependency_eq, ?_⟩
    have hSame : SameReceipt config (logLocator config header receipt dependency.1
        (canonicalDependencyPayloadDigest keccak dependency.2))
        (receiptInput config header request receipt) receipt :=
      ⟨rfl, rfl, logLocator_number, rfl⟩
    have hDigest : canonicalDependencyPayloadDigest keccak dependency.2 =
        (logLocator config header receipt dependency.1
          (canonicalDependencyPayloadDigest keccak dependency.2)).payloadDigest := rfl
    obtain ⟨hCheck, hBind⟩ := (check_bound hDigest).mpr h.bound
    refine ⟨?_, hBind⟩
    -- every dependency log of the Gateway is the one the home loop has found
    have hNamed : ∀ item, some item ∈ receipt.logs → item.address = config.gateway →
        Named (logLocator config header receipt dependency.1
          (canonicalDependencyPayloadDigest keccak dependency.2)) item := by
      intro item hMem hAddress hItem
      have hOnly := hScanned.only item hMem hAddress hItem
      rw [h.events.dependency_eq, Option.map_some, Option.some.injEq] at hOnly
      rw [← hOnly] at hMem ⊢
      exact ⟨hIndex dependency.1 hMem, rfl⟩
    rw [validateReceipt, check_bind_eq_ok, require_eq_ok, inBlock_iff]
    refine ⟨h.inBlock, bind_eq_ok.mpr ⟨scan.remote, ?_, bind_eq_ok.mpr ⟨_, complete_remote.mpr
      ⟨success, anchor, dependencyUpdate, dependency, resolution, h.events, rfl⟩, ?_⟩⟩⟩
    · exact (scan_remote hSame hRemoved).mpr ⟨hNamed, scan, h.loop, rfl⟩
    · exact bind_eq_ok.mpr ⟨siblings, hCheck, rfl⟩

/-- A receipt determines its events and the siblings. -/
theorem NewDependencyReceipt.unique {scan scan' : ReceiptScan}
    {success' : ReceiptLog × VerificationSucceeded}
    {anchor' dependencyUpdate' : ReceiptLog × TrustRootUpdated}
    {dependency' : ReceiptLog × DependencyRecorded} {resolution' : ReceiptLog × RequestResolved}
    {siblings' : List Bytes32}
    (h : NewDependencyReceipt keccak config header request receipt scan success anchor dependencyUpdate dependency resolution siblings)
    (h' : NewDependencyReceipt keccak config header request receipt scan' success' anchor' dependencyUpdate' dependency' resolution' siblings') :
    dependency' = dependency ∧ resolution' = resolution ∧ siblings' = siblings := by
  obtain rfl : scan' = scan := Except.ok.inj (h'.loop.symm.trans h.loop)
  obtain rfl : dependency' = dependency :=
    Option.some.inj (h'.events.dependency_eq.symm.trans h.events.dependency_eq)
  obtain rfl : resolution' = resolution :=
    Option.some.inj (h'.events.resolution_eq.symm.trans h.events.resolution_eq)
  have hUpdates := h'.events.updates_eq.symm.trans h.events.updates_eq
  simp only [List.cons.injEq, and_true] at hUpdates
  obtain ⟨rfl, rfl⟩ := hUpdates
  have hTree := (h'.bound.tree ⟨"", "", ""⟩).symm.trans (h.bound.tree ⟨"", "", ""⟩)
  exact ⟨rfl, rfl, Except.ok.inj hTree⟩

/-- The indexer comes to the locator of the receipt. -/
theorem NewDependencyReceipt.bundleLocator {scan : ReceiptScan} {witness : Option WitnessMaterial}
    (h : NewDependencyReceipt keccak config header request receipt scan success anchor dependencyUpdate dependency resolution siblings) :
    Mapnode.bundleLocator keccak config header receipt
        ⟨success.2, resolution.2, some dependency.2, witness, scan.logs⟩ =
      receiptLocator keccak config header receipt := by
  have hScanned := dependencyScanned h.loop
  have hKept := hScanned.kept
  rw [h.events.dependency_eq, Option.map_some] at hKept
  have hOwn : receiptLocator keccak config header receipt =
      some (logLocator config header receipt dependency.1
        (canonicalDependencyPayloadDigest keccak dependency.2)) :=
    locator_of_scanned hScanned h.events.dependency_eq
  rw [hOwn, payloadDigest_eq h.bound.key]
  simp [Mapnode.bundleLocator, hKept]

end Verifiers

/-! ## A receipt with a new dependency -/

namespace ReceiptToy

/-- A constant hash: every key, leaf and root is five. -/
def keccak : Keccak := fun _ => 5

/-- A Gateway of depth one. -/
def config : RemoteDependencyConfig where
  chainID := 1
  gateway := 10
  merkleDepth := 1
  gateway_ne := by decide
  depth_ne := by decide
  depth_le := by decide

def header : BlockHeader := ⟨5, 1005, 1004⟩

def request : Request := ⟨⟨9, 1, 10, 7, 0, 2, 3, 1003⟩, .observed, "", 1⟩

/-- A log of the only transaction of the block. -/
def item (index : UInt64) (event : Contracts.GatewayEvent) : ReceiptLog :=
  ⟨10, 5, 1005, 501, 0, index, false, abiLog event⟩

/-- The five events of a direct verification that records a dependency. -/
def receipt : TxReceipt where
  status := 1
  txHash := 501
  blockHash := 1005
  blockNumber := some 5
  transactionIndex := 0
  logs := [
    some (item 0 (.directVerificationSucceeded 9 2 3 1003 44 5)),
    some (item 1 (.trustRootUpdated 9 0 5 44 5 true)),
    some (item 2 (.trustRootUpdated 9 1 5 5 5 false)),
    some (item 3 (.dependencyRecorded 5 9 2 3 1003 44 1)),
    some (item 4 (.requestResolved 9 7 5 true 5))]

/-- The home verifier accepts the receipt. -/
theorem accepted : ((verifyVerificationReceipt keccak
    (receiptInput config header request receipt)).toOption.any
      (·.resolution.newDependency)) = true := by
  decide +kernel

end ReceiptToy

/-- The home verifier accepts a receipt as a new dependency exactly where the remote one accepts it
for the locator of its dependency log, and then both have the same dependency, home root, leaf index,
siblings, dependency key and evidence identifier. -/
theorem home_remote_agree (keccak : Keccak) (config : RemoteDependencyConfig) (header : BlockHeader)
    (request : Request) (receipt : TxReceipt) (hHash : header.hash ≠ 0)
    (hParent : header.parentHash ≠ 0) (hTx : receipt.txHash ≠ 0)
    (hIndex : ∀ item, some item ∈ receipt.logs → item.index.toNat < 2 ^ 32)
    (hRemoved : ∀ item, some item ∈ receipt.logs → item.removed = false) :
    ((∃ bundle, verifyVerificationReceipt keccak (receiptInput config header request receipt) =
          .ok bundle ∧ bundle.resolution.newDependency) ↔
        ∃ bundle locator, receiptLocator keccak config header receipt = some locator ∧
          validateReceipt keccak config locator header receipt = .ok bundle ∧
          bindRequest request.requested bundle = .ok ()) ∧
      ∀ home remote locator,
        verifyVerificationReceipt keccak (receiptInput config header request receipt) = .ok home →
        home.resolution.newDependency →
        receiptLocator keccak config header receipt = some locator →
        validateReceipt keccak config locator header receipt = .ok remote →
        bindRequest request.requested remote = .ok () →
          home.dependency = some remote.dependency ∧
          home.resolution.homeTrustRoot = remote.resolution.homeTrustRoot ∧
          home.witness = some ⟨remote.dependency.leafIndex, remote.siblings⟩ ∧
          (remote.dependency.verified keccak).dependencyKey = remote.dependency.dependencyKey ∧
          ∃ homeLocator, bundleLocator keccak config header receipt home = some homeLocator ∧
            homeLocator.computeID keccak = locator.computeID keccak := by
  constructor
  · constructor
    · rintro ⟨bundle, hHome⟩
      obtain ⟨scan, success, anchor, dependencyUpdate, dependency, resolution, siblings, h, -⟩ :=
        (home_accepts_iff hHash hParent hTx).mp hHome
      exact ⟨_, (remote_accepts_iff hRemoved hIndex).mpr
        ⟨scan, success, anchor, dependencyUpdate, dependency, resolution, siblings, h, rfl⟩⟩
    · rintro ⟨bundle, hRemote⟩
      obtain ⟨scan, success, anchor, dependencyUpdate, dependency, resolution, siblings, h, -⟩ :=
        (remote_accepts_iff hRemoved hIndex).mp hRemote
      exact ⟨_, (home_accepts_iff hHash hParent hTx).mpr
        ⟨scan, success, anchor, dependencyUpdate, dependency, resolution, siblings, h, rfl⟩⟩
  · intro home remote locator hHome hNew hLocator hValidate hBind
    obtain ⟨scan, success, anchor, dependencyUpdate, dependency, resolution, siblings, h, rfl⟩ :=
      (home_accepts_iff hHash hParent hTx).mp ⟨hHome, hNew⟩
    obtain ⟨scan', success', anchor', dependencyUpdate', dependency', resolution', siblings', h',
      rfl⟩ := (remote_accepts_iff hRemoved hIndex).mp ⟨locator, hLocator, hValidate, hBind⟩
    obtain ⟨rfl, rfl, rfl⟩ := h.unique h'
    exact ⟨rfl, rfl, rfl, h.bound.key.symm, locator, h.bundleLocator.trans hLocator, rfl⟩

theorem home_remote_agree_toy :
    ∃ bundle locator, receiptLocator ReceiptToy.keccak ReceiptToy.config ReceiptToy.header
        ReceiptToy.receipt = some locator ∧
      validateReceipt ReceiptToy.keccak ReceiptToy.config locator ReceiptToy.header
        ReceiptToy.receipt = .ok bundle ∧
      bindRequest ReceiptToy.request.requested bundle = .ok () := by
  refine (home_remote_agree ReceiptToy.keccak ReceiptToy.config ReceiptToy.header
    ReceiptToy.request ReceiptToy.receipt (by decide) (by decide) (by decide) ?_ ?_).1.mp ?_
  · intro item hMem
    simp only [ReceiptToy.receipt, ReceiptToy.item, List.mem_cons, Option.some.injEq,
      List.not_mem_nil, or_false] at hMem
    rcases hMem with rfl | rfl | rfl | rfl | rfl
    all_goals decide
  · intro item hMem
    simp only [ReceiptToy.receipt, ReceiptToy.item, List.mem_cons, Option.some.injEq,
      List.not_mem_nil, or_false] at hMem
    rcases hMem with rfl | rfl | rfl | rfl | rfl
    all_goals rfl
  · have hAccepted := ReceiptToy.accepted
    cases hRun : verifyVerificationReceipt ReceiptToy.keccak (receiptInput ReceiptToy.config
        ReceiptToy.header ReceiptToy.request ReceiptToy.receipt) with
    | error e =>
        rw [hRun] at hAccepted
        exact absurd hAccepted Bool.false_ne_true
    | ok bundle =>
        rw [hRun] at hAccepted
        exact ⟨bundle, rfl, hAccepted⟩

end TrustMap.Mapnode
