import TrustMap.Library.KeyTree
import TrustMap.Library.Table
import TrustMap.Library.Words
import TrustMap.Mapnode.Replay.CostProfile

/-!
The graph of a replay, `ReplayTrustView`. Its nodes are the blocks that have been activated. Blocks of
one chain that are next to each other are joined in both directions, and every verified dependency
adds an edge. The nodes are numbered in the order of their activation.
-/

namespace TrustMap.Mapnode.Replay

open Checks

/-- `mixHeight`. -/
def mixHeight (value : UInt64) : UInt64 :=
  let value := value + 0x9e3779b97f4a7c15
  let value := (value ^^^ (value >>> 30)) * 0xbf58476d1ce4e5b9
  let value := (value ^^^ (value >>> 27)) * 0x94d049bb133111eb
  value ^^^ (value >>> 31)

/-- `heightPriorityLess`; the priority of a node is `mixHeight` of its key. -/
def heightPriorityLess (left right : UInt64) : Bool :=
  mixHeight left < mixHeight right || (mixHeight left = mixHeight right && left < right)

/-- An entry of the map `adjacency`. -/
structure AdjacencyRow where
  fromKey : ReplayBlockKey
  toKey : ReplayBlockKey
  edge : ReplayEdge
  deriving DecidableEq

/-- The ends of an edge. -/
def AdjacencyRow.ends (row : AdjacencyRow) : ReplayBlockKey × ReplayBlockKey :=
  (row.fromKey, row.toKey)

/-- `ReplayTrustView`. A chain without an index has an empty one. -/
structure ReplayTrustView where
  profile : CostProfile
  heights : String → KeyTree UInt64
  adjacency : Table AdjacencyRow.ends
  nodeIDs : ReplayBlockKey → Option ℕ
  nodeKeys : List ReplayBlockKey
  edgeCount : UInt64
  crossEdgesAdded : UInt64

namespace ReplayTrustView

/-- `NewReplayTrustView`. -/
def new (profile : CostProfile) : Except ReplayError ReplayTrustView := do
  profile.validate
  return {
    profile := profile
    heights := fun _ => .leaf
    adjacency := .empty
    nodeIDs := fun _ => none
    nodeKeys := []
    edgeCount := 0
    crossEdgesAdded := 0 }

/-- `Edge`, on canonical keys. -/
def edge (view : ReplayTrustView) (fromKey toKey : ReplayBlockKey) : Option ReplayEdge :=
  (view.adjacency.find? (fromKey, toKey)).map (·.edge)

theorem edge_eq_some {view : ReplayTrustView} {fromKey toKey : ReplayBlockKey} {edge : ReplayEdge} :
    view.edge fromKey toKey = some edge ↔
      (⟨fromKey, toKey, edge⟩ : AdjacencyRow) ∈ view.adjacency.rows := by
  rw [ReplayTrustView.edge, Option.map_eq_some_iff]
  constructor
  · rintro ⟨row, hFind, rfl⟩
    obtain ⟨hMem, hEnds⟩ := Table.find?_eq_some.mp hFind
    obtain ⟨rfl, rfl⟩ := Prod.mk.inj hEnds
    exact hMem
  · intro hMem
    exact ⟨_, Table.find?_eq_some.mpr ⟨hMem, rfl⟩, rfl⟩

/-- `NodeCount`. -/
def nodeCount (view : ReplayTrustView) : UInt64 :=
  UInt64.ofNat view.nodeKeys.length

/-- `setEdgeLocked`. -/
def setEdge (view : ReplayTrustView) (row : AdjacencyRow) : ReplayTrustView :=
  { view with
    adjacency := view.adjacency.upsert row
    edgeCount :=
      if (view.edge row.fromKey row.toKey).isSome then view.edgeCount else view.edgeCount + 1 }

/-- `deleteEdgeLocked`. -/
def deleteEdge (view : ReplayTrustView) (fromKey toKey : ReplayBlockKey) : ReplayTrustView :=
  { view with
    adjacency := view.adjacency.filter fun row => row.ends ≠ (fromKey, toKey)
    edgeCount :=
      if (view.edge fromKey toKey).isSome then view.edgeCount - 1 else view.edgeCount }

/-- `appendPair`: the edges between two heights of a chain, up at the direct cost and down at the path
cost. -/
def appendPair (profile : CostProfile) (chain : String) (lower higher : UInt64) :
    Except ReplayError (List AdjacencyRow) := do
  let up ← checkedCost (higher - lower) profile.directStepCost
  let down ← checkedCost (higher - lower) profile.pathStepCost
  return [⟨⟨chain, lower⟩, ⟨chain, higher⟩, ⟨.intraChainUp, up⟩⟩,
    ⟨⟨chain, higher⟩, ⟨chain, lower⟩, ⟨.intraChainDown, down⟩⟩]

/-- The edges to the nearest lower and the nearest higher height that `activateLocked` has pending. -/
def pendingEdges (profile : CostProfile) (key : ReplayBlockKey)
    (predecessor successor : Option UInt64) : Except ReplayError (List AdjacencyRow) := do
  let below ← predecessor.elim (pure []) fun lower =>
    appendPair profile key.chain lower key.height
  let above ← successor.elim (pure []) fun higher =>
    appendPair profile key.chain key.height higher
  return below ++ above

/-- The view with a new node that has no edges yet. -/
def insertNode (view : ReplayTrustView) (key : ReplayBlockKey) : ReplayTrustView :=
  { view with
    heights := Function.update view.heights key.chain
      ((view.heights key.chain).insert heightPriorityLess key.height)
    nodeIDs := Function.update view.nodeIDs key (some view.nodeKeys.length)
    nodeKeys := view.nodeKeys ++ [key] }

/-- Remove the edges between two heights that have been next to each other. -/
def detach (view : ReplayTrustView) (chain : String) :
    Option UInt64 → Option UInt64 → ReplayTrustView
  | some lower, some higher =>
      (view.deleteEdge ⟨chain, lower⟩ ⟨chain, higher⟩).deleteEdge ⟨chain, higher⟩ ⟨chain, lower⟩
  | _, _ => view

/-- `activateLocked` for a key that is not in the index of its chain. -/
def activateKey (view : ReplayTrustView) (key : ReplayBlockKey) :
    Except ReplayError ReplayTrustView := do
  let around := (view.heights key.chain).neighbours key.height none none
  let pending ← pendingEdges view.profile key around.1 around.2
  return pending.foldl setEdge ((view.insertNode key).detach key.chain around.1 around.2)

/-- `Activate`. -/
def activate (lower : Lowercase) (view : ReplayTrustView) (block : ReplayBlock) :
    Except ReplayError ReplayTrustView := do
  let key := block.key lower
  require (key.chain ≠ "") .emptyChain
  if (view.heights key.chain).contains key.height then return view
  else view.activateKey key

/-- `AddVerifiedDependency`. -/
def addVerifiedDependency (lower : Lowercase) (view : ReplayTrustView)
    (fromBlock toBlock : ReplayBlock) : Except ReplayError ReplayTrustView := do
  let view ← view.activate lower fromBlock
  let view ← view.activate lower toBlock
  require (view.crossEdgesAdded ≠ maxUint64) .counterOverflow
  let added := view.setEdge ⟨fromBlock.key lower, toBlock.key lower,
    ⟨.verifiedDependency, view.profile.pathStepCost⟩⟩
  return { added with crossEdgesAdded := added.crossEdgesAdded + 1 }

/-- The views that `Activate` and `AddVerifiedDependency` lead to. A call of the second that fails
after its first activation leaves what that activation leads to. -/
inductive Reachable (lower : Lowercase) (profile : CostProfile) : ReplayTrustView → Prop
  | new {view : ReplayTrustView} (hNew : new profile = .ok view) : Reachable lower profile view
  | activate {view view' : ReplayTrustView} {block : ReplayBlock}
      (hReachable : Reachable lower profile view) (hActivate : view.activate lower block = .ok view') :
      Reachable lower profile view'
  | addVerifiedDependency {view view' : ReplayTrustView} {fromBlock toBlock : ReplayBlock}
      (hReachable : Reachable lower profile view)
      (hAdd : view.addVerifiedDependency lower fromBlock toBlock = .ok view') :
      Reachable lower profile view'

/-! ## What holds in every view -/

/-- The map of the numbers and the list of the keys are inverse to each other. -/
def Numbered (view : ReplayTrustView) : Prop :=
  ∀ key id, view.nodeIDs key = some id ↔ view.nodeKeys[id]? = some key

/-- The weight of an edge follows from its kind and its ends. -/
def Priced (profile : CostProfile) (row : AdjacencyRow) : Prop :=
  match row.edge.kind with
  | .verifiedDependency => row.edge.weight = profile.pathStepCost
  | .intraChainUp => row.toKey.chain = row.fromKey.chain ∧ row.fromKey.height < row.toKey.height ∧
      row.edge.weight.toNat =
        (row.toKey.height.toNat - row.fromKey.height.toNat) * profile.directStepCost.toNat
  | .intraChainDown => row.toKey.chain = row.fromKey.chain ∧ row.toKey.height < row.fromKey.height ∧
      row.edge.weight.toNat =
        (row.fromKey.height.toNat - row.toKey.height.toNat) * profile.pathStepCost.toNat

/-- The nodes are the heights in the indexes, each once, and the edges join nodes. -/
structure Invariant (lower : Lowercase) (profile : CostProfile) (view : ReplayTrustView) : Prop where
  profile_eq : view.profile = profile
  profileValid : profile.Valid
  ordered : ∀ chain, (view.heights chain).Ordered
  indexed : ∀ key, key ∈ view.nodeKeys ↔ key.height ∈ (view.heights key.chain).toList
  nodup : view.nodeKeys.Nodup
  numbered : view.Numbered
  canonical : ∀ key ∈ view.nodeKeys, canonicalKey lower key = key
  joined : ∀ row ∈ view.adjacency.rows, row.fromKey ∈ view.nodeKeys ∧ row.toKey ∈ view.nodeKeys
  priced : ∀ row ∈ view.adjacency.rows, Priced profile row

section Invariant

variable {lower : Lowercase} {profile : CostProfile} {view view' : ReplayTrustView}

theorem Invariant.positive (h : view.Invariant lower profile) :
    ∀ row ∈ view.adjacency.rows, 0 < row.edge.weight.toNat := by
  intro row hRow
  have hPriced := h.priced row hRow
  unfold Priced at hPriced
  split at hPriced
  · rw [hPriced]
    exact h.profileValid.path
  · obtain ⟨-, hLess, hWeight⟩ := hPriced
    rw [hWeight]
    exact Nat.mul_pos (Nat.sub_pos_of_lt hLess) h.profileValid.direct
  · obtain ⟨-, hLess, hWeight⟩ := hPriced
    rw [hWeight]
    exact Nat.mul_pos (Nat.sub_pos_of_lt hLess) h.profileValid.path

theorem new_invariant (hNew : new profile = .ok view) : view.Invariant lower profile := by
  simp only [new, check_bind_eq_ok, pure_eq_ok] at hNew
  obtain ⟨hValid, rfl⟩ := hNew
  refine ⟨rfl, CostProfile.validate_eq_ok.mp hValid, ?_, ?_, ?_, ?_, ?_, ?_, ?_⟩
  all_goals simp [KeyTree.Ordered, KeyTree.toList, Numbered]

theorem Invariant.setEdge (h : view.Invariant lower profile) {row : AdjacencyRow}
    (hFrom : row.fromKey ∈ view.nodeKeys) (hTo : row.toKey ∈ view.nodeKeys)
    (hWeight : Priced profile row) : (view.setEdge row).Invariant lower profile := by
  refine { h with joined := fun other hMem => ?_, priced := fun other hMem => ?_ }
  · rcases Table.mem_upsert.mp hMem with rfl | ⟨hMem, -⟩
    · exact ⟨hFrom, hTo⟩
    · exact h.joined other hMem
  · rcases Table.mem_upsert.mp hMem with rfl | ⟨hMem, -⟩
    · exact hWeight
    · exact h.priced other hMem

theorem Invariant.deleteEdge (h : view.Invariant lower profile) (fromKey toKey : ReplayBlockKey) :
    (view.deleteEdge fromKey toKey).Invariant lower profile := by
  refine { h with joined := fun other hMem => ?_, priced := fun other hMem => ?_ }
  · exact h.joined other (Table.mem_filter_rows.mp hMem).1
  · exact h.priced other (Table.mem_filter_rows.mp hMem).1

theorem Invariant.detach (h : view.Invariant lower profile) (chain : String)
    (predecessor successor : Option UInt64) :
    (view.detach chain predecessor successor).Invariant lower profile := by
  unfold ReplayTrustView.detach
  split
  · exact (h.deleteEdge _ _).deleteEdge _ _
  · exact h

variable {key : ReplayBlockKey}

theorem Invariant.insertNode (h : view.Invariant lower profile) (hNew : key ∉ view.nodeKeys)
    (hCanonical : canonicalKey lower key = key) :
    (view.insertNode key).Invariant lower profile := by
  have hMem : ∀ other, other ∈ view.nodeKeys → other ∈ (view.insertNode key).nodeKeys :=
    fun other hOther => List.mem_append_left _ hOther
  constructor
  case profile_eq => exact h.profile_eq
  case profileValid => exact h.profileValid
  case ordered =>
    intro chain
    by_cases hChain : chain = key.chain
    · subst hChain
      simpa [ReplayTrustView.insertNode] using (h.ordered key.chain).insert
    · simpa [ReplayTrustView.insertNode, Function.update_of_ne hChain] using h.ordered chain
  case indexed =>
    intro other
    simp only [ReplayTrustView.insertNode, List.mem_append, List.mem_singleton, h.indexed other]
    by_cases hChain : other.chain = key.chain
    · rw [hChain, Function.update_self, KeyTree.mem_insert]
      constructor
      · rintro (hOld | rfl)
        · exact Or.inr hOld
        · exact Or.inl rfl
      · rintro (hHeight | hOld)
        · right
          cases other
          cases key
          simp_all
        · exact Or.inl hOld
    · rw [Function.update_of_ne hChain]
      constructor
      · rintro (hOld | rfl)
        · exact hOld
        · exact absurd rfl hChain
      · exact Or.inl
  case nodup => exact List.Nodup.append h.nodup (List.nodup_singleton key) (by simpa using hNew)
  case numbered =>
    intro other id
    have hOld : view.nodeIDs other = some id ↔ view.nodeKeys[id]? = some other := h.numbered other id
    have hFresh : view.nodeKeys[id]? ≠ some key := fun hKey => hNew (List.mem_of_getElem? hKey)
    simp only [ReplayTrustView.insertNode, Function.update_apply]
    rcases Nat.lt_or_ge id view.nodeKeys.length with hLess | hBeyond
    · rw [List.getElem?_append_left hLess]
      split
      · rename_i hSame
        exact iff_of_false (fun hLength => absurd (Option.some.inj hLength) hLess.ne') (hSame ▸ hFresh)
      · exact hOld
    · rw [List.getElem?_append_right hBeyond, List.getElem?_singleton]
      rw [List.getElem?_eq_none hBeyond] at hOld
      by_cases hSame : other = key
      · rw [if_pos hSame, hSame, Option.some.injEq]
        split
        · exact iff_of_true (by omega) rfl
        · exact iff_of_false (by omega) (by simp)
      · rw [if_neg hSame, hOld]
        split
        · exact iff_of_false (by simp) fun hKey => hSame (Option.some.inj hKey).symm
        · rfl
  case canonical =>
    intro other hOther
    rcases List.mem_append.mp hOther with hOld | hSelf
    · exact h.canonical other hOld
    · rwa [List.mem_singleton.mp hSelf]
  case joined => exact fun row hRow => (h.joined row hRow).imp (hMem _) (hMem _)
  case priced => exact h.priced

variable {rows : List AdjacencyRow}

theorem appendPair_eq_ok {chain : String} {low high : UInt64}
    (hPair : appendPair profile chain low high = .ok rows) :
    ∃ up down : UInt64, (high - low).toNat * profile.directStepCost.toNat = up.toNat ∧
      (high - low).toNat * profile.pathStepCost.toNat = down.toNat ∧
      rows = [⟨⟨chain, low⟩, ⟨chain, high⟩, ⟨.intraChainUp, up⟩⟩,
        ⟨⟨chain, high⟩, ⟨chain, low⟩, ⟨.intraChainDown, down⟩⟩] := by
  simp only [appendPair, bind_eq_ok, checkedCost_eq_ok, pure_eq_ok] at hPair
  obtain ⟨up, hUp, down, hDown, rfl⟩ := hPair
  exact ⟨up, down, hUp, hDown, rfl⟩

/-- The pending edges join the new node with its neighbours. -/
theorem mem_pendingEdges {predecessor successor : Option UInt64}
    (hBelow : ∀ low ∈ predecessor, low < key.height)
    (hAbove : ∀ high ∈ successor, key.height < high)
    (hPending : pendingEdges profile key predecessor successor = .ok rows) :
    ∀ row ∈ rows, Priced profile row ∧
      ∃ height, (height ∈ predecessor ∨ height ∈ successor) ∧
        (row.ends = (key, ⟨key.chain, height⟩) ∨ row.ends = (⟨key.chain, height⟩, key)) := by
  have hPair : ∀ low high : UInt64, low < high → ∀ pair,
      appendPair profile key.chain low high = .ok pair → ∀ row ∈ pair, Priced profile row ∧
        (row.ends = (⟨key.chain, low⟩, ⟨key.chain, high⟩) ∨
          row.ends = (⟨key.chain, high⟩, ⟨key.chain, low⟩)) := by
    intro low high hLt pair hOk row hMem
    obtain ⟨up, down, hUp, hDown, rfl⟩ := appendPair_eq_ok hOk
    rw [UInt64.toNat_sub_of_le _ _ (le_of_lt hLt)] at hUp hDown
    rcases List.mem_cons.mp hMem with rfl | hMem
    · exact ⟨⟨rfl, hLt, hUp.symm⟩, Or.inl rfl⟩
    · obtain rfl := List.mem_singleton.mp hMem
      exact ⟨⟨rfl, hLt, hDown.symm⟩, Or.inr rfl⟩
  simp only [pendingEdges, bind_eq_ok, pure_eq_ok] at hPending
  obtain ⟨below, hLow, above, hHigh, rfl⟩ := hPending
  intro row hMem
  rcases List.mem_append.mp hMem with hMem | hMem
  · cases predecessor with
    | none =>
        cases hLow
        cases hMem
    | some low =>
        obtain ⟨hWeight, hEnds⟩ := hPair _ _ (hBelow low rfl) _ hLow row hMem
        exact ⟨hWeight, low, Or.inl rfl, hEnds.symm⟩
  · cases successor with
    | none =>
        cases hHigh
        cases hMem
    | some high =>
        obtain ⟨hWeight, hEnds⟩ := hPair _ _ (hAbove high rfl) _ hHigh row hMem
        exact ⟨hWeight, high, Or.inr rfl, hEnds⟩

theorem Invariant.foldl_setEdge (h : view.Invariant lower profile)
    (hRows : ∀ row ∈ rows, row.fromKey ∈ view.nodeKeys ∧ row.toKey ∈ view.nodeKeys ∧ Priced profile row) :
    (rows.foldl ReplayTrustView.setEdge view).Invariant lower profile := by
  induction rows generalizing view with
  | nil => exact h
  | cons row rows ih =>
      obtain ⟨hFrom, hTo, hWeight⟩ := hRows row List.mem_cons_self
      exact ih (h.setEdge hFrom hTo hWeight) fun other hMem =>
        hRows other (List.mem_cons_of_mem row hMem)

@[simp] theorem detach_nodeKeys (chain : String) (predecessor successor : Option UInt64) :
    (view.detach chain predecessor successor).nodeKeys = view.nodeKeys := by
  unfold detach
  split <;> rfl

/-- A new key is entered between its neighbours. -/
theorem Invariant.activateKey (h : view.Invariant lower profile)
    (hCanonical : canonicalKey lower key = key)
    (hNew : (view.heights key.chain).contains key.height = false)
    (hActivate : view.activateKey key = .ok view') : view'.Invariant lower profile := by
  have hFresh : key ∉ view.nodeKeys := by
    rw [h.indexed, ← KeyTree.contains_iff (h.ordered key.chain), hNew]
    simp
  have hAround := @KeyTree.mem_of_neighbours _ _ key.height (view.heights key.chain) none none
  simp only [ReplayTrustView.activateKey, bind_eq_ok, pure_eq_ok] at hActivate
  obtain ⟨pending, hPending, rfl⟩ := hActivate
  generalize (view.heights key.chain).neighbours key.height none none = around at *
  have hBelow : ∀ low ∈ around.1, low ∈ (view.heights key.chain).toList ∧ low < key.height :=
    fun low hLow => (hAround.1 low hLow).resolve_left (by simp)
  have hAbove : ∀ high ∈ around.2, high ∈ (view.heights key.chain).toList ∧ key.height < high :=
    fun high hHigh => (hAround.2 high hHigh).resolve_left (by simp)
  rw [h.profile_eq] at hPending
  have hPendingRows := mem_pendingEdges (fun low hLow => (hBelow low hLow).2)
    (fun high hHigh => (hAbove high hHigh).2) hPending
  refine ((h.insertNode hFresh hCanonical).detach _ _ _).foldl_setEdge fun row hMem => ?_
  obtain ⟨hWeight, height, hHeight, hEnds⟩ := hPendingRows row hMem
  have hSelf : key ∈ (view.insertNode key).nodeKeys := by simp [ReplayTrustView.insertNode]
  have hOther : (⟨key.chain, height⟩ : ReplayBlockKey) ∈ (view.insertNode key).nodeKeys := by
    refine List.mem_append_left _ ((h.indexed _).mpr ?_)
    rcases hHeight with hLow | hHigh
    · exact (hBelow height hLow).1
    · exact (hAbove height hHigh).1
  rw [detach_nodeKeys]
  rcases hEnds with hEnds | hEnds
  · obtain ⟨hFrom, hTo⟩ := Prod.mk.inj hEnds
    exact ⟨hFrom ▸ hSelf, hTo ▸ hOther, hWeight⟩
  · obtain ⟨hFrom, hTo⟩ := Prod.mk.inj hEnds
    exact ⟨hFrom ▸ hOther, hTo ▸ hSelf, hWeight⟩

@[simp] theorem foldl_setEdge_nodeKeys (rows : List AdjacencyRow) :
    (rows.foldl setEdge view).nodeKeys = view.nodeKeys := by
  induction rows generalizing view with
  | nil => rfl
  | cons row rows ih => exact ih

theorem activateKey_nodeKeys (hActivate : view.activateKey key = .ok view') :
    view'.nodeKeys = view.nodeKeys ++ [key] := by
  simp only [activateKey, bind_eq_ok, pure_eq_ok] at hActivate
  obtain ⟨pending, -, rfl⟩ := hActivate
  simp [insertNode]

/-- What an activation does: the block is a node already, or its key is entered. -/
theorem activate_eq_ok {block : ReplayBlock} :
    view.activate lower block = .ok view' ↔ (block.key lower).chain ≠ "" ∧
      (((view.heights (block.key lower).chain).contains (block.key lower).height = true ∧
          view' = view) ∨
        ((view.heights (block.key lower).chain).contains (block.key lower).height = false ∧
          view.activateKey (block.key lower) = .ok view')) := by
  simp only [activate, check_bind_eq_ok, require_eq_ok]
  refine and_congr_right fun _ => ?_
  cases hContains : (view.heights (block.key lower).chain).contains (block.key lower).height with
  | false => simp
  | true => simp [pure, Except.pure, eq_comm]

theorem Invariant.activate (h : view.Invariant lower profile) {block : ReplayBlock}
    (hActivate : view.activate lower block = .ok view') :
    view'.Invariant lower profile ∧ block.key lower ∈ view'.nodeKeys ∧
      ∀ key ∈ view.nodeKeys, key ∈ view'.nodeKeys := by
  obtain ⟨-, ⟨hContains, rfl⟩ | ⟨hNew, hKey⟩⟩ := activate_eq_ok.mp hActivate
  · refine ⟨h, ?_, fun key hMem => hMem⟩
    rwa [h.indexed, ← KeyTree.contains_iff (h.ordered _)]
  · refine ⟨h.activateKey (canonicalKey_key lower block) hNew hKey, ?_, fun key hMem => ?_⟩
    · simp [activateKey_nodeKeys hKey]
    · simp [activateKey_nodeKeys hKey, hMem]

theorem activateKey_profile (hActivate : view.activateKey key = .ok view') :
    view'.profile = view.profile ∧ view'.crossEdgesAdded = view.crossEdgesAdded := by
  have hFold : ∀ (rows : List AdjacencyRow) (view : ReplayTrustView),
      (rows.foldl setEdge view).profile = view.profile ∧
        (rows.foldl setEdge view).crossEdgesAdded = view.crossEdgesAdded := by
    intro rows
    induction rows with
    | nil => exact fun view => ⟨rfl, rfl⟩
    | cons row rows ih => exact fun view => ih (view.setEdge row)
  simp only [activateKey, bind_eq_ok, pure_eq_ok] at hActivate
  obtain ⟨pending, -, rfl⟩ := hActivate
  obtain ⟨hProfile, hAdded⟩ := hFold pending ((view.insertNode key).detach key.chain
    ((view.heights key.chain).neighbours key.height none none).1
    ((view.heights key.chain).neighbours key.height none none).2)
  rw [hProfile, hAdded]
  unfold detach
  split <;> exact ⟨rfl, rfl⟩

/-- What adding a dependency does: both blocks are activated and the edge is set. -/
theorem addVerifiedDependency_eq_ok {fromBlock toBlock : ReplayBlock} :
    view.addVerifiedDependency lower fromBlock toBlock = .ok view' ↔
      ∃ first second, view.activate lower fromBlock = .ok first ∧
        first.activate lower toBlock = .ok second ∧ second.crossEdgesAdded ≠ maxUint64 ∧
        view' = { second.setEdge ⟨fromBlock.key lower, toBlock.key lower,
          ⟨.verifiedDependency, second.profile.pathStepCost⟩⟩ with
            crossEdgesAdded := second.crossEdgesAdded + 1 } := by
  simp only [addVerifiedDependency, bind_eq_ok, require_eq_ok, pure_eq_ok]
  constructor
  · rintro ⟨first, hFirst, second, hSecond, _, hCounter, rfl⟩
    exact ⟨first, second, hFirst, hSecond, hCounter, rfl⟩
  · rintro ⟨first, second, hFirst, hSecond, hCounter, rfl⟩
    exact ⟨first, hFirst, second, hSecond, (), hCounter, rfl⟩

theorem Invariant.addVerifiedDependency (h : view.Invariant lower profile)
    {fromBlock toBlock : ReplayBlock}
    (hAdd : view.addVerifiedDependency lower fromBlock toBlock = .ok view') :
    view'.Invariant lower profile := by
  obtain ⟨first, second, hFirst, hSecond, -, rfl⟩ := addVerifiedDependency_eq_ok.mp hAdd
  obtain ⟨hInvariant, hFrom, -⟩ := h.activate hFirst
  obtain ⟨hInvariant, hTo, hKept⟩ := hInvariant.activate hSecond
  have hSet : (second.setEdge ⟨fromBlock.key lower, toBlock.key lower,
      ⟨.verifiedDependency, second.profile.pathStepCost⟩⟩).Invariant lower profile :=
    hInvariant.setEdge (hKept _ hFrom) hTo
      (congrArg CostProfile.pathStepCost hInvariant.profile_eq)
  exact { hSet with }

theorem Reachable.invariant (h : Reachable lower profile view) : view.Invariant lower profile := by
  induction h with
  | new hNew => exact new_invariant hNew
  | activate _ hActivate ih => exact (ih.activate hActivate).1
  | addVerifiedDependency _ hAdd ih => exact ih.addVerifiedDependency hAdd

end Invariant

end ReplayTrustView

end TrustMap.Mapnode.Replay
