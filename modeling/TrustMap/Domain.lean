import TrustMap.Library.Words

/-!
Values shared by the contracts and the Mapnode: 32-byte words, byte strings and
the hash function. Keccak-256 is a parameter of the whole development. Where a
result needs collision resistance, it assumes `CollisionFree` for the inputs it
names; no function on 256-bit words is injective on all byte strings.
-/

namespace TrustMap

abbrev Bytes := List UInt8

abbrev Bytes32 := BitVec 256

abbrev Uint256 := BitVec 256

abbrev Address := BitVec 160

/-- The type of the hash function. -/
abbrev Keccak := Bytes → Bytes32

/-- `keccak256(abi.encodePacked(left, right))` for two words. -/
def hashPair (keccak : Keccak) (left right : Bytes32) : Bytes32 :=
  keccak (Words.encode [left, right])

/-- `domain.LeafHash`: the leaf binds only the source TrustRoot and the source block
hash. -/
def leafHash (keccak : Keccak) (sourceTrustRoot sourceBlockHash : Bytes32) : Bytes32 :=
  keccak (Words.bytes sourceTrustRoot ++ Words.bytes sourceBlockHash)

theorem leafHash_eq_hashPair (keccak : Keccak) (root blockHash : Bytes32) :
    leafHash keccak root blockHash = hashPair keccak root blockHash := by
  simp [leafHash, hashPair]

/-- `domain.MembershipWitness`. Its constructor and every reader check that there is a
sibling. -/
structure MembershipWitness where
  leafIndex : UInt32
  siblings : List Bytes32
  nonempty : siblings ≠ []

/-- `domain.NewMembershipWitness`; no siblings is `ErrEmptyWitness`. -/
def newMembershipWitness (leafIndex : UInt32) (siblings : List Bytes32) :
    Option MembershipWitness :=
  if h : siblings = [] then none else some ⟨leafIndex, siblings, h⟩

/-- The byte strings hashed for a list of word pairs. -/
def pairInputs (used : List (Bytes32 × Bytes32)) : Set Bytes :=
  {input | ∃ pair ∈ used, input = Words.encode [pair.1, pair.2]}

/-- The hash function has no collision and no zero image among the given inputs. -/
structure CollisionFree (keccak : Keccak) (inputs : Set Bytes) : Prop where
  injOn : Set.InjOn keccak inputs
  ne_zero : ∀ input ∈ inputs, keccak input ≠ 0

variable {keccak : Keccak}

theorem CollisionFree.mono {inputs inputs' : Set Bytes} (h : CollisionFree keccak inputs)
    (hSubset : inputs' ⊆ inputs) :
    CollisionFree keccak inputs' where
  injOn := h.injOn.mono hSubset
  ne_zero input hInput := h.ne_zero input (hSubset hInput)

variable {used : List (Bytes32 × Bytes32)}

theorem mem_pairInputs {pair : Bytes32 × Bytes32} (h : pair ∈ used) :
    Words.encode [pair.1, pair.2] ∈ pairInputs used :=
  ⟨pair, h, rfl⟩

theorem pairInputs_mono {used' : List (Bytes32 × Bytes32)} (h : used' ⊆ used) :
    pairInputs used' ⊆ pairInputs used := by
  rintro input ⟨pair, hPair, rfl⟩
  exact mem_pairInputs (h hPair)

theorem CollisionFree.hashPair_injOn (h : CollisionFree keccak (pairInputs used)) :
    Set.InjOn (Function.uncurry (hashPair keccak)) {pair | pair ∈ used} := by
  rintro ⟨a, b⟩ ha ⟨c, d⟩ hc hEq
  have hEncode := Words.encode_injective
    (h.injOn (mem_pairInputs ha) (mem_pairInputs hc) hEq)
  simpa using hEncode

theorem CollisionFree.hashPair_ne_zero (h : CollisionFree keccak (pairInputs used)) {a b : Bytes32}
    (hMem : (a, b) ∈ used) : hashPair keccak a b ≠ 0 :=
  h.ne_zero _ (mem_pairInputs hMem)

/-- For a given list of pairs collision freedom is a finite check. The check runs over the list: words
are a finite type, and a quantifier would be decided by trying all of them. -/
theorem collisionFree_of_forall
    (hInj : (used.all fun p => used.all fun q => decide (hashPair keccak p.1 p.2 = hashPair keccak q.1 q.2 → p = q)) = true)
    (hZero : (used.all fun p => decide (hashPair keccak p.1 p.2 ≠ 0)) = true) :
    CollisionFree keccak (pairInputs used) where
  injOn := by
    rintro _ ⟨p, hp, rfl⟩ _ ⟨q, hq, rfl⟩ hEq
    have hPair := List.all_eq_true.mp (List.all_eq_true.mp hInj p hp) q hq
    rw [of_decide_eq_true hPair hEq]
  ne_zero := by
    rintro _ ⟨p, hp, rfl⟩
    exact of_decide_eq_true (List.all_eq_true.mp hZero p hp)

end TrustMap
