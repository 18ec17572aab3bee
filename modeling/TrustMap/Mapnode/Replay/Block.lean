import Mathlib.Data.List.DropRight
import TrustMap.Mapnode.Replay.Path

/-!
Blocks of a replayed trace and the names of their chains. Names are compared after
`canonicalChain`, which is `strings.ToLower` of `strings.TrimSpace`.
-/

namespace TrustMap.Mapnode.Replay

/-- `unicode.IsSpace`: the code points with the property White_Space. -/
def isSpace (c : Char) : Bool :=
  c.toNat ∈ [0x9, 0xa, 0xb, 0xc, 0xd, 0x20, 0x85, 0xa0, 0x1680, 0x2028, 0x2029, 0x202f, 0x205f, 0x3000]
    || (0x2000 ≤ c.toNat && c.toNat ≤ 0x200a)

/-- `strings.TrimSpace`. -/
def trimSpace (text : List Char) : List Char :=
  (text.dropWhile isSpace).rdropWhile isSpace

/-- `unicode.ToLower`: the case mapping of the Unicode tables, which maps no letter to a space and
leaves lower case as it is. -/
structure Lowercase where
  toLower : Char → Char
  toLower_toLower : ∀ c, toLower (toLower c) = toLower c
  isSpace_toLower : ∀ c, isSpace (toLower c) = isSpace c

/-- `canonicalChain`. -/
def canonicalChain (lower : Lowercase) (chain : String) : String :=
  String.ofList ((trimSpace chain.toList).map lower.toLower)

theorem trimSpace_trimSpace (text : List Char) : trimSpace (trimSpace text) = trimSpace text := by
  have hHead : (trimSpace text).dropWhile isSpace = trimSpace text := by
    rw [List.dropWhile_eq_self_iff]
    intro hLength
    have hPrefix : trimSpace text <+: text.dropWhile isSpace := List.rdropWhile_prefix ..
    have hPos : 0 < (text.dropWhile isSpace).length :=
      lt_of_lt_of_le hLength hPrefix.length_le
    have hSame : (trimSpace text)[0] = (text.dropWhile isSpace)[0] := hPrefix.getElem hLength
    rw [hSame]
    exact List.dropWhile_get_zero_not isSpace text hPos
  rw [trimSpace, hHead, trimSpace, List.rdropWhile_idempotent]

theorem trimSpace_map (lower : Lowercase) (text : List Char) :
    trimSpace (text.map lower.toLower) = (trimSpace text).map lower.toLower := by
  have hSpace : isSpace ∘ lower.toLower = isSpace := funext lower.isSpace_toLower
  rw [trimSpace, trimSpace, List.dropWhile_map, hSpace, List.rdropWhile, List.rdropWhile,
    ← List.map_reverse, List.dropWhile_map, hSpace, List.map_reverse]

/-- A canonical name is its own canonical name. -/
theorem canonicalChain_canonicalChain (lower : Lowercase) (chain : String) :
    canonicalChain lower (canonicalChain lower chain) = canonicalChain lower chain := by
  have hLower : lower.toLower ∘ lower.toLower = lower.toLower := funext lower.toLower_toLower
  rw [canonicalChain, canonicalChain, String.toList_ofList, trimSpace_map, trimSpace_trimSpace,
    List.map_map, hLower]

/-- `ReplayBlock`. -/
structure ReplayBlock where
  chain : String
  originalHeight : UInt64
  normalizedHeight : UInt64
  deriving DecidableEq

/-- `ReplayBlock.Key`. -/
def ReplayBlock.key (lower : Lowercase) (block : ReplayBlock) : ReplayBlockKey :=
  ⟨canonicalChain lower block.chain, block.originalHeight⟩

/-- `canonicalKey`. -/
def canonicalKey (lower : Lowercase) (key : ReplayBlockKey) : ReplayBlockKey :=
  { key with chain := canonicalChain lower key.chain }

@[simp] theorem canonicalKey_key (lower : Lowercase) (block : ReplayBlock) :
    canonicalKey lower (block.key lower) = block.key lower := by
  simp [canonicalKey, ReplayBlock.key, canonicalChain_canonicalChain]

/-- The case mapping of texts without upper case. -/
def Lowercase.plain : Lowercase where
  toLower := id
  toLower_toLower _ := rfl
  isSpace_toLower _ := rfl

end TrustMap.Mapnode.Replay
