import TrustMap.Library.Json
import TrustMap.Library.Replacement
import TrustMap.Mapnode.Replay.Path

/-!
The audit texts of a replay path: `pathSegmentsCompactJSON`, and `pathSegmentsLegacyJSON`, which
rewrites the compact text by replacing words in it. Texts are lists of characters.
-/

namespace TrustMap.Mapnode.Replay

open Replacement

/-! ## The texts -/

/-- `uintText`. -/
def uintText (value : UInt64) : List Char :=
  Nat.toDigits 10 value.toNat

/-- `costText`. -/
def costText (value : UInt64) : List Char :=
  uintText value ++ ".0".toList

/-- The text of a block in the audit: its chain and its height. -/
def ReplayBlockKey.text (key : ReplayBlockKey) : List Char :=
  key.chain.toList ++ ':' :: uintText key.height

/-- The local type `segment` of `pathSegmentsCompactJSON`. -/
structure SegmentItem where
  index : UInt64
  fromText : List Char
  toText : List Char
  kind : List Char
  delta : UInt64
  weight : UInt64
  deriving DecidableEq

/-- The item of a segment. -/
def segmentItem (index : ℕ) (edge : ReplayPathSegment) : SegmentItem :=
  let delta := if edge.fromKey.height < edge.toKey.height then edge.toKey.height - edge.fromKey.height
    else edge.fromKey.height - edge.toKey.height
  let item : SegmentItem := {
    index := UInt64.ofNat index
    fromText := edge.fromKey.text
    toText := edge.toKey.text
    kind := "intra".toList
    delta := delta
    weight := edge.weight }
  if edge.kind = .verifiedDependency then { item with kind := "xchain".toList, delta := 0 }
  else item

/-- The items of a path. -/
def segmentItems (path : ReplayPath) : List SegmentItem :=
  path.segments.mapIdx segmentItem

/-- A digit of a Unicode escape. -/
def hexChar (digit : ℕ) : Char :=
  "0123456789abcdef".toList.getD digit '0'

/-- A character as `json.Marshal` writes it in a string. -/
def marshalChar (c : Char) : List Char :=
  if c = '"' ∨ c = '\\' then ['\\', c]
  else if c = Char.ofNat 8 then ['\\', 'b']
  else if c = Char.ofNat 12 then ['\\', 'f']
  else if c = '\n' then ['\\', 'n']
  else if c = '\r' then ['\\', 'r']
  else if c = '\t' then ['\\', 't']
  else if c.toNat < 0x20 ∨ c = '<' ∨ c = '>' ∨ c = '&' ∨ c.toNat = 0x2028 ∨ c.toNat = 0x2029 then
    ['\\', 'u', hexChar (c.toNat / 4096), hexChar (c.toNat / 256 % 16), hexChar (c.toNat / 16 % 16),
      hexChar (c.toNat % 16)]
  else [c]

/-- `json.Marshal` of a string. -/
def marshalString (text : List Char) : List Char :=
  '"' :: (text.flatMap marshalChar ++ ['"'])

/-- `json.Marshal` of an item. -/
def marshalItem (item : SegmentItem) : List Char :=
  "\x7b\"i\":".toList ++ uintText item.index ++
    ",\"from\":".toList ++ marshalString item.fromText ++
    ",\"to\":".toList ++ marshalString item.toText ++
    ",\"kind\":".toList ++ marshalString item.kind ++
    ",\"delta_h\":".toList ++ uintText item.delta ++
    ",\"w\":".toList ++ uintText item.weight ++ ['\x7d']

/-- `pathSegmentsCompactJSON`. -/
def pathSegmentsCompactJSON (path : ReplayPath) : List Char :=
  '[' :: (List.intercalate [','] ((segmentItems path).map marshalItem) ++ [']'])

/-- A turn of the loop that restores the colons of the nodes. -/
def restoreNode (text : List Char) (node : ReplayBlockKey) : List Char :=
  replaceAll (node.chain.toList ++ ": ".toList ++ uintText node.height)
    (node.chain.toList ++ ":".toList ++ uintText node.height) text

/-- A turn of the loop that writes the weights as floats. -/
def floatWeight (text : List Char) (segment : ReplayPathSegment) : List Char :=
  replaceFirst ("\"w\": ".toList ++ uintText segment.weight)
    ("\"w\": ".toList ++ costText segment.weight) text

/-- `pathSegmentsLegacyJSON`. -/
def pathSegmentsLegacyJSON (path : ReplayPath) : List Char :=
  let compact := pathSegmentsCompactJSON path
  let compact := replaceAll ":".toList ": ".toList compact
  let compact := replaceAll ",".toList ", ".toList compact
  let compact := path.nodes.foldl restoreNode compact
  path.segments.foldl floatWeight compact

/-! ## What the texts have to decode to -/

/-- The record of an item, with the weight written in the given way. -/
def SegmentItem.record (item : SegmentItem) (weight : List Char) : Json.Record :=
  [("i".toList, .number (uintText item.index)), ("from".toList, .string item.fromText),
    ("to".toList, .string item.toText), ("kind".toList, .string item.kind),
    ("delta_h".toList, .number (uintText item.delta)), ("w".toList, .number weight)]

/-- The legacy text decodes to the records of the compact text, with the weights as floats. -/
def LegacyFaithful (path : ReplayPath) : Prop :=
  Json.decode (pathSegmentsCompactJSON path) =
      some ((segmentItems path).map fun item => item.record (uintText item.weight)) ∧
    Json.decode (pathSegmentsLegacyJSON path) =
      some ((segmentItems path).map fun item => item.record (costText item.weight))

instance (path : ReplayPath) : Decidable (LegacyFaithful path) :=
  inferInstanceAs (Decidable (_ ∧ _))

/-- A chain name that `json.Marshal` writes as it is and that has neither a colon nor a comma. -/
def PlainName (chain : String) : Prop :=
  chain ≠ "" ∧ ∀ c ∈ chain.toList, marshalChar c = [c] ∧ c ≠ ':' ∧ c ≠ ','

/-- No weight is a decimal prefix of the weight of an earlier segment; in particular no weight is
repeated. -/
def NoPrefixWeights (path : ReplayPath) : Prop :=
  path.segments.Pairwise fun earlier later => ¬ uintText later.weight <+: uintText earlier.weight

end TrustMap.Mapnode.Replay
