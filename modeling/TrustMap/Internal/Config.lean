import Mathlib.Algebra.Group.Nat.Defs
import Mathlib.Data.Int.Notation
import Mathlib.Data.Nat.Notation
import TrustMap.Library.Checks

/-!
The topology configuration (`internal/config`): defaults are resolved into every chain, and the
resolved topology is validated. Decoding the YAML text is not modelled; `Document` is what the
decoder produces. Errors carry the field path and the values of the source's message.
-/

namespace TrustMap.Internal.Config

open Checks

/-- `directprofile.ID`. -/
def directProfileID : String := "pow-spv-3m"

def defaultGethImage : String := "ethereum/client-go:v1.17.3"

def defaultFoundryImage : String := "ghcr.io/foundry-rs/foundry:v1.4.4"

structure DirectVerifier where
  profileID : String
  authorizedSignerCount : ℤ
  signatureChecks : ℤ
  hashRounds : ℤ
  deriving DecidableEq, Repr

structure HostPorts where
  http : ℤ
  ws : ℤ
  mapNodeAPI : ℤ
  mapNodeP2P : ℤ
  deriving DecidableEq, Repr

structure Chain where
  name : String
  chainID : UInt64
  blockPeriodSeconds : ℤ
  confirmations : ℤ
  merkleDepth : ℤ
  directVerifier : DirectVerifier
  hostPorts : HostPorts
  deriving DecidableEq, Repr

structure Defaults where
  gethImage : String
  foundryImage : String
  blockPeriodSeconds : ℤ
  confirmations : ℤ
  merkleDepth : ℤ
  directVerifier : DirectVerifier
  hostPortBase : ℤ
  hostPortStride : ℤ
  deriving DecidableEq, Repr

structure Topology where
  version : ℤ
  networkName : String
  defaults : Defaults
  chains : List Chain
  p2pEnabled : Bool
  database : String
  deriving DecidableEq, Repr

structure RawDirectVerifier where
  profileID : String := ""
  authorizedSignerCount : Option ℤ := none
  signatureChecks : Option ℤ := none
  hashRounds : Option ℤ := none

structure RawChain where
  name : String
  chainID : UInt64
  blockPeriodSeconds : Option ℤ := none
  confirmations : Option ℤ := none
  merkleDepth : Option ℤ := none
  directVerifier : RawDirectVerifier := {}
  http : Option ℤ := none
  ws : Option ℤ := none
  mapNodeAPI : Option ℤ := none
  mapNodeP2P : Option ℤ := none

/-- The decoded document; a missing field is empty or `none`. -/
structure Document where
  version : ℤ
  networkName : String
  gethImage : String := ""
  foundryImage : String := ""
  blockPeriodSeconds : Option ℤ := none
  confirmations : Option ℤ := none
  merkleDepth : Option ℤ := none
  directVerifier : RawDirectVerifier := {}
  hostPortBase : Option ℤ := none
  hostPortStride : Option ℤ := none
  chains : List RawChain
  p2pEnabled : Bool := false
  database : String := ""

/-- `valueOrString`. -/
def valueOrString (value fallback : String) : String :=
  if value = "" then fallback else value

/-- `resolve` for the direct verifier of the defaults or of one chain. -/
def resolveDirectVerifier (raw : RawDirectVerifier) (fallback : DirectVerifier) :
    DirectVerifier where
  profileID := valueOrString raw.profileID fallback.profileID
  authorizedSignerCount := raw.authorizedSignerCount.getD fallback.authorizedSignerCount
  signatureChecks := raw.signatureChecks.getD fallback.signatureChecks
  hashRounds := raw.hashRounds.getD fallback.hashRounds

/-- The defaults of the document. -/
def resolveDefaults (raw : Document) : Defaults where
  gethImage := valueOrString raw.gethImage defaultGethImage
  foundryImage := valueOrString raw.foundryImage defaultFoundryImage
  blockPeriodSeconds := raw.blockPeriodSeconds.getD 3
  confirmations := raw.confirmations.getD 2
  merkleDepth := raw.merkleDepth.getD 8
  directVerifier := resolveDirectVerifier raw.directVerifier ⟨directProfileID, 3, 3, 4497⟩
  hostPortBase := raw.hostPortBase.getD 18545
  hostPortStride := raw.hostPortStride.getD 100

/-- The value of a 64-bit `int` expression. -/
def wrap (x : ℤ) : ℤ := x.bmod (2 ^ 64)

/-- The chain at a position of the document. -/
def resolveChain (defaults : Defaults) (index : ℕ) (raw : RawChain) : Chain :=
  let base := wrap (defaults.hostPortBase + index * defaults.hostPortStride)
  { name := raw.name
    chainID := raw.chainID
    blockPeriodSeconds := raw.blockPeriodSeconds.getD defaults.blockPeriodSeconds
    confirmations := raw.confirmations.getD defaults.confirmations
    merkleDepth := raw.merkleDepth.getD defaults.merkleDepth
    directVerifier := resolveDirectVerifier raw.directVerifier defaults.directVerifier
    hostPorts :=
      { http := raw.http.getD base
        ws := raw.ws.getD (wrap (base + 1))
        mapNodeAPI := raw.mapNodeAPI.getD (wrap (base + 2))
        mapNodeP2P := raw.mapNodeP2P.getD (wrap (base + 3)) } }

/-- `resolve`. -/
def resolve (raw : Document) : Topology :=
  let defaults := resolveDefaults raw
  { version := raw.version
    networkName := raw.networkName
    defaults := defaults
    chains := raw.chains.mapIdx (resolveChain defaults)
    p2pEnabled := raw.p2pEnabled
    database := valueOrString raw.database "sqlite" }

/-- The validation errors. -/
inductive ConfigError
  | version (got : ℤ)
  | notDNSSafe (field value : String)
  | chainCount (got : ℕ)
  | image (field image : String)
  | unsupportedImage (field want got : String)
  | stride
  | database (got : String)
  | reservedProfile (field : String)
  | duplicateName (name : String)
  | zeroChainID (field : String)
  | duplicateChainID (chainID : UInt64)
  | notPositive (field : String)
  | outOfRange (field : String) (low high : ℤ)
  | port (label : String) (got : ℤ)
  | duplicatePort (port : ℤ) (previous label : String)
  deriving DecidableEq, Repr

/-- The characters that may begin and end a DNS-safe name. -/
def isNameEdge (c : Char) : Bool :=
  ('a' ≤ c ∧ c ≤ 'z') ∨ ('0' ≤ c ∧ c ≤ '9')

/-- `validDNSName`. -/
def validDNSName (value : String) : Bool :=
  let chars := value.toList
  value.utf8ByteSize ≤ 63 &&
    chars.head?.any isNameEdge && chars.getLast?.any isNameEdge &&
    chars.all fun c => isNameEdge c || c = '-'

/-- `strings.LastIndexByte` for an ASCII byte, `-1` when it does not occur. -/
def lastIndex (chars : List Char) (c : Char) : ℤ :=
  (chars.length : ℤ) - 1 - (chars.reverse.idxOf c : ℤ)

/-- `validateImage`. -/
def validateImage (field image : String) : Except ConfigError Unit :=
  let chars := image.toList
  let lastSlash := lastIndex chars '/'
  let lastColon := lastIndex chars ':'
  if chars.contains '@' then .error (.image field image)
  else if lastColon ≤ lastSlash ∨ lastColon = (chars.length : ℤ) - 1 then
    .error (.image field image)
  else
    let tag := String.ofList ((chars.drop (lastColon + 1).toNat).map Char.toLower)
    if tag = "latest" ∨ tag = "stable" then .error (.image field image) else .ok ()

/-- `validateReservedDirectVerifier`. -/
def validateReservedDirectVerifier (field : String) (verifier : DirectVerifier) :
    Except ConfigError Unit :=
  if verifier.profileID ≠ directProfileID then .ok ()
  else if verifier.authorizedSignerCount ≠ 3 ∨ verifier.signatureChecks ≠ 3 ∨
      verifier.hashRounds ≠ 4497 then .error (.reservedProfile field)
  else .ok ()

/-- The loop over the ports of one chain. The source ranges over a map, so which of several
offending ports is reported first is not determined there. -/
def validatePorts : List (String × ℤ) → List (ℤ × String) →
    Except ConfigError (List (ℤ × String))
  | [], used => .ok used
  | (label, port) :: rest, used =>
      if port < 1 ∨ port > 65535 then .error (.port label port)
      else
        match used.find? fun entry => entry.1 = port with
        | some (_, previous) => .error (.duplicatePort port previous label)
        | none => validatePorts rest ((port, label) :: used)

/-- The checks of one chain on its own fields. -/
def validateChain (field : String) (chain : Chain) : Except ConfigError Unit := do
  let verifier := chain.directVerifier
  require (0 < chain.blockPeriodSeconds) (.notPositive (field ++ ".block_period_seconds"))
  require (0 < chain.confirmations) (.notPositive (field ++ ".confirmations"))
  require (1 ≤ chain.merkleDepth ∧ chain.merkleDepth ≤ 32)
    (.outOfRange (field ++ ".merkle_depth") 1 32)
  require (validDNSName verifier.profileID)
    (.notDNSSafe (field ++ ".direct_verifier.profile_id") verifier.profileID)
  require (1 ≤ verifier.authorizedSignerCount ∧ verifier.authorizedSignerCount ≤ 4096)
    (.outOfRange (field ++ ".direct_verifier.authorized_signer_count") 1 4096)
  require (1 ≤ verifier.signatureChecks ∧
      verifier.signatureChecks ≤ verifier.authorizedSignerCount)
    (.outOfRange (field ++ ".direct_verifier.signature_checks") 1
      verifier.authorizedSignerCount)
  require (0 ≤ verifier.hashRounds ∧ verifier.hashRounds ≤ 16384)
    (.outOfRange (field ++ ".direct_verifier.hash_rounds") 0 16384)
  validateReservedDirectVerifier (field ++ ".direct_verifier") verifier

/-- The loop of `Validate` over the chains from position `index`, with the names, chain IDs and
ports seen so far. -/
def validateChains : ℕ → List Chain → List String → List UInt64 → List (ℤ × String) →
    Except ConfigError Unit
  | _, [], _, _, _ => .ok ()
  | index, chain :: rest, names, chainIDs, ports => do
      let field := "chains[" ++ toString index ++ "]"
      require (validDNSName chain.name) (.notDNSSafe (field ++ ".name") chain.name)
      require (chain.name ∉ names) (.duplicateName chain.name)
      require (chain.chainID ≠ 0) (.zeroChainID (field ++ ".chain_id"))
      require (chain.chainID ∉ chainIDs) (.duplicateChainID chain.chainID)
      validateChain field chain
      let ports ← validatePorts
        [(field ++ ".host_ports.http", chain.hostPorts.http),
          (field ++ ".host_ports.ws", chain.hostPorts.ws),
          (field ++ ".host_ports.mapnode_api", chain.hostPorts.mapNodeAPI),
          (field ++ ".host_ports.mapnode_p2p", chain.hostPorts.mapNodeP2P)] ports
      validateChains (index + 1) rest (chain.name :: names) (chain.chainID :: chainIDs) ports

/-- `Validate`. -/
def validate (topology : Topology) : Except ConfigError Unit := do
  require (topology.version = 1) (.version topology.version)
  require (validDNSName topology.networkName) (.notDNSSafe "network_name" topology.networkName)
  require (2 ≤ topology.chains.length ∧ topology.chains.length ≤ 21)
    (.chainCount topology.chains.length)
  validateImage "defaults.geth_image" topology.defaults.gethImage
  require (topology.defaults.gethImage = defaultGethImage)
    (.unsupportedImage "defaults.geth_image" defaultGethImage topology.defaults.gethImage)
  validateImage "defaults.foundry_image" topology.defaults.foundryImage
  require (topology.defaults.foundryImage = defaultFoundryImage)
    (.unsupportedImage "defaults.foundry_image" defaultFoundryImage
      topology.defaults.foundryImage)
  require (0 < topology.defaults.hostPortStride) .stride
  require (topology.database = "sqlite") (.database topology.database)
  validateReservedDirectVerifier "defaults.direct_verifier" topology.defaults.directVerifier
  validateChains 0 topology.chains [] [] []

/-- `Decode` after the YAML has been read. -/
def decode (raw : Document) : Except ConfigError Topology := do
  let topology := resolve raw
  validate topology
  pure topology

theorem validateChain_depth {field : String} {chain : Chain}
    (h : validateChain field chain = .ok ()) : 1 ≤ chain.merkleDepth ∧ chain.merkleDepth ≤ 32 := by
  simp only [validateChain, check_bind_eq_ok, require_eq_ok] at h
  obtain ⟨-, -, hDepth, -⟩ := h
  exact hDepth

theorem validateChains_depth {index : ℕ} {chains : List Chain} {names : List String}
    {chainIDs : List UInt64} {ports : List (ℤ × String)}
    (h : validateChains index chains names chainIDs ports = .ok ()) :
    ∀ chain ∈ chains, 1 ≤ chain.merkleDepth ∧ chain.merkleDepth ≤ 32 := by
  induction chains generalizing index names chainIDs ports with
  | nil => simp
  | cons chain rest ih =>
      simp only [validateChains, check_bind_eq_ok, require_eq_ok] at h
      obtain ⟨-, -, -, -, hChain, hPorts⟩ := h
      obtain ⟨ports', -, hRest⟩ := bind_eq_ok.mp hPorts
      intro chain' hMem
      rcases List.mem_cons.mp hMem with rfl | hMem
      · exact validateChain_depth hChain
      · exact ih hRest chain' hMem

/-- Every chain of an accepted topology has a depth the contracts accept. -/
theorem validate_depth {topology : Topology} (h : validate topology = .ok ()) :
    ∀ chain ∈ topology.chains, 1 ≤ chain.merkleDepth ∧ chain.merkleDepth ≤ 32 := by
  simp only [validate, check_bind_eq_ok, require_eq_ok] at h
  obtain ⟨-, -, -, -, -, -, -, -, -, -, hChains⟩ := h
  exact validateChains_depth hChains

end TrustMap.Internal.Config
