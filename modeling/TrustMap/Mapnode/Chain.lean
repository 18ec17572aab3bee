import TrustMap.Domain

/-!
The catalog of live chains of the Go package `chain`.
-/

namespace TrustMap.Mapnode

/-- `chain.Chain`. -/
structure Chain where
  name : String
  chainID : Bytes32
  httpRPC : String
  confirmations : UInt64
  deploymentManifest : String
  home : Bool
  deriving DecidableEq, Repr

/-- `chain.Registry`: what `NewRegistry` checks of a catalog. The checks of names and URLs are left
out; nothing reads them. -/
structure Registry where
  chains : List Chain
  valid : ∀ entry ∈ chains, entry.chainID ≠ 0 ∧ entry.confirmations ≠ 0
  unique : (chains.map Chain.chainID).Nodup
  homeEntry : Chain
  home_mem : homeEntry ∈ chains
  home_only : ∀ entry ∈ chains, entry.home = true ↔ entry = homeEntry

/-- `Registry.Chain`. -/
def Registry.chain (registry : Registry) (chainID : Bytes32) : Option Chain :=
  registry.chains.find? fun entry => entry.chainID = chainID

end TrustMap.Mapnode
