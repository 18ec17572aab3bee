import TrustMap.Mapnode.Plan

/-!
The Go package `registry`: the direct verifier profile of the home chain, as configured and as
deployed, and when it counts as calibrated.
-/

namespace TrustMap.Mapnode

/-- `registry.DirectVerifierParameters`. -/
structure DirectVerifierParameters where
  id : String
  authorizedSigners : List Address
  signatureChecks : UInt32
  hashRounds : UInt32
  measuredDirectCostGas : UInt64
  deriving DecidableEq

namespace DirectVerifierParameters

/-- The bytes hashed for the fingerprint. -/
def encoded (parameters : DirectVerifierParameters) : Bytes :=
  lengthPrefixed (textBytes parameters.id) ++
    Words.bigEndian 4 parameters.authorizedSigners.length ++
    parameters.authorizedSigners.flatMap (fun signer => Words.bigEndian 20 signer.toNat) ++
    Words.bigEndian 4 parameters.signatureChecks.toNat ++
    Words.bigEndian 4 parameters.hashRounds.toNat ++
    Words.bigEndian 8 parameters.measuredDirectCostGas.toNat

/-- `ComputeProfileFingerprint`. -/
def fingerprint (keccak : Keccak) (parameters : DirectVerifierParameters) : Bytes32 :=
  keccak parameters.encoded

/-- The parameters are those of the calibrated profile of the package `directprofile`, with signers
that are neither zero nor repeated. -/
def isReserved (parameters : DirectVerifierParameters) : Prop :=
  parameters.id = "pow-spv-3m" ∧ parameters.authorizedSigners.length = 3 ∧
    parameters.signatureChecks = 3 ∧ parameters.hashRounds = 4497 ∧
    parameters.measuredDirectCostGas = 3000096 ∧
    0 ∉ parameters.authorizedSigners ∧ parameters.authorizedSigners.Nodup

instance (parameters : DirectVerifierParameters) : Decidable parameters.isReserved :=
  inferInstanceAs (Decidable (_ ∧ _))

end DirectVerifierParameters

/-- `registry.DeploymentProfile`. -/
structure DeploymentProfile where
  configured : DirectVerifierParameters
  deployed : DirectVerifierParameters
  fingerprint : Bytes32
  deriving DecidableEq

/-- `registry.Chain`; names are left out. -/
structure ProfiledChain where
  chainID : Bytes32
  home : Bool
  signerAuthority : Bool
  transactionAuthority : Bool
  profile : DeploymentProfile
  deriving DecidableEq

/-- `registry.DirectProfile`: none for a chain without authority, and not calibrated unless what is
configured is what is deployed. -/
def directProfile (keccak : Keccak) (chains : List ProfiledChain) (chainID : Bytes32) :
    Option DirectProfile := do
  let chain ← chains.find? fun chain => chain.chainID = chainID
  guard (chain.home ∧ chain.signerAuthority ∧ chain.transactionAuthority)
  let configured := chain.profile.configured
  let status : DirectProfile := ⟨configured.id, chain.profile.fingerprint, 0, false⟩
  if configured.fingerprint keccak ≠ chain.profile.fingerprint ∨
      configured ≠ chain.profile.deployed then return status
  if ¬ configured.isReserved then return status
  return { status with calibrated := true, directCost := 3000096 }

/-- A calibrated profile has the measured cost. -/
theorem directProfile_cost {keccak : Keccak} {chains : List ProfiledChain} {chainID : Bytes32}
    {profile : DirectProfile}
    (hProfile : (directProfile keccak chains chainID).getD unavailableProfile = profile)
    (hCalibrated : profile.calibrated = true) : profile.directCost = 3000096 := by
  subst hProfile
  cases hLookup : directProfile keccak chains chainID with
  | none =>
      rw [hLookup] at hCalibrated
      cases hCalibrated
  | some found =>
      rw [hLookup, Option.getD_some] at hCalibrated
      rw [Option.getD_some]
      simp only [directProfile, Option.bind_eq_bind, Option.bind_eq_some_iff] at hLookup
      obtain ⟨chain, -, -, -, hStatus⟩ := hLookup
      split at hStatus
      · cases hStatus
        cases hCalibrated
      · split at hStatus
        · cases hStatus
          cases hCalibrated
        · cases hStatus
          rfl

end TrustMap.Mapnode
