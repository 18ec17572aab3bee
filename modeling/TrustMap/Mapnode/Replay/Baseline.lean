import TrustMap.Library.Table
import TrustMap.Mapnode.Replay.CostProfile
import TrustMap.Library.Words

/-!
What a chain already trusts of another one, `ReplayBaselines`, and the cost of a direct verification
from there. A checkpoint policy moves the start of the direct verification up.
-/

namespace TrustMap.Mapnode.Replay

open Checks

/-! ## Checkpoints -/

/-- `CheckpointPolicy`: the period of each chain, by canonical name. -/
structure CheckpointPolicy where
  periods : Table (fun row : String × UInt64 => row.1)

/-- `CheckpointPolicy.Period`. -/
def CheckpointPolicy.period (lower : Lowercase) (policy : CheckpointPolicy) (chain : String) :
    Option UInt64 :=
  (policy.periods.find? (canonicalChain lower chain)).map (·.2)

/-! ## Baselines -/

/-- `ReplayBaselines`. A chain without an initial height has height 0. -/
structure ReplayBaselines where
  initHeights : String → UInt64
  values : String × String → Option UInt64

/-- `NewReplayBaselines`, for the entries of the map in the order they are visited. -/
def ReplayBaselines.new (lower : Lowercase) (initHeights : List (String × UInt64)) :
    ReplayBaselines where
  initHeights := initHeights.foldl
    (fun heights entry => Function.update heights (canonicalChain lower entry.1) entry.2) fun _ => 0
  values := fun _ => none

/-- `baselineKey`. -/
def baselineKey (lower : Lowercase) (verifier target : String) : String × String :=
  (canonicalChain lower verifier, canonicalChain lower target)

namespace ReplayBaselines

variable (lower : Lowercase) (baselines : ReplayBaselines) (verifier target : String)

/-- The value of a pair, which is the initial height of the target as long as there is none. -/
def value : UInt64 :=
  (baselines.values (baselineKey lower verifier target)).getD
    (baselines.initHeights (canonicalChain lower target))

/-- Store the value of a pair. -/
def store (value : UInt64) : ReplayBaselines :=
  { baselines with
    values := Function.update baselines.values (baselineKey lower verifier target) (some value) }

/-- `Get`: the value of the pair, which is stored if there was none. -/
def get : UInt64 × ReplayBaselines :=
  match baselines.values (baselineKey lower verifier target) with
  | some value => (value, baselines)
  | none => (baselines.value lower verifier target,
      baselines.store lower verifier target (baselines.value lower verifier target))

/-- `Advance`. -/
def advance (height : UInt64) : UInt64 × ReplayBaselines :=
  let current := baselines.value lower verifier target
  let next := if current < height then height else current
  (next, baselines.store lower verifier target next)

end ReplayBaselines

/-- `ReplayDirectEstimate`. -/
structure ReplayDirectEstimate where
  baselineBefore : UInt64
  directStart : UInt64
  directBlocks : UInt64
  checkpointConfigured : Bool
  checkpointPeriod : UInt64
  checkpointHeight : UInt64
  checkpointApplied : Bool
  cost : UInt64
  deriving DecidableEq

/-- The estimate from a baseline before its blocks are counted: a checkpoint between the baseline and
the target is a later start. -/
def checkpointStart (baseline targetHeight : UInt64) : Option UInt64 → ReplayDirectEstimate
  | none => ⟨baseline, baseline, 0, false, 0, 0, false, 0⟩
  | some period =>
      let checkpoint := targetHeight / period * period
      if baseline < checkpoint then ⟨baseline, checkpoint, 0, true, period, checkpoint, true, 0⟩
      else ⟨baseline, baseline, 0, true, period, checkpoint, false, 0⟩

/-- `EstimateDirect` for a baseline. Upwards every block is verified directly, from the checkpoint on
if it is used; downwards the ancestors are followed. -/
def estimateFrom (profile : CostProfile) (period : Option UInt64) (baseline targetHeight : UInt64) :
    Except ReplayError ReplayDirectEstimate :=
  if baseline ≤ targetHeight then do
    let estimate := checkpointStart baseline targetHeight period
    let cost ← checkedCost (targetHeight - estimate.directStart) profile.directStepCost
    return { estimate with directBlocks := targetHeight - estimate.directStart, cost := cost }
  else do
    let cost ← checkedCost (baseline - targetHeight) profile.pathStepCost
    return { checkpointStart baseline targetHeight none with
      directBlocks := baseline - targetHeight, cost := cost }

/-- `EstimateDirect`. -/
def ReplayBaselines.estimateDirect (lower : Lowercase) (baselines : ReplayBaselines)
    (verifier target : String) (targetHeight : UInt64) (profile : CostProfile)
    (policy : CheckpointPolicy) (useCheckpoint : Bool) :
    Except ReplayError (ReplayDirectEstimate × ReplayBaselines) := do
  let (baseline, baselines) := baselines.get lower verifier target
  let period := if useCheckpoint then policy.period lower target else none
  let estimate ← estimateFrom profile period baseline targetHeight
  return (estimate, baselines)

/-! ## What the operations do -/

section Operations

variable {lower : Lowercase} {baselines : ReplayBaselines} {verifier target : String}

/-- `Get` returns the value and stores it. -/
theorem ReplayBaselines.get_eq :
    baselines.get lower verifier target = (baselines.value lower verifier target,
      baselines.store lower verifier target (baselines.value lower verifier target)) := by
  unfold get
  split
  · rename_i value hValue
    have hSame : baselines.value lower verifier target = value := by
      rw [ReplayBaselines.value, hValue, Option.getD_some]
    rw [hSame, store, ← hValue, Function.update_eq_self]
  · rfl

@[simp] theorem ReplayBaselines.value_store {value : UInt64} :
    (baselines.store lower verifier target value).value lower verifier target = value := by
  simp [ReplayBaselines.value, store]

@[simp] theorem ReplayBaselines.store_store {value value' : UInt64} :
    (baselines.store lower verifier target value).store lower verifier target value' =
      baselines.store lower verifier target value' := by
  simp [store]

/-- The value of a pair after one is stored. -/
theorem ReplayBaselines.value_store_eq {value : UInt64} {verifier' target' : String} :
    (baselines.store lower verifier target value).value lower verifier' target' =
      if baselineKey lower verifier target = baselineKey lower verifier' target' then value
      else baselines.value lower verifier' target' := by
  simp only [ReplayBaselines.value, store, Function.update_apply,
    eq_comm (a := baselineKey lower verifier' target')]
  split <;> rfl

/-- A value only depends on the canonical names. -/
theorem ReplayBaselines.value_congr {verifier' target' : String}
    (hKey : baselineKey lower verifier target = baselineKey lower verifier' target') :
    baselines.value lower verifier target = baselines.value lower verifier' target' := by
  have hTarget := (Prod.mk.inj hKey).2
  rw [ReplayBaselines.value, ReplayBaselines.value, hKey, hTarget]

end Operations

end TrustMap.Mapnode.Replay
