import Mathlib.Algebra.Group.Nat.Defs
import TrustMap.Library.Checks
import TrustMap.Mapnode.Replay.Block

/-!
The integer costs of a replay. Sums and products are checked; a result that does not fit 64 bits is
an error.
-/

namespace TrustMap.Mapnode.Replay

open Checks

/-- The errors of the replay. A decision that does not fit is reported with what does not match. -/
inductive ReplayError
  | invalidProfile
  | emptyChain
  | costOverflow
  | counterOverflow
  | nodeMissing
  | nodeIDRange
  | nodeIDMismatch
  | predecessorMissing
  | edgeMissing
  | identityMismatch
  | baselineMismatch
  | decisionMismatch (detail : String)
  | counterMismatch
  deriving DecidableEq, Repr

/-- `CostProfile`. -/
structure CostProfile where
  id : String
  directStepCost : UInt64
  pathStepCost : UInt64
  trustRootUpdateCost : UInt64
  deriving DecidableEq

/-- `CostProfile.Validate`. -/
def CostProfile.validate (profile : CostProfile) : Except ReplayError Unit := do
  require (trimSpace profile.id.toList ≠ []) .invalidProfile
  require (profile.directStepCost ≠ 0 ∧ profile.pathStepCost ≠ 0 ∧ profile.trustRootUpdateCost ≠ 0)
    .invalidProfile

/-- The largest number of 64 bits. -/
def maxUint64 : UInt64 := 0xffffffffffffffff

/-- `CheckedCost`. -/
def checkedCost (delta step : UInt64) : Except ReplayError UInt64 :=
  if delta ≠ 0 ∧ maxUint64 / delta < step then .error .costOverflow else .ok (delta * step)

/-- `CheckedAdd`. -/
def checkedAdd (left right : UInt64) : Except ReplayError UInt64 :=
  if maxUint64 - left < right then .error .costOverflow else .ok (left + right)

theorem checkedCost_eq_ok {delta step cost : UInt64} :
    checkedCost delta step = .ok cost ↔ delta.toNat * step.toNat = cost.toNat := by
  have hMax : maxUint64.toNat = 2 ^ 64 - 1 := rfl
  have hRange : (delta ≠ 0 ∧ maxUint64 / delta < step) ↔ 2 ^ 64 ≤ delta.toNat * step.toNat := by
    by_cases hZero : delta = 0
    · simp [hZero]
    · have hPos : 0 < delta.toNat := Nat.pos_of_ne_zero fun h => hZero (UInt64.toNat_inj.mp h)
      rw [UInt64.lt_iff_toNat_lt, UInt64.toNat_div, hMax, Nat.div_lt_iff_lt_mul hPos, Nat.mul_comm]
      simp only [ne_eq, hZero, not_false_eq_true, true_and]
      omega
  unfold checkedCost
  split
  · rename_i hOver
    have hBig := hRange.mp hOver
    have := cost.toNat_lt
    simp only [reduceCtorEq, false_iff]
    omega
  · rename_i hFits
    have hSmall : delta.toNat * step.toNat < 2 ^ 64 := by
      rw [hRange] at hFits
      omega
    rw [Except.ok.injEq, ← UInt64.toNat_inj, UInt64.toNat_mul, Nat.mod_eq_of_lt hSmall]

theorem checkedAdd_eq_ok {left right total : UInt64} :
    checkedAdd left right = .ok total ↔ left.toNat + right.toNat = total.toNat := by
  have hMax : (maxUint64 - left).toNat = 2 ^ 64 - 1 - left.toNat := by
    have := left.toNat_lt
    rw [UInt64.toNat_sub_of_le]
    · rfl
    · rw [UInt64.le_iff_toNat_le]
      show left.toNat ≤ 2 ^ 64 - 1
      omega
  have := left.toNat_lt
  unfold checkedAdd
  split
  · rename_i hOver
    rw [UInt64.lt_iff_toNat_lt, hMax] at hOver
    have := total.toNat_lt
    simp only [reduceCtorEq, false_iff]
    omega
  · rename_i hFits
    rw [UInt64.lt_iff_toNat_lt, hMax] at hFits
    have hSmall : left.toNat + right.toNat < 2 ^ 64 := by omega
    rw [Except.ok.injEq, ← UInt64.toNat_inj, UInt64.toNat_add, Nat.mod_eq_of_lt hSmall]

/-- A checked operation fails where its exact result needs more than 64 bits. -/
theorem checked_eq_error {x : Except ReplayError UInt64} {exact : ℕ}
    (hOk : ∀ cost, x = .ok cost ↔ exact = cost.toNat)
    (hOnly : ∀ e, x = .error e → e = .costOverflow) {e : ReplayError} :
    x = .error e ↔ 2 ^ 64 ≤ exact ∧ e = .costOverflow := by
  cases hResult : x with
  | error e' =>
      have hBig : 2 ^ 64 ≤ exact := by
        by_contra hSmall
        have hFits : x = .ok (UInt64.ofNat exact) := by
          rw [hOk, UInt64.toNat_ofNat', Nat.mod_eq_of_lt (not_le.mp hSmall)]
        rw [hFits] at hResult
        cases hResult
      rw [hOnly e' hResult, Except.error.injEq, and_iff_right hBig, eq_comm]
  | ok cost =>
      have := cost.toNat_lt
      have hSmall := (hOk cost).mp hResult
      simp only [reduceCtorEq, false_iff, not_and]
      omega

theorem checkedAdd_eq_error {left right : UInt64} {e : ReplayError} :
    checkedAdd left right = .error e ↔
      2 ^ 64 ≤ left.toNat + right.toNat ∧ e = .costOverflow := by
  refine checked_eq_error (fun total => checkedAdd_eq_ok) fun e hError => ?_
  unfold checkedAdd at hError
  split at hError
  · exact (Except.error.inj hError).symm
  · cases hError

/-- A profile that `Validate` accepts. -/
structure CostProfile.Valid (profile : CostProfile) : Prop where
  id : trimSpace profile.id.toList ≠ []
  direct : 0 < profile.directStepCost.toNat
  path : 0 < profile.pathStepCost.toNat
  update : 0 < profile.trustRootUpdateCost.toNat

theorem CostProfile.validate_eq_ok {profile : CostProfile} :
    profile.validate = .ok () ↔ profile.Valid := by
  have hPos : ∀ cost : UInt64, cost ≠ 0 ↔ 0 < cost.toNat := by
    intro cost
    rw [Nat.pos_iff_ne_zero, ne_eq, ne_eq, ← UInt64.toNat_inj]
    rfl
  simp only [validate, check_bind_eq_ok, require_eq_ok, hPos]
  constructor
  · rintro ⟨hID, hDirect, hPath, hUpdate⟩
    exact ⟨hID, hDirect, hPath, hUpdate⟩
  · intro h
    exact ⟨h.id, h.direct, h.path, h.update⟩

end TrustMap.Mapnode.Replay
