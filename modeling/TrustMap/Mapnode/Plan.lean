import TrustMap.Mapnode.PathSearch
import TrustMap.Mapnode.Planner

/-!
The plans of the Go package `planner`, their content-derived identifiers, and the decision of
`Planner.Plan` between the path and the direct verification.
-/

namespace TrustMap.Mapnode

open Checks

/-- The bytes of a text. -/
def textBytes (text : String) : Bytes :=
  text.toUTF8.data.toList

/-- `appendLengthPrefixed`. -/
def lengthPrefixed (value : Bytes) : Bytes :=
  Words.bigEndian 4 value.length ++ value

/-- The word that holds the length of a slice, which is an `int`. -/
def lengthWord (length : ℕ) : Bytes32 :=
  Words.ofUInt64 (UInt64.ofNat length)

/-- `registry.ValidatedDirectProfile`. -/
structure DirectProfile where
  id : String
  fingerprint : Bytes32
  directCost : UInt64
  calibrated : Bool
  deriving DecidableEq

/-- `planner.PlanType`. -/
inductive PlanType
  | path
  | direct
  deriving DecidableEq, Repr

/-- The text of a plan type. -/
def PlanType.text : PlanType → String
  | .path => "path"
  | .direct => "direct"

/-- `planner.FallbackReason`. -/
inductive FallbackReason
  | uncalibratedProfile
  | noPath
  | pathCostExceedsDirect
  | proofMaterialMissing
  deriving DecidableEq, Repr

/-- The text of a reason. -/
def FallbackReason.text : FallbackReason → String
  | .uncalibratedProfile => "uncalibrated_profile"
  | .noPath => "no_path"
  | .pathCostExceedsDirect => "path_cost_exceeds_direct"
  | .proofMaterialMissing => "proof_material_missing"

/-- `planner.Plan`; there is no fallback reason where the source has the empty text. -/
structure Plan where
  id : Bytes32
  requestID : Bytes32
  attempt : UInt64
  snapshotID : Bytes32
  profileID : String
  profileFingerprint : Bytes32
  type : PlanType
  homeNodeID : NodeID
  targetNodeID : NodeID
  hops : List EdgeID
  pathStepCost : UInt64
  pathCost : Option UInt64
  directCost : Option UInt64
  fallbackReason : Option FallbackReason
  deriving DecidableEq

/-- The word of an optional cost: a flag in its first byte and the value in the last eight. -/
def Plan.costWord (cost : Option UInt64) : Bytes32 :=
  match cost with
  | none => 0
  | some value => BitVec.ofNat 256 (2 ^ 248 + value.toNat)

/-- `planner.Plan` without `ID` and `CreatedAt`; the type and the reason are any strings. -/
structure PlanContent where
  requestID : Bytes32
  attempt : UInt64
  snapshotID : Bytes32
  profileID : Bytes
  profileFingerprint : Bytes32
  type : Bytes
  homeNodeID : NodeID
  targetNodeID : NodeID
  hops : List EdgeID
  pathStepCost : UInt64
  pathCost : Option UInt64
  directCost : Option UInt64
  fallbackReason : Bytes
  deriving DecidableEq

namespace PlanContent

/-- The bytes hashed by `ComputePlanID`. -/
def encoded (content : PlanContent) : Bytes :=
  lengthPrefixed (textBytes "TrustMap/Planner/PlanID/v1") ++
    Words.encode [content.requestID, Words.ofUInt64 content.attempt, content.snapshotID] ++
    lengthPrefixed content.profileID ++ Words.bytes content.profileFingerprint ++
    lengthPrefixed content.type ++
    Words.encode [content.homeNodeID, content.targetNodeID,
      lengthWord content.hops.length] ++
    Words.encode content.hops ++
    Words.encode [Words.ofUInt64 content.pathStepCost, Plan.costWord content.pathCost,
      Plan.costWord content.directCost] ++
    lengthPrefixed content.fallbackReason

/-- `ComputePlanID`. -/
def computeID (keccak : Keccak) (content : PlanContent) : Bytes32 :=
  keccak content.encoded

end PlanContent

/-- The content of a plan. -/
def Plan.content (plan : Plan) : PlanContent where
  requestID := plan.requestID
  attempt := plan.attempt
  snapshotID := plan.snapshotID
  profileID := textBytes plan.profileID
  profileFingerprint := plan.profileFingerprint
  type := textBytes plan.type.text
  homeNodeID := plan.homeNodeID
  targetNodeID := plan.targetNodeID
  hops := plan.hops
  pathStepCost := plan.pathStepCost
  pathCost := plan.pathCost
  directCost := plan.directCost
  fallbackReason := textBytes ((plan.fallbackReason.map FallbackReason.text).getD "")

/-- The identifier of the content. -/
def Plan.computeID (keccak : Keccak) (plan : Plan) : Bytes32 :=
  plan.content.computeID keccak

/-- The plan with its identifier. -/
def Plan.named (keccak : Keccak) (plan : Plan) : Plan :=
  { plan with id := plan.computeID keccak }

/-- Why `Plan` fails before it saves a plan. -/
inductive PlanningError
  | snapshot (cause : PlanError)
  | search (cause : SearchError)
  deriving DecidableEq, Repr

/-- The profile `Plan` goes on with if there is none for the home chain. -/
def unavailableProfile : DirectProfile :=
  ⟨"unavailable", 0, 0, false⟩

/-- What all plans for a request on a snapshot have in common. -/
def planBase (profile : DirectProfile) (request : PlanRequest) (snapshot : TrustViewSnapshot) :
    Plan where
  id := 0
  requestID := request.id
  attempt := request.attempt
  snapshotID := snapshot.id
  profileID := profile.id
  profileFingerprint := profile.fingerprint
  type := .direct
  homeNodeID := snapshot.startNodeID
  targetNodeID := snapshot.targetNodeID
  hops := []
  pathStepCost := 0
  pathCost := none
  directCost := none
  fallbackReason := none

/-- The plan for the first path, once it is known. -/
def planPath (base : Plan) (directCost step : UInt64) (path : List TrustEdge) : Plan :=
  let cost := UInt64.ofNat path.length * step
  let plan : Plan := { base with
    hops := path.map (·.id)
    pathStepCost := step
    pathCost := some cost }
  if directCost < cost then
    { plan with type := .direct, fallbackReason := some .pathCostExceedsDirect }
  else if ∃ edge ∈ path, edge.witnessID = none then
    { plan with type := .direct, fallbackReason := some .proofMaterialMissing }
  else { plan with type := .path }

/-- The decision of `Plan` on a snapshot that has passed the checks. -/
def planDecision (profile : DirectProfile) (request : PlanRequest) (snapshot : TrustViewSnapshot) :
    Except SearchError Plan := do
  let base := planBase profile request snapshot
  if !profile.calibrated then
    return { base with fallbackReason := some .uncalibratedProfile }
  let base := { base with directCost := some profile.directCost }
  let step ← TrustViewSnapshot.trustedPathStepCost snapshot.edges
  if !snapshot.directedReachability then
    return { base with fallbackReason := some .noPath }
  let (path, _) ← snapshot.shortestPath
  if maxUint64 / step < UInt64.ofNat path.length then throw .pathCostOverflow
  return planPath base profile.directCost step path

/-- The plan that `Plan` saves: it has passed the checks of the snapshot and bears its identifier. -/
def planFor (keccak : Keccak) (profile : Option DirectProfile) (request : PlanRequest)
    (snapshot : TrustViewSnapshot) : Except PlanningError Plan :=
  match planSnapshot keccak request snapshot with
  | .error e => .error (.snapshot e)
  | .ok () =>
      match planDecision (profile.getD unavailableProfile) request snapshot with
      | .error e => .error (.search e)
      | .ok plan => .ok { plan with id := plan.computeID keccak }

theorem planFor_eq_ok {keccak : Keccak} {profile : Option DirectProfile} {request : PlanRequest}
    {snapshot : TrustViewSnapshot} {planned : Plan} :
    planFor keccak profile request snapshot = .ok planned ↔
      Plannable keccak request snapshot ∧
        ∃ decided, planDecision (profile.getD unavailableProfile) request snapshot = .ok decided ∧
          planned = decided.named keccak := by
  rw [planFor, ← planSnapshot_eq_ok]
  cases planSnapshot keccak request snapshot with
  | error e => simp
  | ok u =>
      cases planDecision (profile.getD unavailableProfile) request snapshot with
      | error e => simp
      | ok decided => simp [Plan.named, eq_comm]

/-! ## What is decided at a uniform step cost -/

section Decision

variable {profile : DirectProfile} {request : PlanRequest} {snapshot : TrustViewSnapshot}
  {step : UInt64}

/-- The plan of a calibrated profile before a path is known. -/
def calibratedBase (profile : DirectProfile) (request : PlanRequest)
    (snapshot : TrustViewSnapshot) : Plan :=
  { planBase profile request snapshot with directCost := some profile.directCost }

theorem planDecision_of_uncalibrated (hProfile : profile.calibrated = false) :
    planDecision profile request snapshot =
      .ok { planBase profile request snapshot with
        fallbackReason := some .uncalibratedProfile } := by
  simp only [planDecision, hProfile]
  rfl

theorem TrustViewSnapshot.UniformStep.trustedPathStepCost (hStep : snapshot.UniformStep step)
    (hEdges : snapshot.edges ≠ []) :
    TrustViewSnapshot.trustedPathStepCost snapshot.edges = .ok step := by
  have hUniform := hStep.uniform
  cases hList : snapshot.edges with
  | nil => exact absurd hList hEdges
  | cons edge edges =>
      rw [hList, List.forall_mem_cons] at hUniform
      have hPositive : edge.pathStepCost ≠ 0 := by
        intro hZero
        have hPos := hStep.positive
        rw [← hUniform.1, hZero] at hPos
        exact absurd hPos (Nat.lt_irrefl 0)
      simp only [TrustViewSnapshot.trustedPathStepCost, if_neg hPositive]
      rw [if_pos fun other hMem => (hUniform.2 other hMem).trans hUniform.1.symm, hUniform.1]

theorem TrustViewSnapshot.uniformStep_of_trustedPathStepCost (hEdges : snapshot.edges ≠ [])
    (hStep : TrustViewSnapshot.trustedPathStepCost snapshot.edges = .ok step) :
    snapshot.UniformStep step := by
  cases hList : snapshot.edges with
  | nil => exact absurd hList hEdges
  | cons edge edges =>
      rw [hList] at hStep
      simp only [TrustViewSnapshot.trustedPathStepCost] at hStep
      split at hStep
      · cases hStep
      · rename_i hNonzero
        split at hStep
        · rename_i hSame
          obtain rfl := Except.ok.inj hStep
          refine ⟨?_, Nat.pos_of_ne_zero fun hZero => hNonzero (UInt64.toNat_inj.mp hZero)⟩
          rw [hList, List.forall_mem_cons]
          exact ⟨rfl, hSame⟩
        · cases hStep

/-- Without a path the plan is direct. -/
theorem planDecision_of_noPath (hProfile : profile.calibrated = true)
    (hStep : snapshot.UniformStep step) (hNone : ¬ ∃ path, snapshot.Joins path) :
    planDecision profile request snapshot =
      .ok { calibratedBase profile request snapshot with fallbackReason := some .noPath } := by
  have hUnreachable : snapshot.directedReachability = false :=
    Bool.eq_false_iff.mpr fun h => hNone (TrustViewSnapshot.directedReachability_iff.mp h)
  obtain ⟨step', hTrusted⟩ :
      ∃ step', TrustViewSnapshot.trustedPathStepCost snapshot.edges = .ok step' := by
    by_cases hEdges : snapshot.edges = []
    · exact ⟨0, by rw [hEdges]; rfl⟩
    · exact ⟨step, hStep.trustedPathStepCost hEdges⟩
  simp only [planDecision, hProfile, hTrusted, hUnreachable]
  rfl

theorem multiple_of_range (hStep : 0 < step.toNat) {length : ℕ}
    (hRange : length * step.toNat < 2 ^ 64) :
    (UInt64.ofNat length * step).toNat = length * step.toNat ∧
      ¬ maxUint64 / step < UInt64.ofNat length := by
  have hSmall : length < 2 ^ 64 := lt_of_le_of_lt (Nat.le_mul_of_pos_right _ hStep) hRange
  refine ⟨?_, ?_⟩
  · rw [UInt64.toNat_mul, UInt64.toNat_ofNat_of_lt' hSmall, Nat.mod_eq_of_lt hRange]
  · rw [UInt64.lt_iff_toNat_lt, UInt64.toNat_div, UInt64.toNat_ofNat_of_lt' hSmall, not_lt,
      Nat.le_div_iff_mul_le hStep]
    exact Nat.le_pred_of_lt hRange

/-- With a path whose cost is in range the decision is about the first one. -/
theorem planDecision_of_path (hProfile : profile.calibrated = true)
    (hStep : snapshot.UniformStep step) (hDistinct : snapshot.startNodeID ≠ snapshot.targetNodeID)
    {path : List TrustEdge} (hPath : snapshot.Joins path)
    (hRange : path.length * step.toNat < 2 ^ 64) :
    ∃ first, snapshot.IsFirstPath first ∧ first ≠ [] ∧
      planDecision profile request snapshot =
        .ok (planPath (calibratedBase profile request snapshot) profile.directCost step first) := by
  obtain ⟨first, cost, hFound⟩ := hStep.shortestPath_of_range hPath hRange
  have hFirst := (hStep.isFirstPath_of_shortestPath hFound).1
  have hNonempty : first ≠ [] := by
    rintro rfl
    exact hDistinct hFirst.joins
  have hEdges : snapshot.edges ≠ [] := by
    obtain ⟨edge, rest, rfl⟩ := List.exists_cons_of_ne_nil hNonempty
    exact List.ne_nil_of_mem (hFirst.joins.subset edge List.mem_cons_self)
  have hFirstRange : first.length * step.toNat < 2 ^ 64 :=
    lt_of_le_of_lt (Nat.mul_le_mul_right _ (hFirst.length_le hPath)) hRange
  have hReachable : snapshot.directedReachability = true :=
    TrustViewSnapshot.directedReachability_iff.mpr ⟨path, hPath⟩
  refine ⟨first, hFirst, hNonempty, ?_⟩
  simp only [planDecision, hProfile, hStep.trustedPathStepCost hEdges, hReachable, hFound,
    Bool.not_true, Bool.false_eq_true, if_false, ok_bind,
    if_neg (multiple_of_range hStep.positive hFirstRange).2]
  rfl

/-- What has been found out when a decision is reached. -/
theorem planDecision_eq_ok {decided : Plan} (hProfile : profile.calibrated = true)
    (hDecision : planDecision profile request snapshot = .ok decided) :
    ∃ step, TrustViewSnapshot.trustedPathStepCost snapshot.edges = .ok step ∧
      ((∃ path, snapshot.Joins path) → ∃ path cost, snapshot.shortestPath = .ok (path, cost) ∧
        ¬ maxUint64 / step < UInt64.ofNat path.length ∧
        decided =
          planPath (calibratedBase profile request snapshot) profile.directCost step path) := by
  simp only [planDecision, hProfile, Bool.not_true, Bool.false_eq_true, if_false] at hDecision
  obtain ⟨step, hStep, hDecision⟩ := bind_eq_ok.mp hDecision
  refine ⟨step, hStep, fun hPath => ?_⟩
  rw [TrustViewSnapshot.directedReachability_iff.mpr hPath] at hDecision
  simp only [Bool.not_true, Bool.false_eq_true, if_false] at hDecision
  obtain ⟨⟨path, cost⟩, hFound, hDecision⟩ := bind_eq_ok.mp hDecision
  refine ⟨path, cost, hFound, ?_⟩
  by_cases hOver : maxUint64 / step < UInt64.ofNat path.length
  · simp only [if_pos hOver] at hDecision
    cases hDecision
  · simp only [if_neg hOver] at hDecision
    exact ⟨hOver, (Except.ok.inj hDecision).symm⟩

end Decision

/-! ## What a plan for a path keeps and decides -/

section PlanPath

variable {base : Plan} {directCost step : UInt64} {path : List TrustEdge}

/-- Every edge of the path has a witness. -/
def Witnessed (path : List TrustEdge) : Prop :=
  ∀ edge ∈ path, edge.witnessID ≠ none

/-- The fields that all plans for a request on a snapshot share. -/
structure Plan.Follows (plan : Plan) (profile : DirectProfile) (request : PlanRequest)
    (snapshot : TrustViewSnapshot) : Prop where
  requestID : plan.requestID = request.id
  attempt : plan.attempt = request.attempt
  snapshotID : plan.snapshotID = snapshot.id
  profileID : plan.profileID = profile.id
  homeNodeID : plan.homeNodeID = snapshot.startNodeID
  targetNodeID : plan.targetNodeID = snapshot.targetNodeID
  hops : ∀ hop ∈ plan.hops, ∃ edge ∈ snapshot.edges, edge.id = hop

/-- A plan that has considered a path, with what is decided about it. -/
def Plan.considering (base : Plan) (step : UInt64) (path : List TrustEdge) (type : PlanType)
    (fallbackReason : Option FallbackReason) : Plan :=
  { base with
    type := type
    hops := path.map (·.id)
    pathStepCost := step
    pathCost := some (UInt64.ofNat path.length * step)
    fallbackReason := fallbackReason }

/-- The cost is above the direct one, or a witness is missing, or the plan takes the path. -/
theorem planPath_cases :
    (directCost < UInt64.ofNat path.length * step ∧ planPath base directCost step path =
      base.considering step path .direct (some .pathCostExceedsDirect)) ∨
    (¬ directCost < UInt64.ofNat path.length * step ∧ ¬ Witnessed path ∧
      planPath base directCost step path =
        base.considering step path .direct (some .proofMaterialMissing)) ∨
    (¬ directCost < UInt64.ofNat path.length * step ∧ Witnessed path ∧
      planPath base directCost step path =
        base.considering step path .path base.fallbackReason) := by
  have hMissing : (∃ edge ∈ path, edge.witnessID = none) ↔ ¬ Witnessed path := by
    simp [Witnessed]
  by_cases hCost : directCost < UInt64.ofNat path.length * step
  · refine Or.inl ⟨hCost, ?_⟩
    simp only [planPath, Plan.considering, if_pos hCost]
  · refine Or.inr ?_
    by_cases hNone : ∃ edge ∈ path, edge.witnessID = none
    · refine Or.inl ⟨hCost, hMissing.mp hNone, ?_⟩
      simp only [planPath, Plan.considering, if_neg hCost, if_pos hNone]
    · refine Or.inr ⟨hCost, not_not.mp (mt hMissing.mpr hNone), ?_⟩
      simp only [planPath, Plan.considering, if_neg hCost, if_neg hNone]

theorem considering_follows {profile : DirectProfile} {request : PlanRequest}
    {snapshot : TrustViewSnapshot} {type : PlanType} {fallbackReason : Option FallbackReason}
    (hPath : ∀ edge ∈ path, edge ∈ snapshot.edges) :
    ((calibratedBase profile request snapshot).considering step path type
      fallbackReason).Follows profile request snapshot := by
  refine ⟨rfl, rfl, rfl, rfl, rfl, rfl, ?_⟩
  intro hop hMem
  obtain ⟨edge, hEdge, rfl⟩ := List.mem_map.mp hMem
  exact ⟨edge, hPath edge hEdge, rfl⟩

end PlanPath

/-! ## The path a plan carries -/

/-- A plan at a calibrated profile carries the path and its cost, any other one neither. -/
def Plan.Carries (planned : Plan) (calibrated : Bool) (step : UInt64) (path : List TrustEdge)
    (cost : UInt64) : Prop :=
  if calibrated then
    planned.hops = path.map (·.id) ∧ planned.pathStepCost = step ∧ planned.pathCost = some cost
  else planned.hops = [] ∧ planned.pathCost = none

theorem Plan.Carries.named {planned : Plan} {calibrated : Bool} {step cost : UInt64}
    {path : List TrustEdge} (h : planned.Carries calibrated step path cost) (keccak : Keccak) :
    (planned.named keccak).Carries calibrated step path cost :=
  h

/-- The decision on a snapshot with a path in range carries the first path. -/
theorem planDecision_carries {profile : DirectProfile} {request : PlanRequest}
    {snapshot : TrustViewSnapshot} {step cost : UInt64} {first : List TrustEdge}
    (hStep : snapshot.UniformStep step)
    (hDistinct : snapshot.startNodeID ≠ snapshot.targetNodeID)
    (hFirst : snapshot.IsFirstPath first)
    (hUnique : ∀ other, snapshot.IsFirstPath other → other = first)
    (hCost : cost.toNat = first.length * step.toNat) :
    ∃ decided, planDecision profile request snapshot = .ok decided ∧
      decided.Carries profile.calibrated step first cost := by
  cases hProfile : profile.calibrated with
  | false => exact ⟨_, planDecision_of_uncalibrated hProfile, rfl, rfl⟩
  | true =>
      have hRange : first.length * step.toNat < 2 ^ 64 := hCost ▸ cost.toNat_lt
      obtain ⟨path, hPath, -, hDecision⟩ := @planDecision_of_path profile request snapshot step
        hProfile hStep hDistinct first hFirst.joins hRange
      obtain rfl := hUnique path hPath
      have hProduct : UInt64.ofNat path.length * step = cost := by
        rw [← UInt64.toNat_inj, (multiple_of_range hStep.positive hRange).1, hCost]
      refine ⟨_, hDecision, ?_⟩
      obtain ⟨-, hPlan⟩ | ⟨-, -, hPlan⟩ | ⟨-, -, hPlan⟩ :=
        @planPath_cases (calibratedBase profile request snapshot) profile.directCost step path
      all_goals
        rw [hPlan]
        exact ⟨rfl, rfl, congrArg some hProduct⟩

end TrustMap.Mapnode
