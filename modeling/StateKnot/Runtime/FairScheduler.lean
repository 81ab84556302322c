import StateKnot.Identity
import StateKnot.Lib.CyclicGaps
import StateKnot.Lib.Routed

/-!
# The weighted fairness policy

A shard serves its tenants in a fixed cycle of slots.  The cycle is compiled from
the tenants' weights by smooth weighted round robin over the tenants in the order of
their identifiers, its counts are verified, and the largest distance between two
slots of a tenant becomes its starvation bound.

A vector indexed by tenant is a store keyed by the indices.
-/

namespace StateKnot

open Lib

abbrev SchedulerShardId := Ident .schedulerShard

/-! ## Weights -/

/-- A tenant with its positive weight. -/
structure TenantFairnessWeight where
  tenantId : TenantId
  weight : Nat
  positive : weight ≠ 0
  bounded : weight ≤ 1024

/-! ## The compiled cycle -/

/-- The comparison of `max_by`: the larger score, among equal scores the smaller index. -/
def preferScore (left right : Int × Nat) : Int × Nat :=
  match (compare left.1 right.1).then (compare right.2 left.2) with
  | .gt => left
  | _ => right

/-- The index that `max_by` selects.  The source panics without a candidate; a policy has one. -/
def selectScore (current : List Int) : Nat :=
  match current.zipIdx with
  | [] => 0
  | first :: rest => (rest.foldl preferScore first).2

/-- One turn of the loop of `compile_smooth_cycle`. -/
def smoothTurn (weights : List Nat) (total : Int) (state : List Int × List Nat) :
    List Int × List Nat :=
  let current := List.zipWith (fun (score : Int) (weight : Nat) => score + weight) state.1 weights
  let selected := selectScore current
  (current.modify selected (· - total), state.2 ++ [selected])

def compileSmoothCycle (tenants : List TenantFairnessWeight) (cycleLength : Nat) : List Nat :=
  ((smoothTurn (tenants.map (·.weight)) cycleLength)^[cycleLength]
    (List.replicate tenants.length 0, [])).2

/-! ## Verification -/

inductive WeightedFairnessPolicyError where
  | empty
  | tooManyTenants
  | duplicateTenant
  | cycleTooLarge
  | invalidCompiledCycle
  | canonicalEncoding
  | storeBinding

def maxU16 : Nat := 65535

/-- A vector with the same entry for every tenant. -/
def perTenant {α : Type} (count : Nat) (entry : α) : List (Nat × α) :=
  (List.range count).map fun index => (index, entry)

/-- One turn of the loop of `verify_cycle_counts`. -/
def countSlot (count _index : Nat) : Except WeightedFairnessPolicyError Nat :=
  if count = maxU16 then .error .invalidCompiledCycle else .ok (count + 1)

def verifyCycleCounts (tenants : List TenantFairnessWeight) (cycle : List Nat) :
    Except WeightedFairnessPolicyError Unit := do
  let counts ← cycle.foldlM (routeStep id (fun _ => .invalidCompiledCycle) countSlot)
    (perTenant tenants.length 0)
  reject ((counts.zip tenants).any fun pair => pair.1.2 ≠ pair.2.weight) .invalidCompiledCycle

/-- The largest number of reservations until a tenant is selected again. -/
structure TenantStarvationBound where
  maximumReservationsUntilSelection : Nat
deriving DecidableEq

/-- The bound of a tenant with given positions. -/
def starvationBoundOf (cycleLength : Nat) (tenantPositions : List Nat) :
    Except WeightedFairnessPolicyError TenantStarvationBound := do
  reject (tenantPositions = []) .invalidCompiledCycle
  let maximum ← okOr (gaps cycleLength tenantPositions).max? .invalidCompiledCycle
  reject (maximum > maxU16) .invalidCompiledCycle
  return ⟨maximum⟩

/-- One turn of the first loop of `derive_starvation_bounds`. -/
def pushSlot (tenantPositions : List Nat) (slot : Nat × Nat) :
    Except WeightedFairnessPolicyError (List Nat) :=
  .ok (tenantPositions ++ [slot.2])

def deriveStarvationBounds (tenantCount : Nat) (cycle : List Nat) :
    Except WeightedFairnessPolicyError (List TenantStarvationBound) := do
  let positions ← cycle.zipIdx.foldlM (routeStep Prod.fst (fun _ => .invalidCompiledCycle) pushSlot)
    (perTenant tenantCount [])
  positions.mapM fun entry => starvationBoundOf cycle.length entry.2

/-! ## Registration -/

inductive SchedulerStoreError where
  | invalidSchedulerFairnessPolicy

/-- Policy bytes bound to a shard, with their checksum. -/
structure SchedulerFairnessPolicyRegistration where
  shardId : SchedulerShardId
  policyDigest : Digest
  policyBytes : List UInt8
  cycleLength : Nat

namespace SchedulerFairnessPolicyRegistration

def maxPolicyBytes : Nat := 262144

def maxCycleLength : Nat := 4096

def new (E : Encoding) (shardId : SchedulerShardId) (policyBytes : List UInt8)
    (cycleLength : Nat) : Except SchedulerStoreError SchedulerFairnessPolicyRegistration := do
  reject (policyBytes = [] ∨ policyBytes.length > maxPolicyBytes ∨ cycleLength = 0 ∨
    cycleLength > maxCycleLength) .invalidSchedulerFairnessPolicy
  let preimage := domainBytes "stateknot.scheduler-fairness-policy.v1" ++ policyBytes
  return ⟨shardId, E.sha256 preimage, policyBytes, cycleLength⟩

end SchedulerFairnessPolicyRegistration

/-! ## Policies -/

structure WeightedFairnessPolicy where
  shardId : SchedulerShardId
  tenants : List TenantFairnessWeight
  cycle : List Nat
  starvationBounds : List TenantStarvationBound
  canonicalBytes : List UInt8
  registration : SchedulerFairnessPolicyRegistration

namespace WeightedFairnessPolicy

def maxTenants : Nat := 1024

def maxCycleLength : Nat := SchedulerFairnessPolicyRegistration.maxCycleLength

def toJson (tenants : List TenantFairnessWeight) : Json :=
  .obj [("algorithm", .str "smooth_weighted_round_robin_v1"),
    ("tenants", .arr (tenants.map fun tenant =>
      .obj [("tenant_id", tenant.tenantId.toJson), ("weight", .num (.int tenant.weight))]))]

/-- One turn of the sum of weights; a sum that overflows is too large as well. -/
def addWeight (total : Nat) (tenant : TenantFairnessWeight) :
    Except WeightedFairnessPolicyError Nat :=
  if total + tenant.weight ≤ maxCycleLength then .ok (total + tenant.weight)
  else .error .cycleTooLarge

def new (E : Encoding) (shardId : SchedulerShardId) (tenants : List TenantFairnessWeight) :
    Except WeightedFairnessPolicyError WeightedFairnessPolicy := do
  reject (tenants = []) .empty
  reject (tenants.length > maxTenants) .tooManyTenants
  let tenants := sortByKey (·.tenantId) tenants
  reject ((tenants.zip tenants.tail).any fun pair => pair.1.tenantId = pair.2.tenantId)
    .duplicateTenant
  let cycleLength ← tenants.foldlM addWeight 0
  let cycle := compileSmoothCycle tenants cycleLength
  verifyCycleCounts tenants cycle
  let starvationBounds ← deriveStarvationBounds tenants.length cycle
  let canonicalBytes ← okOr (E.toVec (toJson tenants)) .canonicalEncoding
  let registration ← (SchedulerFairnessPolicyRegistration.new E shardId canonicalBytes
    cycleLength).mapError fun _ => .storeBinding
  return ⟨shardId, tenants, cycle, starvationBounds, canonicalBytes, registration⟩

def cycleLength (policy : WeightedFairnessPolicy) : Nat := policy.cycle.length

/-- The bound of a tenant. -/
def starvationBound (policy : WeightedFairnessPolicy) (tenantId : TenantId) :
    Option TenantStarvationBound := do
  let index ← binarySearchIdx (fun entry => compare entry.tenantId tenantId) policy.tenants
  policy.starvationBounds[index]?

def tenantForSlot (policy : WeightedFairnessPolicy) (slot : Nat) : Option TenantId := do
  let index ← policy.cycle[slot]?
  let tenant ← policy.tenants[index]?
  return tenant.tenantId

end WeightedFairnessPolicy

end StateKnot
