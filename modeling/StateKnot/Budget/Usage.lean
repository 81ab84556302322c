import StateKnot.Budget.Amounts

/-!
# Usage

What a run has used: a count per counter, known costs, and the number of events
whose cost could not be priced.  Accumulating usages adds the cumulative counters
and takes the larger of the high-water marks.
-/

namespace StateKnot

open Lib

inductive BudgetUsageError where
  | regression (dimension : BudgetDimension)
  | subsetExceedsInclusive (subset inclusive : BudgetDimension)
  | overflow (dimension : BudgetDimension)
  | costs (error : CostCollectionError)
deriving DecidableEq

/-- Usage whose subset counters stay within the counters they are part of. -/
structure BudgetUsage where
  counts : Counts
  knownCosts : KnownCosts
  unpricedCostEvents : Count
  subsets : SubsetsWithin counts
deriving DecidableEq

namespace BudgetUsage

theorem ext_fields {a b : BudgetUsage} (hcounts : a.counts = b.counts)
    (hcosts : a.knownCosts = b.knownCosts)
    (hunpriced : a.unpricedCostEvents = b.unpricedCostEvents) : a = b := by
  cases a
  cases b
  cases hcounts
  cases hcosts
  cases hunpriced
  rfl

/-- `from_builder`. -/
def build (counts : Counts) (knownCosts : KnownCosts) (unpricedCostEvents : Count) :
    Except BudgetUsageError BudgetUsage :=
  attach (checkSubsets counts BudgetUsageError.subsetExceedsInclusive) fun _ h =>
    .ok ⟨counts, knownCosts, unpricedCostEvents, checkSubsets_eq_ok.mp h⟩

def zero : BudgetUsage where
  counts := fun _ => 0
  knownCosts := .empty
  unpricedCostEvents := 0
  subsets := fun _ _ => le_refl _

/-- The same usage with its high-water marks at zero. -/
def cumulativeOnly (usage : BudgetUsage) : BudgetUsage where
  counts := fun counter => if counter.isPeak then 0 else usage.counts counter
  knownCosts := usage.knownCosts
  unpricedCostEvents := usage.unpricedCostEvents
  subsets := by
    intro pair hpair
    obtain ⟨hpart, hwhole⟩ := isPeak_of_mem_subsetPairs pair hpair
    simp only [hpart, hwhole, Bool.false_eq_true, if_false]
    exact usage.subsets pair hpair

/-- No dimension of `usage` is below `previous`. -/
def validateMonotonicAfter (usage previous : BudgetUsage) : Except BudgetUsageError Unit := do
  forM Counter.all fun counter =>
    reject (usage.counts counter < previous.counts counter) (.regression counter.dimension)
  reject (usage.unpricedCostEvents < previous.unpricedCostEvents) (.regression .costs)
  forM previous.knownCosts.values fun cost =>
    reject (usage.knownCosts.amount cost.currency < cost.microUnits.value) (.regression .costs)

/-- One field of `checked_accumulate`. -/
def accumulateCounter (usage other : BudgetUsage) (counter : Counter) :
    Except BudgetUsageError Count :=
  if counter.isPeak then .ok (max (usage.counts counter) (other.counts counter))
  else okOr ((usage.counts counter).checkedAdd (other.counts counter)) (.overflow counter.dimension)

theorem accumulateCounter_eq_ok {usage other : BudgetUsage} {counter : Counter} {count : Count} :
    accumulateCounter usage other counter = .ok count ↔
      if counter.isPeak then count = max (usage.counts counter) (other.counts counter)
      else count.value = (usage.counts counter).value + (other.counts counter).value := by
  unfold accumulateCounter
  split
  · rw [Except.ok.injEq, eq_comm]
  · rw [okOr_eq_ok, Count.checkedAdd_eq_some]

theorem subsetsWithin_of_accumulate {usage other : BudgetUsage} {counts : Counts}
    (h : ∀ counter, accumulateCounter usage other counter = .ok (counts counter)) :
    SubsetsWithin counts := by
  intro pair hpair
  have husage := usage.subsets pair hpair
  have hother := other.subsets pair hpair
  have hpart := accumulateCounter_eq_ok.mp (h pair.1)
  have hwhole := accumulateCounter_eq_ok.mp (h pair.2)
  obtain ⟨hpart_sum, hwhole_sum⟩ := isPeak_of_mem_subsetPairs pair hpair
  simp only [hpart_sum, hwhole_sum, Bool.false_eq_true, if_false] at hpart hwhole
  rw [Count.le_iff] at husage hother ⊢
  omega

def checkedAccumulate (usage other : BudgetUsage) : Except BudgetUsageError BudgetUsage :=
  attach (Counts.tryOf (accumulateCounter usage other)) fun counts h => do
    let knownCosts ← (usage.knownCosts.checkedAccumulate other.knownCosts).mapError .costs
    let unpricedCostEvents ← okOr
      (usage.unpricedCostEvents.checkedAdd other.unpricedCostEvents) (.overflow .costs)
    return ⟨counts, knownCosts, unpricedCostEvents,
      subsetsWithin_of_accumulate (Counts.tryOf_eq_ok.mp h)⟩

def toJson (usage : BudgetUsage) : Json :=
  .obj (countsJson usage.counts ++
    [("known_costs", usage.knownCosts.toJson),
      ("unpriced_cost_events", usage.unpricedCostEvents.toJson)])

end BudgetUsage

end StateKnot
