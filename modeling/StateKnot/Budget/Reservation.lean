import StateKnot.Budget.Ledger

/-!
# Cumulative reservations

Before a child run starts, its parent sets aside as much of its own budget as the
child may use.  Only what adds up is reserved: high-water marks are not, and every
cost is priced.
-/

namespace StateKnot

open Lib BudgetUsage

inductive CumulativeBudgetReservationError where
  | highWaterDimension (dimension : BudgetDimension)
  | unpricedCost
  | tooManyReservations
  | usage (source : BudgetUsageError)
  | costs (source : CostCollectionError)
  | capacity (source : BudgetEvaluationError)
deriving DecidableEq

/-- A usage without high-water marks and unpriced costs. -/
structure CumulativeBudgetReservation where
  amount : BudgetUsage
  peaks_zero : ∀ counter, counter.isPeak = true → amount.counts counter = 0
  priced : amount.unpricedCostEvents = 0

namespace CumulativeBudgetReservation

def maxReservations : Nat := 256

def highWater : List Counter := [.graphDepth, .concurrentBranches, .fanOut]

theorem mem_highWater : ∀ counter, counter ∈ highWater ↔ counter.isPeak = true := by decide

def validate (amount : BudgetUsage) : Except CumulativeBudgetReservationError Unit := do
  forM highWater fun counter =>
    reject (amount.counts counter ≠ 0) (.highWaterDimension counter.dimension)
  reject (amount.unpricedCostEvents ≠ 0) .unpricedCost

theorem validate_eq_ok {amount : BudgetUsage} {u : Unit} : validate amount = .ok u ↔
    (∀ counter, counter.isPeak = true → amount.counts counter = 0) ∧
      amount.unpricedCostEvents = 0 := by
  simp only [validate, bind_eq_ok, forM_eq_ok, reject_eq_ok, exists_const, not_not, mem_highWater]

def new (amount : BudgetUsage) :
    Except CumulativeBudgetReservationError CumulativeBudgetReservation :=
  attach (validate amount) fun _ h =>
    .ok ⟨amount, (validate_eq_ok.mp h).1, (validate_eq_ok.mp h).2⟩

/-- Everything that adds up in a budget. -/
def fromBudget (budget : ResolvedBudget) :
    Except CumulativeBudgetReservationError CumulativeBudgetReservation := do
  let knownCosts ← (Costs.tryNew budget.costs.values).mapError .costs
  let amount ← (BudgetUsage.build
    (fun counter => if counter.isPeak then 0 else budget.counts counter) knownCosts 0).mapError
    .usage
  new amount

def checkCapacity (parent : ResolvedBudget) (accounted : BudgetUsage)
    (outstanding : List CumulativeBudgetReservation) (observedAt : Timestamp) :
    Except CumulativeBudgetReservationError BudgetRemaining := do
  reject (outstanding.length > maxReservations) .tooManyReservations
  let projected ← (outstanding.foldlM
    (fun (projected : BudgetUsage) (reservation : CumulativeBudgetReservation) =>
      projected.checkedAccumulate reservation.amount) accounted).mapError .usage
  (parent.remaining projected observedAt).mapError .capacity

/-- Capacity is what the parent's budget leaves of all charges together. -/
theorem checkCapacity_eq_ok {parent : ResolvedBudget} {accounted : BudgetUsage}
    {outstanding : List CumulativeBudgetReservation} {observedAt : Timestamp}
    {charges : List BudgetUsage} {rest : BudgetRemaining} (haccounted : TotalOf charges accounted) :
    checkCapacity parent accounted outstanding observedAt = .ok rest ↔
      outstanding.length ≤ maxReservations ∧
      ∃ total, parent.Carries (charges ++ outstanding.map (·.amount)) total observedAt ∧
        rest = parent.less total := by
  have hfold : ∀ total, outstanding.foldlM
      (fun projected reservation => projected.checkedAccumulate reservation.amount) accounted =
        .ok total ↔ TotalOf (charges ++ outstanding.map (·.amount)) total := by
    intro total
    rw [← exactTotals.foldlM_from_eq_ok haccounted, List.foldlM_map]
  simp only [checkCapacity, bind_eq_ok, reject_eq_ok, mapError_eq_ok, exists_const, not_lt, hfold,
    ResolvedBudget.remaining_eq_ok, ResolvedBudget.Carries, and_assoc]

end CumulativeBudgetReservation

end StateKnot
