import StateKnot.Lib.Narrowing
import StateKnot.Budget.Usage

/-!
# Limits and resolved budgets

A layer of limits may bound any dimension.  Layers are combined to the most
restrictive limit in every dimension, and when every dimension is bounded the
result is a resolved budget; counters that are part of another one are then clamped
to it.  A budget is charged with a usage at an instant: what remains is known only
when the deadline lies ahead, no dimension is exceeded and every cost is priced.
-/

namespace StateKnot

open Lib

def maxBudgetLayers : Nat := 16

/-! ## Narrower costs -/

/-- Every currency of `inner` is one of `outer`, with no larger amount. -/
def Costs.Within (inner outer : Costs) : Prop :=
  ∀ money ∈ inner.values, ∃ limit ∈ outer.get money.currency, money.microUnits ≤ limit.microUnits

namespace Costs

theorem Within.refl (costs : Costs) : costs.Within costs :=
  fun money hmoney => ⟨money, get_eq_some.mpr ⟨hmoney, rfl⟩, le_refl _⟩

theorem Within.trans {a b c : Costs} (hab : a.Within b) (hbc : b.Within c) : a.Within c := by
  intro money hmoney
  obtain ⟨middle, hmiddle, hle⟩ := hab money hmoney
  obtain ⟨hmem, hcurrency⟩ := get_eq_some.mp hmiddle
  obtain ⟨limit, hlimit, hle'⟩ := hbc middle hmem
  rw [hcurrency] at hlimit
  exact ⟨limit, hlimit, hle.trans hle'⟩

theorem mem_mostRestrictive {costs other : Costs} {money : Money}
    (h : money ∈ (costs.mostRestrictive other).values) :
    ∃ left right, costs.get money.currency = some left ∧
      other.get money.currency = some right ∧
      money.microUnits = min left.microUnits right.microUnits := by
  obtain ⟨left, hleft, hmap⟩ := List.mem_filterMap.mp h
  obtain ⟨right, hright, rfl⟩ := Option.map_eq_some_iff.mp hmap
  exact ⟨left, right, get_eq_some.mpr ⟨hleft, rfl⟩, hright, rfl⟩

theorem mostRestrictive_within_left (costs other : Costs) :
    (costs.mostRestrictive other).Within costs := by
  intro money hmoney
  obtain ⟨left, right, hleft, _, hamount⟩ := mem_mostRestrictive hmoney
  exact ⟨left, hleft, hamount ▸ min_le_left _ _⟩

theorem mostRestrictive_within_right (costs other : Costs) :
    (costs.mostRestrictive other).Within other := by
  intro money hmoney
  obtain ⟨left, right, _, hright, hamount⟩ := mem_mostRestrictive hmoney
  exact ⟨right, hright, hamount ▸ min_le_right _ _⟩

end Costs

/-! ## Layers of limits -/

/-- One layer of limits; an absent one bounds nothing. -/
structure BudgetLimits where
  deadline : Option Timestamp
  counts : Counter → Option Count
  costs : Option CostLimits
deriving DecidableEq

namespace BudgetLimits

def empty : BudgetLimits := ⟨none, fun _ => none, none⟩

def isEmpty (limits : BudgetLimits) : Bool :=
  limits.deadline.isNone && Counter.all.all (fun counter => (limits.counts counter).isNone) &&
    limits.costs.isNone

/-- The cost ceilings of two layers: only currencies that both allow. -/
def mostRestrictiveCosts : Option CostLimits → Option CostLimits → Option CostLimits
  | some left, some right => some (left.mostRestrictive right)
  | some value, none | none, some value => some value
  | none, none => none

def mostRestrictive (limits other : BudgetLimits) : BudgetLimits where
  deadline := minOption limits.deadline other.deadline
  counts := fun counter => minOption (limits.counts counter) (other.counts counter)
  costs := mostRestrictiveCosts limits.costs other.costs

def toJson (E : Encoding) (limits : BudgetLimits) : Json :=
  .obj (Json.optionalMember "deadline" E.timestampJson limits.deadline ++
    Counter.all.flatMap
      (fun counter => Json.optionalMember counter.text Count.toJson (limits.counts counter)) ++
    Json.optionalMember "costs" Costs.toJson limits.costs)

/-- Layer `inner` is at least as strict as `outer` in every dimension. -/
structure Tightens (inner outer : BudgetLimits) : Prop where
  deadline : Restricts (· ≤ ·) inner.deadline outer.deadline
  counts : ∀ counter, Restricts (· ≤ ·) (inner.counts counter) (outer.counts counter)
  costs : Restricts Costs.Within inner.costs outer.costs

theorem Tightens.refl (limits : BudgetLimits) : limits.Tightens limits where
  deadline := .refl le_refl _
  counts := fun _ => .refl le_refl _
  costs := .refl Costs.Within.refl _

theorem Tightens.trans {a b c : BudgetLimits} (hab : a.Tightens b) (hbc : b.Tightens c) :
    a.Tightens c where
  deadline := hab.deadline.trans le_trans hbc.deadline
  counts := fun counter => (hab.counts counter).trans le_trans (hbc.counts counter)
  costs := hab.costs.trans Costs.Within.trans hbc.costs

theorem mostRestrictive_tightens_left (limits other : BudgetLimits) :
    (limits.mostRestrictive other).Tightens limits where
  deadline := restricts_minOption_left _ _
  counts := fun _ => restricts_minOption_left _ _
  costs := by
    intro left hleft
    show ∃ a ∈ mostRestrictiveCosts limits.costs other.costs, _
    rw [Option.mem_def.mp hleft]
    cases other.costs with
    | none => exact ⟨left, rfl, .refl left⟩
    | some right => exact ⟨_, rfl, left.mostRestrictive_within_left right⟩

theorem mostRestrictive_tightens_right (limits other : BudgetLimits) :
    (limits.mostRestrictive other).Tightens other where
  deadline := restricts_minOption_right _ _
  counts := fun _ => restricts_minOption_right _ _
  costs := by
    intro right hright
    show ∃ a ∈ mostRestrictiveCosts limits.costs other.costs, _
    rw [Option.mem_def.mp hright]
    cases limits.costs with
    | none => exact ⟨right, rfl, .refl right⟩
    | some left => exact ⟨_, rfl, left.mostRestrictive_within_right right⟩

end BudgetLimits

/-! ## Resolved budgets -/

inductive BudgetResolutionError where
  | emptyLayers
  | tooManyLayers (max actual : Nat)
  | missing (dimension : BudgetDimension)
deriving DecidableEq

inductive BudgetNarrowingError where
  | widened (dimension : BudgetDimension)
  | unbudgetedCurrency (currency : CurrencyCode)
  | costWidened (currency : CurrencyCode)
deriving DecidableEq

inductive BudgetEvaluationError where
  | deadlineExceeded (deadline observedAt : Timestamp)
  | executionLimitExceeded (dimension : BudgetDimension) (limit actual : Count)
  | tokenLimitExceeded (dimension : BudgetDimension) (limit actual : Count)
  | byteLimitExceeded (dimension : BudgetDimension) (limit actual : Count)
  | costLimitExceeded (limit actual : Money)
  | unbudgetedCurrency (currency : CurrencyCode)
  | unpricedCost (events : Count)
deriving DecidableEq

/-- A bound for every dimension. -/
structure ResolvedBudget where
  deadline : Timestamp
  counts : Counts
  costs : CostLimits
  subsets : SubsetsWithin counts

instance : DecidableEq ResolvedBudget := fun a b =>
  decidable_of_iff (a.deadline = b.deadline ∧ a.counts = b.counts ∧ a.costs = b.costs)
    (by cases a; cases b; simp)

/-- What a usage leaves of a budget. -/
structure BudgetRemaining where
  deadline : Timestamp
  counts : Counts
  costs : CostLimits

/-- Parts clamped to the counters they are part of. -/
def clampSubsets (counts : Counts) : Counts
  | .cachedInputTokens => min (counts .cachedInputTokens) (counts .inputTokens)
  | .reasoningTokens => min (counts .reasoningTokens) (counts .outputTokens)
  | .writeCalls => min (counts .writeCalls) (counts .toolCalls)
  | counter => counts counter

theorem clampSubsets_le (counts : Counts) (counter : Counter) :
    clampSubsets counts counter ≤ counts counter := by
  cases counter <;> first | exact le_refl _ | exact min_le_left _ _

theorem subsetsWithin_clampSubsets (counts : Counts) : SubsetsWithin (clampSubsets counts) := by
  intro pair hpair
  simp only [subsetPairs, List.mem_cons, List.not_mem_nil, or_false] at hpair
  rcases hpair with rfl | rfl | rfl
  all_goals exact min_le_right _ _

namespace ResolvedBudget

theorem ext_fields {a b : ResolvedBudget} (hdeadline : a.deadline = b.deadline)
    (hcounts : a.counts = b.counts) (hcosts : a.costs = b.costs) : a = b := by
  cases a
  cases b
  cases hdeadline
  cases hcounts
  cases hcosts
  rfl

def required {α : Type} (value : Option α) (dimension : BudgetDimension) :
    Except BudgetResolutionError α :=
  okOr value (.missing dimension)

/-- The counters that `resolve` asks for first, to clamp the parts among them. -/
def clampedFirst : List Counter :=
  [.inputTokens, .outputTokens, .toolCalls, .cachedInputTokens, .reasoningTokens, .writeCalls]

def resolve (layers : List BudgetLimits) : Except BudgetResolutionError ResolvedBudget := do
  reject (layers = []) .emptyLayers
  reject (layers.length > maxBudgetLayers) (.tooManyLayers maxBudgetLayers layers.length)
  let effective := layers.foldl BudgetLimits.mostRestrictive .empty
  forM clampedFirst fun counter => do
    let _ ← required (effective.counts counter) counter.dimension
    return ()
  let deadline ← required effective.deadline .deadline
  let counts ← Counts.tryOf fun counter => required (effective.counts counter) counter.dimension
  let costs ← required effective.costs .costs
  return ⟨deadline, clampSubsets counts, costs, subsetsWithin_clampSubsets counts⟩

def toJson (E : Encoding) (budget : ResolvedBudget) : Json :=
  .obj ([("deadline", E.timestampJson budget.deadline)] ++ countsJson budget.counts ++
    [("costs", budget.costs.toJson)])

/-- The budget stays within a layer in every dimension that the layer bounds. -/
structure Respects (budget : ResolvedBudget) (layer : BudgetLimits) : Prop where
  deadline : ∀ instant ∈ layer.deadline, budget.deadline ≤ instant
  counts : ∀ counter, ∀ limit ∈ layer.counts counter, budget.counts counter ≤ limit
  costs : ∀ limits ∈ layer.costs, budget.costs.Within limits

theorem respects_of_resolve {layers : List BudgetLimits} {budget : ResolvedBudget}
    (h : resolve layers = .ok budget) : ∀ layer ∈ layers, budget.Respects layer := by
  simp only [resolve, required, bind_eq_ok, okOr_eq_ok, Counts.tryOf_eq_ok, pure_eq_ok] at h
  obtain ⟨_, _, _, _, _, _, deadline, hdeadline, counts, hcounts, costs, hcosts, rfl⟩ := h
  intro layer hlayer
  have htight : (layers.foldl BudgetLimits.mostRestrictive .empty).Tightens layer :=
    foldl_below BudgetLimits.Tightens.refl BudgetLimits.Tightens.trans
      BudgetLimits.mostRestrictive_tightens_left BudgetLimits.mostRestrictive_tightens_right hlayer
  refine ⟨fun instant hinstant => ?_, fun counter limit hlimit => ?_, fun limits hlimits => ?_⟩
  · obtain ⟨effective, heffective, hle⟩ := htight.deadline instant hinstant
    rw [hdeadline, Option.mem_some_iff] at heffective
    exact heffective ▸ hle
  · obtain ⟨effective, heffective, hle⟩ := htight.counts counter limit hlimit
    rw [hcounts counter, Option.mem_some_iff] at heffective
    exact (clampSubsets_le counts counter).trans (heffective ▸ hle)
  · obtain ⟨effective, heffective, hwithin⟩ := htight.costs limits hlimits
    rw [hcosts, Option.mem_some_iff] at heffective
    exact heffective ▸ hwithin

/-! ### Narrowing -/

def validateNarrowing (budget parent : ResolvedBudget) : Except BudgetNarrowingError Unit := do
  reject (budget.deadline > parent.deadline) (.widened .deadline)
  forM Counter.all fun counter =>
    reject (budget.counts counter > parent.counts counter) (.widened counter.dimension)
  forM budget.costs.values fun limit => do
    let outer ← okOr (parent.costs.get limit.currency) (.unbudgetedCurrency limit.currency)
    reject (limit.microUnits > outer.microUnits) (.costWidened limit.currency)

/-- No dimension of `budget` is wider than that of `parent`. -/
structure Narrows (budget parent : ResolvedBudget) : Prop where
  deadline : budget.deadline ≤ parent.deadline
  counts : ∀ counter, budget.counts counter ≤ parent.counts counter
  costs : budget.costs.Within parent.costs

theorem validateNarrowing_eq_ok {budget parent : ResolvedBudget} {u : Unit} :
    budget.validateNarrowing parent = .ok u ↔ budget.Narrows parent := by
  simp only [validateNarrowing, bind_eq_ok, reject_eq_ok, okOr_eq_ok, forM_eq_ok, exists_const,
    not_lt, Counter.mem_all, true_implies]
  constructor
  · intro h
    obtain ⟨hdeadline, hcounts, hcosts⟩ := h
    exact ⟨hdeadline, hcounts, fun money hmoney => hcosts money hmoney⟩
  · intro h
    exact ⟨h.deadline, h.counts, fun money hmoney => h.costs money hmoney⟩

theorem Narrows.refl (budget : ResolvedBudget) : budget.Narrows budget :=
  ⟨le_refl _, fun _ => le_refl _, .refl _⟩

theorem Narrows.trans {a b c : ResolvedBudget} (hab : a.Narrows b) (hbc : b.Narrows c) :
    a.Narrows c :=
  ⟨hab.deadline.trans hbc.deadline, fun counter => (hab.counts counter).trans (hbc.counts counter),
    hab.costs.trans hbc.costs⟩

theorem Narrows.respects {budget parent : ResolvedBudget} {layer : BudgetLimits}
    (h : budget.Narrows parent) (hlayer : parent.Respects layer) : budget.Respects layer where
  deadline := fun instant hinstant => h.deadline.trans (hlayer.deadline instant hinstant)
  counts := fun counter limit hlimit => (h.counts counter).trans (hlayer.counts counter limit hlimit)
  costs := fun limits hlimits => h.costs.trans (hlayer.costs limits hlimits)

end ResolvedBudget

/-! ## Evaluation -/

/-- The error of an exceeded counter depends on what it counts. -/
def CountKind.limitExceeded : CountKind → BudgetDimension → Count → Count → BudgetEvaluationError
  | .execution => .executionLimitExceeded
  | .tokens => .tokenLimitExceeded
  | .bytes => .byteLimitExceeded

/-- `remaining_execution`, `remaining_tokens` and `remaining_bytes`. -/
def remainingCount (counter : Counter) (limit actual : Count) :
    Except BudgetEvaluationError Count :=
  okOr (limit.checkedSub actual) (counter.kind.limitExceeded counter.dimension limit actual)

/-- Subtraction of counts where nothing is exceeded. -/
def Count.minus (a b : Count) : Count := ⟨a.value - b.value, sub_bounded a b⟩

theorem Count.checkedSub_eq_some_iff {a b c : Count} :
    a.checkedSub b = some c ↔ b ≤ a ∧ c = a.minus b := by
  rw [Count.checkedSub_eq_some, ← Count.value_injective.eq_iff, Count.le_iff]
  show _ ↔ _ ∧ c.value = a.value - b.value
  omega

/-- What known costs leave of the ceilings. -/
def Costs.minus (limits used : Costs) : Costs :=
  limits.mapAmounts fun limit =>
    ⟨limit.microUnits.value - used.amount limit.currency,
      (Nat.sub_le _ _).trans limit.microUnits.bounded⟩

/-- No amount exceeds its limit when it is subtracted. -/
def remainingCosts (limits : CostLimits) (usage : BudgetUsage) :
    Except BudgetEvaluationError CostLimits := do
  forM usage.knownCosts.values fun actual => do
    let limit ← okOr (limits.get actual.currency) (.unbudgetedCurrency actual.currency)
    reject (actual.microUnits > limit.microUnits) (.costLimitExceeded limit actual)
  reject (usage.unpricedCostEvents ≠ 0) (.unpricedCost usage.unpricedCostEvents)
  return limits.minus usage.knownCosts

theorem remainingCosts_eq_ok {limits rest : CostLimits} {usage : BudgetUsage} :
    remainingCosts limits usage = .ok rest ↔
      usage.knownCosts.Within limits ∧ usage.unpricedCostEvents = 0 ∧
        rest = limits.minus usage.knownCosts := by
  simp only [remainingCosts, bind_eq_ok, forM_eq_ok, okOr_eq_ok, reject_eq_ok, exists_const,
    not_lt, not_not, pure_eq_ok]
  rw [eq_comm (a := rest)]
  exact Iff.rfl

namespace ResolvedBudget

def remaining (budget : ResolvedBudget) (usage : BudgetUsage) (observedAt : Timestamp) :
    Except BudgetEvaluationError BudgetRemaining := do
  reject (observedAt ≥ budget.deadline) (.deadlineExceeded budget.deadline observedAt)
  let counts ← Counts.tryOf fun counter =>
    remainingCount counter (budget.counts counter) (usage.counts counter)
  let costs ← remainingCosts budget.costs usage
  return ⟨budget.deadline, counts, costs⟩

/-- The usage is priced and within the budget at an instant before the deadline. -/
structure Covers (budget : ResolvedBudget) (usage : BudgetUsage) (observedAt : Timestamp) :
    Prop where
  deadline : observedAt < budget.deadline
  counts : ∀ counter, usage.counts counter ≤ budget.counts counter
  costs : usage.knownCosts.Within budget.costs
  priced : usage.unpricedCostEvents = 0

/-- What a covered usage leaves. -/
def less (budget : ResolvedBudget) (usage : BudgetUsage) : BudgetRemaining :=
  ⟨budget.deadline, fun counter => (budget.counts counter).minus (usage.counts counter),
    budget.costs.minus usage.knownCosts⟩

variable {usage : BudgetUsage} {observedAt : Timestamp}

/-- Something remains exactly of a covering budget, and it is the difference. -/
theorem remaining_eq_ok {budget : ResolvedBudget}
    {rest : BudgetRemaining} :
    budget.remaining usage observedAt = .ok rest ↔
      budget.Covers usage observedAt ∧ rest = budget.less usage := by
  simp only [remaining, remainingCount, bind_eq_ok, reject_eq_ok, okOr_eq_ok, not_le,
    Counts.tryOf_eq_ok, Count.checkedSub_eq_some_iff, remainingCosts_eq_ok, exists_const, pure_eq_ok]
  constructor
  · intro h
    obtain ⟨hdeadline, counts, hcounts, costs, ⟨hcosts, hpriced, hless⟩, hrest⟩ := h
    refine ⟨⟨hdeadline, fun counter => (hcounts counter).1, hcosts, hpriced⟩, ?_⟩
    rw [← hrest, hless, funext fun counter => (hcounts counter).2]
    rfl
  · intro h
    obtain ⟨hcovers, hrest⟩ := h
    exact ⟨hcovers.deadline, _, fun counter => ⟨hcovers.counts counter, rfl⟩, _,
      ⟨hcovers.costs, hcovers.priced, rfl⟩, hrest.symm⟩

theorem exists_remaining_iff {budget : ResolvedBudget} :
    (∃ rest, budget.remaining usage observedAt = .ok rest) ↔ budget.Covers usage observedAt := by
  simp only [remaining_eq_ok, exists_and_left, exists_eq, and_true]

theorem Narrows.covers {budget parent : ResolvedBudget} (h : budget.Narrows parent) (hcovers : budget.Covers usage observedAt) :
    parent.Covers usage observedAt where
  deadline := hcovers.deadline.trans_le h.deadline
  counts := fun counter => (hcovers.counts counter).trans (h.counts counter)
  costs := hcovers.costs.trans h.costs
  priced := hcovers.priced

end ResolvedBudget

end StateKnot
