import StateKnot.Budget.Ledger

/-!
# Taking charges back

`checked_subtract_cumulative` removes a contribution from a usage, and
`deduct_cumulative` takes one from what remains of a budget.  Both leave high-water
marks alone.  The first one subtracts amounts of money without a check: the guard
before it is what keeps every such subtraction from going below zero.
-/

namespace StateKnot

open Lib

namespace BudgetUsage

/-! ## Subtraction -/

/-- One field of `checked_subtract_cumulative`. -/
def subtractCounter (usage contribution : BudgetUsage) (counter : Counter) :
    Except BudgetUsageError Count :=
  if counter.isPeak then .ok (usage.counts counter)
  else okOr ((usage.counts counter).checkedSub (contribution.counts counter))
    (.regression counter.dimension)

/-- The counts and the unpriced events that are left. -/
def subtractCounts (usage contribution : BudgetUsage) :
    Except BudgetUsageError (Counts × Count) := do
  let counts ← Counts.tryOf (subtractCounter usage contribution)
  let unpriced ← okOr (usage.unpricedCostEvents.checkedSub contribution.unpricedCostEvents)
    (.regression .costs)
  return (counts, unpriced)

/-- The costs that are left, by subtractions without a check; `none` when one of them has a
minuend below its subtrahend. -/
def subtractCosts (costs contribution : KnownCosts) : Option (List Money) :=
  costs.values.mapM fun cost =>
    (cost.microUnits.checkedSub
      (((contribution.get cost.currency).map (·.microUnits)).getD 0)).map (⟨cost.currency, ·⟩)

/-- `none` stands for an arithmetic overflow of a subtraction without a check. -/
def checkedSubtractCumulative (usage contribution : BudgetUsage) :
    Option (Except BudgetUsageError BudgetUsage) :=
  match usage.validateMonotonicAfter contribution.cumulativeOnly with
  | .error error => some (.error error)
  | .ok () =>
    match subtractCounts usage contribution with
    | .error error => some (.error error)
    | .ok (counts, unpriced) =>
      (subtractCosts usage.knownCosts contribution.knownCosts).map fun values => do
        let knownCosts ← (Costs.tryNew values).mapError .costs
        build counts knownCosts unpriced

/-- `left` is `usage` without `contribution`; the high-water marks stay. -/
structure Removed (usage contribution left : BudgetUsage) : Prop where
  counts : ∀ counter, counter.isPeak = false →
    (left.counts counter).value + (contribution.counts counter).value =
      (usage.counts counter).value
  peaks : ∀ counter, counter.isPeak = true → left.counts counter = usage.counts counter
  unpriced : left.unpricedCostEvents.value + contribution.unpricedCostEvents.value =
    usage.unpricedCostEvents.value
  currencies : left.knownCosts.currencies = usage.knownCosts.currencies
  amounts : ∀ currency, left.knownCosts.amount currency + contribution.knownCosts.amount currency =
    usage.knownCosts.amount currency

variable {usage contribution left : BudgetUsage}

theorem subtractCounter_eq_ok {counter : Counter} {count : Count} :
    subtractCounter usage contribution counter = .ok count ↔
      if counter.isPeak then count = usage.counts counter
      else count.value + (contribution.counts counter).value = (usage.counts counter).value := by
  unfold subtractCounter
  split
  · rw [Except.ok.injEq, eq_comm]
  · rw [okOr_eq_ok, Count.checkedSub_eq_some]

theorem value_get_amount (costs : Costs) (currency : CurrencyCode) :
    ((((costs.get currency).map (·.microUnits)).getD 0) : Count).value = costs.amount currency := by
  unfold Costs.amount
  cases costs.get currency with
  | none => rfl
  | some money => rfl

/-- Where no listed amount is below the contribution's, every subtraction has a result. -/
theorem subtractCosts_eq_some {costs used : KnownCosts}
    (h : ∀ currency, used.amount currency ≤ costs.amount currency) :
    subtractCosts costs used = some (costs.minus used).values := by
  refine mapM_eq_some_map fun money hmoney => ?_
  have hle := h money.currency
  rw [Costs.amount_of_mem hmoney] at hle
  rw [Option.map_eq_some_iff]
  refine ⟨_, Count.checkedSub_eq_some.mpr ?_, rfl⟩
  rw [value_get_amount]
  show _ - _ + _ = _
  omega

/-- The guard lets through exactly the contributions that are part of the usage. -/
theorem validateMonotonicAfter_cumulativeOnly_eq_ok {u : Unit} :
    usage.validateMonotonicAfter contribution.cumulativeOnly = .ok u ↔
      (∀ counter, counter.isPeak = false →
        (contribution.counts counter).value ≤ (usage.counts counter).value) ∧
      contribution.unpricedCostEvents.value ≤ usage.unpricedCostEvents.value ∧
      ∀ currency, contribution.knownCosts.amount currency ≤ usage.knownCosts.amount currency := by
  rw [validateMonotonicAfter_eq_ok]
  refine and_congr_left fun _ => ?_
  constructor
  · intro h counter hpeak
    have hcounter := h counter
    rwa [show contribution.cumulativeOnly.counts counter = contribution.counts counter from
      if_neg (by simp [hpeak])] at hcounter
  · intro h counter
    show ((if counter.isPeak then 0 else contribution.counts counter : Count)).value ≤ _
    by_cases hpeak : counter.isPeak = true
    · rw [if_pos hpeak]
      exact Nat.zero_le _
    · rw [if_neg hpeak]
      exact h counter (Bool.not_eq_true _ ▸ hpeak)

/-- Past the guard no subtraction of money goes below zero. -/
theorem subtractCosts_of_guard {u : Unit}
    (h : usage.validateMonotonicAfter contribution.cumulativeOnly = .ok u) :
    subtractCosts usage.knownCosts contribution.knownCosts =
      some (usage.knownCosts.minus contribution.knownCosts).values :=
  subtractCosts_eq_some (validateMonotonicAfter_cumulativeOnly_eq_ok.mp h).2.2

theorem checkedSubtractCumulative_ne_none (usage contribution : BudgetUsage) :
    checkedSubtractCumulative usage contribution ≠ none := by
  unfold checkedSubtractCumulative
  split
  · simp
  · rename_i hguard
    split
    · simp
    · rw [subtractCosts_of_guard hguard]
      simp

theorem Costs.minus_tryNew (costs used : KnownCosts) :
    Costs.tryNew (costs.minus used).values = .ok (costs.minus used) := by
  rw [Costs.tryNew, attach_eq_ok]
  refine ⟨(costs.minus used).values, ?_, ?_⟩
  · exact Costs.collect_accept_eq_ok.mpr
      ⟨rfl, (costs.minus used).bounded, (costs.minus used).sorted.nodup_keys⟩
  · exact congrArg Except.ok (Costs.ext_values (costs.minus used).sorted.sortByKey_eq)

/-- What is left of costs after some of them are removed. -/
theorem costs_minus_iff {costs used rest : KnownCosts}
    (h : ∀ currency, used.amount currency ≤ costs.amount currency) :
    rest = costs.minus used ↔ rest.currencies = costs.currencies ∧
      ∀ currency, rest.amount currency + used.amount currency = costs.amount currency := by
  have hamount : ∀ currency, (costs.minus used).amount currency + used.amount currency =
      costs.amount currency := by
    intro currency
    have hle := h currency
    by_cases hlisted : currency ∈ costs.currencies
    · rw [Costs.amount_minus hlisted]
      omega
    · rw [Costs.amount_eq_zero hlisted] at hle ⊢
      rw [Costs.amount_eq_zero (by rwa [Costs.currencies_minus])]
      omega
  constructor
  · intro hrest
    rw [hrest]
    exact ⟨Costs.currencies_minus, hamount⟩
  · intro hrest
    obtain ⟨hcurrencies, hamounts⟩ := hrest
    refine Costs.ext_amounts (fun currency => ?_) fun currency => ?_
    · rw [hcurrencies, Costs.currencies_minus]
    · have hleft := hamounts currency
      have hright := hamount currency
      omega

/-- `checked_subtract_cumulative` removes the contribution. -/
theorem checkedSubtractCumulative_eq_ok :
    checkedSubtractCumulative usage contribution = some (.ok left) ↔
      Removed usage contribution left := by
  constructor
  · intro h
    unfold checkedSubtractCumulative at h
    split at h
    · cases h
    rename_i hguard
    split at h
    · cases h
    rename_i counts unpriced hcounts
    rw [subtractCosts_of_guard hguard, Option.map_some, Option.some.injEq, Costs.minus_tryNew] at h
    simp only [build, bind_eq_ok, mapError_eq_ok, attach_eq_ok, Except.ok.injEq,
      exists_eq_left'] at h
    obtain ⟨_, _, rfl⟩ := h
    simp only [subtractCounts, bind_eq_ok, Counts.tryOf_eq_ok, subtractCounter_eq_ok, okOr_eq_ok,
      Count.checkedSub_eq_some, pure_eq_ok, Prod.mk.injEq] at hcounts
    obtain ⟨_, hfields, _, hunpriced, rfl, rfl⟩ := hcounts
    obtain ⟨_, _, hle⟩ := validateMonotonicAfter_cumulativeOnly_eq_ok.mp hguard
    obtain ⟨hcurrencies, hamounts⟩ := (costs_minus_iff hle).mp rfl
    refine ⟨fun counter hpeak => ?_, fun counter hpeak => ?_, hunpriced, hcurrencies, hamounts⟩
    · have hfield := hfields counter
      rwa [if_neg (by simp [hpeak])] at hfield
    · have hfield := hfields counter
      rwa [if_pos hpeak] at hfield
  · intro h
    have hle : ∀ currency,
        contribution.knownCosts.amount currency ≤ usage.knownCosts.amount currency := by
      intro currency
      have hsum := h.amounts currency
      omega
    have hguard : usage.validateMonotonicAfter contribution.cumulativeOnly = .ok () := by
      rw [validateMonotonicAfter_cumulativeOnly_eq_ok]
      refine ⟨fun counter hpeak => ?_, ?_, hle⟩
      · have hsum := h.counts counter hpeak
        omega
      · have hsum := h.unpriced
        omega
    have hcounts : subtractCounts usage contribution =
        .ok (left.counts, left.unpricedCostEvents) := by
      simp only [subtractCounts, bind_eq_ok, Counts.tryOf_eq_ok, subtractCounter_eq_ok, okOr_eq_ok,
        Count.checkedSub_eq_some, pure_eq_ok, Prod.mk.injEq]
      refine ⟨left.counts, fun counter => ?_, left.unpricedCostEvents, h.unpriced, rfl, rfl⟩
      by_cases hpeak : counter.isPeak = true
      · rw [if_pos hpeak]
        exact h.peaks counter hpeak
      · rw [if_neg hpeak]
        exact h.counts counter (Bool.not_eq_true _ ▸ hpeak)
    have hcosts : left.knownCosts = usage.knownCosts.minus contribution.knownCosts :=
      (costs_minus_iff hle).mpr ⟨h.currencies, h.amounts⟩
    unfold checkedSubtractCumulative
    rw [hguard]
    simp only [hcounts, subtractCosts_of_guard hguard, Option.map_some]
    rw [Costs.minus_tryNew, ← hcosts, Option.some.injEq, bind_eq_ok]
    refine ⟨left.knownCosts, rfl, ?_⟩
    rw [build, attach_eq_ok]
    exact ⟨(), checkSubsets_eq_ok.mpr left.subsets, rfl⟩

/-- Removing a part of an accumulated usage leaves the other part, under the joint high-water
marks. -/
theorem exists_removed_of_accumulate {usage other total : BudgetUsage}
    (h : usage.checkedAccumulate other = .ok total) :
    ∃ left, Removed total other left ∧
      (∀ counter, counter.isPeak = false → left.counts counter = usage.counts counter) ∧
      left.unpricedCostEvents = usage.unpricedCostEvents ∧
      ∀ currency, left.knownCosts.amount currency = usage.knownCosts.amount currency := by
  obtain ⟨hcounts, hunpriced, hcosts⟩ := checkedAccumulate_eq_ok.mp h
  obtain ⟨_, hamounts⟩ := Costs.checkedAccumulate_eq_ok.mp hcosts
  have hle : ∀ currency, other.knownCosts.amount currency ≤ total.knownCosts.amount currency := by
    intro currency
    have hsum := hamounts currency
    omega
  obtain ⟨hcurrencies, hleft⟩ := (costs_minus_iff hle).mp rfl
  have hcounter : ∀ counter, counter.isPeak = false →
      (if counter.isPeak then total.counts counter else usage.counts counter) =
        usage.counts counter := fun counter hpeak => if_neg (by simp [hpeak])
  refine ⟨⟨fun counter => if counter.isPeak then total.counts counter else usage.counts counter,
    total.knownCosts.minus other.knownCosts, usage.unpricedCostEvents, fun pair hpair => ?_⟩,
    ⟨fun counter hpeak => ?_, fun counter hpeak => if_pos hpeak, hunpriced.symm, hcurrencies,
      hleft⟩, hcounter, rfl, fun currency => ?_⟩
  · obtain ⟨hpart, hwhole⟩ := isPeak_of_mem_subsetPairs pair hpair
    show (if pair.1.isPeak then _ else _) ≤ if pair.2.isPeak then _ else _
    rw [hcounter _ hpart, hcounter _ hwhole]
    exact usage.subsets pair hpair
  · have hsum := hcounts counter
    rw [if_neg (by simp [hpeak])] at hsum
    show (if counter.isPeak then _ else usage.counts counter).value + _ = _
    rw [hcounter counter hpeak, hsum]
  · have hsum := hamounts currency
    have hrest := hleft currency
    show (total.knownCosts.minus other.knownCosts).amount currency = _
    omega

/-- Accumulating what was removed restores every amount. -/
theorem Removed.accumulate {total : BudgetUsage} (h : Removed usage contribution left)
    (htotal : left.checkedAccumulate contribution.cumulativeOnly = .ok total) :
    total.counts = usage.counts ∧ total.unpricedCostEvents = usage.unpricedCostEvents ∧
      ∀ currency, total.knownCosts.amount currency = usage.knownCosts.amount currency := by
  obtain ⟨hcounts, hunpriced, hcosts⟩ := checkedAccumulate_eq_ok.mp htotal
  obtain ⟨_, hamounts⟩ := Costs.checkedAccumulate_eq_ok.mp hcosts
  refine ⟨funext fun counter => Count.value_injective ?_, Count.value_injective ?_,
    fun currency => (hamounts currency).trans (h.amounts currency)⟩
  · rw [hcounts counter]
    by_cases hpeak : counter.isPeak = true
    · rw [if_pos hpeak, h.peaks counter hpeak]
      show max _ ((if counter.isPeak then 0 else contribution.counts counter) : Count).value = _
      rw [if_pos hpeak]
      exact Nat.max_zero _
    · rw [if_neg hpeak]
      show _ + ((if counter.isPeak then 0 else contribution.counts counter) : Count).value = _
      rw [if_neg hpeak]
      exact h.counts counter (Bool.not_eq_true _ ▸ hpeak)
  · exact hunpriced.trans h.unpriced

/-- What was removed can be accumulated again exactly when all currencies fit into one
collection. -/
theorem Removed.exists_accumulate_iff (h : Removed usage contribution left) :
    (∃ total, left.checkedAccumulate contribution.cumulativeOnly = .ok total) ↔
      (toOrderedSet (usage.knownCosts.currencies ++ contribution.knownCosts.currencies)).length ≤
        maxCostCurrencies := by
  constructor
  · intro hexists
    obtain ⟨total, htotal⟩ := hexists
    obtain ⟨_, _, hcosts⟩ := checkedAccumulate_eq_ok.mp htotal
    obtain ⟨hcurrencies, _⟩ := Costs.checkedAccumulate_eq_ok.mp hcosts
    apply Costs.length_toOrderedSet_le
    intro currency hcurrency
    rw [hcurrencies, h.currencies]
    exact List.mem_append.mp hcurrency
  · intro hfew
    obtain ⟨costs, hcurrencies, hamounts⟩ := Costs.exists_of_amounts
      (usage.knownCosts.currencies ++ contribution.knownCosts.currencies)
      usage.knownCosts.amount hfew usage.knownCosts.amount_le
      (fun currency hnone => Costs.amount_eq_zero fun hlisted =>
        hnone (List.mem_append_left _ hlisted))
    refine ⟨⟨usage.counts, costs, usage.unpricedCostEvents, usage.subsets⟩, ?_⟩
    rw [checkedAccumulate_eq_ok, Costs.checkedAccumulate_eq_ok]
    refine ⟨fun counter => ?_, h.unpriced.symm, fun currency => ?_, fun currency => ?_⟩
    · show (usage.counts counter).value = if counter.isPeak then
        max _ ((if counter.isPeak then 0 else contribution.counts counter) : Count).value
        else _ + ((if counter.isPeak then 0 else contribution.counts counter) : Count).value
      by_cases hpeak : counter.isPeak = true
      · rw [if_pos hpeak, if_pos hpeak, h.peaks counter hpeak]
        exact (Nat.max_zero _).symm
      · rw [if_neg hpeak, if_neg hpeak]
        exact (h.counts counter (Bool.not_eq_true _ ▸ hpeak)).symm
    · rw [hcurrencies, List.mem_append, h.currencies]
      rfl
    · exact (hamounts currency).trans (h.amounts currency).symm

/-- What cannot be added back lists a currency that the usage does not list, without an amount. -/
theorem Removed.exists_unlisted (h : Removed usage contribution left)
    (hfails : ¬ ∃ total, left.checkedAccumulate contribution.cumulativeOnly = .ok total) :
    ∃ currency ∈ contribution.knownCosts.currencies, currency ∉ usage.knownCosts.currencies ∧
      contribution.knownCosts.amount currency = 0 := by
  by_contra hnone
  apply hfails
  rw [h.exists_accumulate_iff]
  apply Costs.length_toOrderedSet_le
  intro currency hcurrency
  rcases List.mem_append.mp hcurrency with hlisted | hlisted
  · exact hlisted
  · by_contra hunlisted
    have hamount := h.amounts currency
    rw [Costs.amount_eq_zero hunlisted] at hamount
    exact hnone ⟨currency, hlisted, hunlisted, by omega⟩

end BudgetUsage

/-- Removing a part of an accumulated usage leaves the other part under the joint high-water
marks; what was removed can be accumulated again, with the amounts from before, where the
currencies fit into one collection, which only a currency without an amount can prevent; and no
call meets an overflow. -/
theorem subtraction_inverts_accumulation :
    (∀ usage other total : BudgetUsage, usage.checkedAccumulate other = .ok total →
      ∃ left, BudgetUsage.checkedSubtractCumulative total other = some (.ok left) ∧
        (∀ counter, counter.isPeak = false → left.counts counter = usage.counts counter) ∧
        (∀ counter, counter.isPeak = true →
          left.counts counter = max (usage.counts counter) (other.counts counter)) ∧
        left.unpricedCostEvents = usage.unpricedCostEvents ∧
        ∀ currency, left.knownCosts.amount currency = usage.knownCosts.amount currency) ∧
    (∀ usage contribution left : BudgetUsage,
      BudgetUsage.checkedSubtractCumulative usage contribution = some (.ok left) →
      SubsetsWithin left.counts ∧
      ((∃ total, left.checkedAccumulate contribution.cumulativeOnly = .ok total) ↔
        (toOrderedSet (usage.knownCosts.currencies ++
          contribution.knownCosts.currencies)).length ≤ maxCostCurrencies) ∧
      ((¬ ∃ total, left.checkedAccumulate contribution.cumulativeOnly = .ok total) →
        ∃ currency ∈ contribution.knownCosts.currencies,
          currency ∉ usage.knownCosts.currencies ∧
            contribution.knownCosts.amount currency = 0) ∧
      ∀ total, left.checkedAccumulate contribution.cumulativeOnly = .ok total →
        total.counts = usage.counts ∧ total.unpricedCostEvents = usage.unpricedCostEvents ∧
        ∀ currency, total.knownCosts.amount currency = usage.knownCosts.amount currency) ∧
    ∀ usage contribution : BudgetUsage,
      BudgetUsage.checkedSubtractCumulative usage contribution ≠ none := by
  refine ⟨fun usage other total htotal => ?_, fun usage contribution left hleft => ?_,
    BudgetUsage.checkedSubtractCumulative_ne_none⟩
  · obtain ⟨left, hremoved, hcounts, hunpriced, hamounts⟩ :=
      BudgetUsage.exists_removed_of_accumulate htotal
    refine ⟨left, BudgetUsage.checkedSubtractCumulative_eq_ok.mpr hremoved, hcounts,
      fun counter hpeak => ?_, hunpriced, hamounts⟩
    have hmax := (BudgetUsage.checkedAccumulate_eq_ok.mp htotal).1 counter
    rw [if_pos hpeak, ← Count.value_max] at hmax
    rw [hremoved.peaks counter hpeak, Count.value_injective hmax]
  · have hremoved := BudgetUsage.checkedSubtractCumulative_eq_ok.mp hleft
    exact ⟨left.subsets, hremoved.exists_accumulate_iff, hremoved.exists_unlisted,
      fun total => hremoved.accumulate⟩

namespace Deduction.Sample

/-- Usage of the same amount in each currency. -/
def usage (currencies : List String) (units : Count) : Option BudgetUsage := do
  let costs ← (Costs.tryNew (currencies.map fun text => ⟨⟨text⟩, units⟩)).toOption
  (BudgetUsage.build (fun _ => 0) costs 0).toOption

def sixteen : List String :=
  ["AUD", "BRL", "CAD", "CHF", "CNY", "CZK", "DKK", "EUR", "GBP", "HUF", "INR", "JPY", "KRW",
    "MXN", "NOK", "PLN"]

end Deduction.Sample

/-- A contribution of nothing in a further currency is removed from a usage in sixteen
currencies, and cannot be accumulated again. -/
theorem removed_currency_may_not_fit :
    ∃ usage contribution left : BudgetUsage,
      BudgetUsage.checkedSubtractCumulative usage contribution = some (.ok left) ∧
      left.checkedAccumulate contribution.cumulativeOnly = .error (.costs (.tooMany 16 17)) := by
  have hsome : ((Deduction.Sample.usage Deduction.Sample.sixteen ⟨1, by decide⟩).any fun usage =>
      (Deduction.Sample.usage ["SEK"] 0).any fun contribution =>
        ((BudgetUsage.checkedSubtractCumulative usage contribution).bind (·.toOption)).any
          fun left => left.checkedAccumulate contribution.cumulativeOnly =
            .error (.costs (.tooMany 16 17))) = true := by
    decide +kernel
  obtain ⟨usage, _, husage⟩ := (Option.any_eq_true _ _).mp hsome
  obtain ⟨contribution, _, hcontribution⟩ := (Option.any_eq_true _ _).mp husage
  obtain ⟨left, hleft, hfails⟩ := (Option.any_eq_true _ _).mp hcontribution
  obtain ⟨result, hresult, hok⟩ := Option.bind_eq_some_iff.mp hleft
  rw [toOption_eq_some] at hok
  exact ⟨usage, contribution, left, hok ▸ hresult, of_decide_eq_true hfails⟩

/-! ## Deduction -/

namespace BudgetRemaining

def deductCumulative (rest : BudgetRemaining) (usage : BudgetUsage) :
    Except BudgetEvaluationError BudgetRemaining := do
  let counts ← Counts.tryOf fun counter =>
    if counter.isPeak then .ok (rest.counts counter)
    else remainingCount counter (rest.counts counter) (usage.counts counter)
  let costs ← remainingCosts rest.costs usage
  return { rest with counts := counts, costs := costs }

/-- What a usage leaves of a remainder that has room for it. -/
def deducted (rest : BudgetRemaining) (usage : BudgetUsage) : BudgetRemaining :=
  ⟨rest.deadline, fun counter =>
    if counter.isPeak then rest.counts counter
    else (rest.counts counter).minus (usage.counts counter), rest.costs.minus usage.knownCosts⟩

/-- Something is left exactly where there is room, and it is the difference. -/
theorem deductCumulative_eq_ok (budget : ResolvedBudget) {rest left : BudgetRemaining}
    {usage : BudgetUsage} : rest.deductCumulative usage = .ok left ↔
      budget.Room rest .zero usage.cumulativeOnly ∧ left = rest.deducted usage := by
  have hzero : ∀ currency, BudgetUsage.zero.knownCosts.amount currency = 0 :=
    fun currency => Costs.amount_eq_zero List.not_mem_nil
  have hcumulative : ∀ counter, counter.isPeak = false →
      usage.cumulativeOnly.counts counter = usage.counts counter :=
    fun counter hpeak => if_neg (by simp [hpeak])
  simp only [deductCumulative, bind_eq_ok, Counts.tryOf_eq_ok, remainingCosts_eq_ok, pure_eq_ok]
  constructor
  · intro h
    obtain ⟨counts, hcounts, costs, ⟨hwithin, hpriced, hcosts⟩, rfl⟩ := h
    refine ⟨⟨fun counter hpeak => ?_, fun counter hpeak => ?_, fun currency hcurrency => ?_,
      hpriced⟩, ?_⟩
    · have hcounter := hcounts counter
      rw [if_neg (by simp [hpeak]), remainingCount, okOr_eq_ok,
        Count.checkedSub_eq_some_iff] at hcounter
      rw [hcumulative counter hpeak]
      exact (Count.le_iff.mp hcounter.1).trans (Nat.le_add_right _ _)
    · show (if counter.isPeak then 0 else _) ≤ _
      rw [if_pos hpeak]
      exact Nat.zero_le _
    · rw [hzero, Nat.add_zero]
      exact Costs.within_iff.mp hwithin currency hcurrency
    · have hsame : counts = (rest.deducted usage).counts := by
        funext counter
        have hcounter := hcounts counter
        show counts counter = if counter.isPeak then _ else _
        by_cases hpeak : counter.isPeak = true
        · rw [if_pos hpeak, Except.ok.injEq] at hcounter
          rw [if_pos hpeak, hcounter]
        · rw [if_neg hpeak, remainingCount, okOr_eq_ok, Count.checkedSub_eq_some_iff] at hcounter
          rw [if_neg hpeak, hcounter.2]
      rw [hsame, hcosts]
      rfl
  · intro h
    obtain ⟨hroom, rfl⟩ := h
    refine ⟨_, fun counter => ?_, _, ⟨Costs.within_iff.mpr fun currency hcurrency => ?_,
      hroom.priced, rfl⟩, rfl⟩
    · show _ = Except.ok (if counter.isPeak then _ else _)
      by_cases hpeak : counter.isPeak = true
      · rw [if_pos hpeak, if_pos hpeak]
      · have hle := hroom.counts counter (Bool.not_eq_true _ ▸ hpeak)
        rw [hcumulative counter (Bool.not_eq_true _ ▸ hpeak)] at hle
        rw [if_neg hpeak, if_neg hpeak, remainingCount, okOr_eq_ok, Count.checkedSub_eq_some_iff]
        exact ⟨Count.le_iff.mpr hle, rfl⟩
    · have hcosts := hroom.costs currency hcurrency
      rwa [hzero, Nat.add_zero] at hcosts

end BudgetRemaining

namespace ResolvedBudget

open BudgetUsage

variable {budget : ResolvedBudget} {total usage other : BudgetUsage} {observedAt : Timestamp}

theorem Covers.of_part {usages : List BudgetUsage} (h : budget.Covers total observedAt)
    (htotal : TotalOf usages total) (hmem : usage ∈ usages) : budget.Covers usage observedAt := by
  obtain ⟨hcounts, hunpriced, hamounts⟩ := validateMonotonicAfter_eq_ok.mp (htotal.monotonic hmem)
  refine ⟨h.deadline, fun counter => le_trans (hcounts counter) (h.counts counter),
    Costs.within_iff.mpr fun currency hcurrency => ?_, Count.value_injective ?_⟩
  · have hlisted : currency ∈ total.knownCosts.currencies :=
      (htotal.currencies currency).mpr (mem_currenciesOf.mpr ⟨usage, hmem, hcurrency⟩)
    obtain ⟨hbudget, hle⟩ := Costs.within_iff.mp h.costs currency hlisted
    exact ⟨hbudget, (hamounts currency).trans hle⟩
  · rw [h.priced] at hunpriced
    exact Nat.le_zero.mp hunpriced

/-- Deducting a usage from what another one leaves is what both leave. -/
theorem deducted_less (htotal : TotalOf [usage, other.cumulativeOnly] total) :
    (budget.less usage).deducted other = budget.less total := by
  have hcounts : ((budget.less usage).deducted other).counts = (budget.less total).counts := by
    funext counter
    show (if counter.isPeak then (budget.counts counter).minus (usage.counts counter)
      else ((budget.counts counter).minus (usage.counts counter)).minus (other.counts counter)) =
        (budget.counts counter).minus (total.counts counter)
    apply Count.value_injective
    by_cases hpeak : counter.isPeak = true
    · have hmax := htotal.peaks_cons hpeak
      have hpart : counterTotal counter [other.cumulativeOnly] = 0 := by
        rw [← (totalOf_singleton other.cumulativeOnly).counts]
        show ((if counter.isPeak then 0 else _) : Count).value = 0
        rw [if_pos hpeak]
        rfl
      rw [if_pos hpeak]
      show _ - _ = _ - _
      omega
    · have hsum := htotal.counts_cons (Bool.not_eq_true _ ▸ hpeak)
      have hpart : counterTotal counter [other.cumulativeOnly] = (other.counts counter).value := by
        rw [← (totalOf_singleton other.cumulativeOnly).counts]
        show ((if counter.isPeak then 0 else _) : Count).value = _
        rw [if_neg hpeak]
      rw [if_neg hpeak]
      show _ - _ - _ = _ - _
      omega
  have hcosts : ((budget.less usage).deducted other).costs = (budget.less total).costs := by
    show (budget.costs.minus usage.knownCosts).minus other.knownCosts =
      budget.costs.minus total.knownCosts
    refine Costs.ext_amounts (fun currency => ?_) fun currency => ?_
    · rw [Costs.currencies_minus, Costs.currencies_minus, Costs.currencies_minus]
    · by_cases hlisted : currency ∈ budget.costs.currencies
      · have hsum : total.knownCosts.amount currency = _ := htotal.amounts_cons
        have hpart : amountTotal currency [other.cumulativeOnly] =
            other.knownCosts.amount currency := by
          rw [← (totalOf_singleton other.cumulativeOnly).amounts]
          rfl
        rw [Costs.amount_minus (by rwa [Costs.currencies_minus]), Costs.amount_minus hlisted,
          Costs.amount_minus hlisted]
        omega
      · rw [Costs.amount_eq_zero (by rwa [Costs.currencies_minus, Costs.currencies_minus]),
          Costs.amount_eq_zero (by rwa [Costs.currencies_minus])]
  show BudgetRemaining.mk _ _ _ = BudgetRemaining.mk _ _ _
  rw [BudgetRemaining.mk.injEq]
  exact ⟨rfl, hcounts, hcosts⟩

end ResolvedBudget

/-- A budget is charged with two usages at once exactly when it is charged with one of them and
the remainder with the other, with the same rest. -/
theorem charging_orders_agree (budget : ResolvedBudget) (usage other : BudgetUsage)
    (observedAt : Timestamp) (left : BudgetRemaining) :
    (∃ rest, budget.remaining usage observedAt = .ok rest ∧
        rest.deductCumulative other = .ok left) ↔
      ∃ total, usage.checkedAccumulate other.cumulativeOnly = .ok total ∧
        budget.remaining total observedAt = .ok left := by
  have htotal : ∀ total, usage.checkedAccumulate other.cumulativeOnly = .ok total ↔
      BudgetUsage.TotalOf [usage, other.cumulativeOnly] total := fun total =>
    (BudgetUsage.totalOf_singleton usage).checkedAccumulate_eq_ok
      (BudgetUsage.totalOf_singleton other.cumulativeOnly)
  -- Adding the other usage exchanges nothing for it.
  have hexchange : budget.Covers usage observedAt →
      ((∃ total, budget.Carries [other.cumulativeOnly, usage] total observedAt) ↔
        budget.Room (budget.less usage) .zero other.cumulativeOnly) := by
    intro hcovers
    apply ResolvedBudget.Carries.exists_exchange_iff
    exact ⟨BudgetUsage.exactTotals.zero_cons.mpr (BudgetUsage.totalOf_singleton usage), hcovers⟩
  simp only [ResolvedBudget.remaining_eq_ok, htotal]
  constructor
  · intro h
    obtain ⟨rest, ⟨hcovers, rfl⟩, hdeduct⟩ := h
    obtain ⟨hroom, rfl⟩ := (BudgetRemaining.deductCumulative_eq_ok budget).mp hdeduct
    obtain ⟨total, hcarried, htotalCovers⟩ := (hexchange hcovers).mpr hroom
    have hsum := hcarried.of_perm (List.Perm.swap usage other.cumulativeOnly [])
    exact ⟨total, hsum, htotalCovers, ResolvedBudget.deducted_less hsum⟩
  · intro h
    obtain ⟨total, hsum, hcovers, rfl⟩ := h
    have hpart := hcovers.of_part hsum List.mem_cons_self
    refine ⟨_, ⟨hpart, rfl⟩, (BudgetRemaining.deductCumulative_eq_ok budget).mpr ⟨?_,
      (ResolvedBudget.deducted_less hsum).symm⟩⟩
    apply (hexchange hpart).mp
    exact ⟨total, hsum.of_perm (List.Perm.swap other.cumulativeOnly usage []), hcovers⟩

end StateKnot
