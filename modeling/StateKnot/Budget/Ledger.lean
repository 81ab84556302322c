import StateKnot.Budget.Accumulation
import StateKnot.Budget.Limits

/-!
# Charges against a budget

A budget carries a list of charges when their total stays within it.  Exchanging one
charge for another changes what remains by exactly the difference, and the exchange
is possible exactly when what remains, together with the charge that is given up,
has room for the new one.  New charges are exchanged for nothing.
-/

namespace StateKnot

open Lib

namespace Costs

variable {limits used inner outer : Costs} {currency : CurrencyCode}

theorem within_iff : inner.Within outer ↔ ∀ currency ∈ inner.currencies,
    currency ∈ outer.currencies ∧ inner.amount currency ≤ outer.amount currency := by
  constructor
  · intro h currency hcurrency
    obtain ⟨money, hmoney, rfl⟩ := List.mem_map.mp hcurrency
    obtain ⟨limit, hlimit, hle⟩ := h money hmoney
    obtain ⟨hmem, hsame⟩ := get_eq_some.mp hlimit
    rw [amount_of_mem hmoney, ← hsame, amount_of_mem hmem]
    exact ⟨List.mem_map_of_mem hmem, hle⟩
  · intro h money hmoney
    obtain ⟨hlisted, hle⟩ := h money.currency (List.mem_map_of_mem hmoney)
    obtain ⟨limit, hlimit, hsame⟩ := List.mem_map.mp hlisted
    rw [amount_of_mem hmoney, ← hsame, amount_of_mem hlimit] at hle
    exact ⟨limit, get_eq_some.mpr ⟨hlimit, hsame⟩, hle⟩

theorem Within.amount_le (h : inner.Within outer) (currency : CurrencyCode) :
    inner.amount currency ≤ outer.amount currency := by
  by_cases hlisted : currency ∈ inner.currencies
  · exact (within_iff.mp h currency hlisted).2
  · rw [amount_eq_zero hlisted]
    exact Nat.zero_le _

@[simp] theorem currencies_minus : (limits.minus used).currencies = limits.currencies :=
  currencies_mapAmounts limits _

theorem amount_minus (h : currency ∈ limits.currencies) :
    (limits.minus used).amount currency = limits.amount currency - used.amount currency := by
  obtain ⟨money, hmoney, rfl⟩ := List.mem_map.mp h
  rw [minus, amount_mapAmounts hmoney, amount_of_mem hmoney]

end Costs

open BudgetUsage

namespace ResolvedBudget

variable {budget : ResolvedBudget} {charges others : List BudgetUsage}
  {freed spent total total' : BudgetUsage} {observedAt : Timestamp}

/-- The charges have a total within the budget. -/
def Carries (budget : ResolvedBudget) (charges : List BudgetUsage) (total : BudgetUsage)
    (observedAt : Timestamp) : Prop :=
  TotalOf charges total ∧ budget.Covers total observedAt

/-- What remains has room for `spent` once `freed` is given up.  High-water marks are not
added up, so they only have to be within the budget. -/
structure Room (budget : ResolvedBudget) (rest : BudgetRemaining) (freed spent : BudgetUsage) :
    Prop where
  counts : ∀ counter, counter.isPeak = false → (spent.counts counter).value ≤
    (rest.counts counter).value + (freed.counts counter).value
  peaks : ∀ counter, counter.isPeak = true → spent.counts counter ≤ budget.counts counter
  costs : ∀ currency ∈ spent.knownCosts.currencies, currency ∈ rest.costs.currencies ∧
    spent.knownCosts.amount currency ≤
      rest.costs.amount currency + freed.knownCosts.amount currency
  priced : spent.unpricedCostEvents = 0

end ResolvedBudget

/-- `rest'` is `rest` with `freed` given back and `spent` taken, in everything that adds up. -/
structure BudgetRemaining.Moved (rest : BudgetRemaining) (freed spent : BudgetUsage)
    (rest' : BudgetRemaining) : Prop where
  deadline : rest'.deadline = rest.deadline
  counts : ∀ counter, counter.isPeak = false →
    (rest'.counts counter).value + (spent.counts counter).value =
      (rest.counts counter).value + (freed.counts counter).value
  currencies : rest'.costs.currencies = rest.costs.currencies
  amounts : ∀ currency ∈ rest.costs.currencies,
    rest'.costs.amount currency + spent.knownCosts.amount currency =
      rest.costs.amount currency + freed.knownCosts.amount currency

namespace BudgetUsage

variable {counter : Counter} {currency : CurrencyCode} {usages : List BudgetUsage}
  {usage total : BudgetUsage}

variable (h : TotalOf (usage :: usages) total)

include h

theorem TotalOf.counts_cons (hpeak : counter.isPeak = false) :
    (total.counts counter).value =
      (usage.counts counter).value + counterTotal counter usages := by
  rw [h.counts, counterTotal_cons, if_neg (by simp [hpeak])]

theorem TotalOf.peaks_cons (hpeak : counter.isPeak = true) :
    (total.counts counter).value =
      max (usage.counts counter).value (counterTotal counter usages) := by
  rw [h.counts, counterTotal_cons, if_pos hpeak]

theorem TotalOf.amounts_cons :
    total.knownCosts.amount currency =
      usage.knownCosts.amount currency + amountTotal currency usages := by
  rw [h.amounts, amountTotal, List.map_cons, List.sum_cons]
  rfl

theorem TotalOf.unpriced_cons :
    total.unpricedCostEvents.value = usage.unpricedCostEvents.value + unpricedTotal usages := by
  rw [h.unpriced, unpricedTotal, List.map_cons, List.sum_cons]
  rfl

theorem TotalOf.currencies_cons :
    currency ∈ total.knownCosts.currencies ↔
      currency ∈ usage.knownCosts.currencies ∨ currency ∈ currenciesOf usages := by
  rw [h.currencies, ← List.singleton_append, mem_currenciesOf_append, mem_currenciesOf]
  simp only [List.mem_singleton, exists_eq_left]

end BudgetUsage

namespace ResolvedBudget

variable {budget : ResolvedBudget} {charges others : List BudgetUsage}
  {freed spent total total' : BudgetUsage} {observedAt : Timestamp}

/-- Exchanging a charge moves what remains by the difference. -/
theorem Carries.moved (h : budget.Carries (freed :: others) total observedAt)
    (h' : budget.Carries (spent :: others) total' observedAt) :
    (budget.less total).Moved freed spent (budget.less total') := by
  obtain ⟨htotal, hcovers⟩ := h
  obtain ⟨htotal', hcovers'⟩ := h'
  refine ⟨rfl, fun counter hpeak => ?_, ?_, fun currency hcurrency => ?_⟩
  · have hle := Count.le_iff.mp (hcovers.counts counter)
    have hle' := Count.le_iff.mp (hcovers'.counts counter)
    have hsum := htotal.counts_cons hpeak
    have hsum' := htotal'.counts_cons hpeak
    show (budget.counts counter).value - (total'.counts counter).value + _ =
      (budget.counts counter).value - (total.counts counter).value + _
    omega
  · show (budget.costs.minus _).currencies = (budget.costs.minus _).currencies
    rw [Costs.currencies_minus, Costs.currencies_minus]
  · have hlisted : currency ∈ budget.costs.currencies := by
      have hrest : currency ∈ (budget.costs.minus total.knownCosts).currencies := hcurrency
      rwa [Costs.currencies_minus] at hrest
    have hle := hcovers.costs.amount_le currency
    have hle' := hcovers'.costs.amount_le currency
    have hsum : total.knownCosts.amount currency = _ := htotal.amounts_cons
    have hsum' : total'.knownCosts.amount currency = _ := htotal'.amounts_cons
    show (budget.costs.minus _).amount currency + _ = (budget.costs.minus _).amount currency + _
    rw [Costs.amount_minus hlisted, Costs.amount_minus hlisted]
    omega

/-- The total after an exchange stays within the budget exactly when there is room. -/
theorem Carries.exists_exchange_iff (h : budget.Carries (freed :: others) total observedAt) :
    (∃ total', budget.Carries (spent :: others) total' observedAt) ↔
      budget.Room (budget.less total) freed spent := by
  obtain ⟨htotal, hcovers⟩ := h
  have hcurrencies : (budget.less total).costs.currencies = budget.costs.currencies :=
    Costs.currencies_minus
  have hunpriced := htotal.unpriced_cons
  rw [hcovers.priced, Count.value_zero] at hunpriced
  constructor
  · intro ⟨total', hcarries⟩
    have hmoved := moved ⟨htotal, hcovers⟩ hcarries
    obtain ⟨htotal', hcovers'⟩ := hcarries
    have hunpriced' := htotal'.unpriced_cons
    rw [hcovers'.priced, Count.value_zero] at hunpriced'
    refine ⟨fun counter hpeak => ?_, fun counter hpeak => ?_, fun currency hcurrency => ?_, ?_⟩
    · have hsum := hmoved.counts counter hpeak
      omega
    · have hmax := htotal'.peaks_cons hpeak
      have hle' := Count.le_iff.mp (hcovers'.counts counter)
      rw [Count.le_iff]
      omega
    · have hlisted : currency ∈ (budget.less total).costs.currencies := by
        rw [hcurrencies]
        exact (Costs.within_iff.mp hcovers'.costs currency
          (htotal'.currencies_cons.mpr (.inl hcurrency))).1
      have hsum := hmoved.amounts currency hlisted
      exact ⟨hlisted, by omega⟩
    · apply Count.value_injective
      rw [Count.value_zero]
      omega
  · intro hroom
    have hspent : spent.unpricedCostEvents.value = 0 := by
      rw [hroom.priced, Count.value_zero]
    -- Every sum of the exchanged charges stays within the budget.
    have hcounts : ∀ counter, counter.isPeak = false →
        counterTotal counter (spent :: others) ≤ (budget.counts counter).value := by
      intro counter hpeak
      have hle := Count.le_iff.mp (hcovers.counts counter)
      have hsum := htotal.counts_cons hpeak
      have hroom' : _ ≤ (budget.counts counter).value - (total.counts counter).value + _ :=
        hroom.counts counter hpeak
      rw [counterTotal_cons, if_neg (by simp [hpeak])]
      omega
    have hamounts : ∀ currency, amountTotal currency (spent :: others) ≤
        budget.costs.amount currency := by
      intro currency
      have hle := hcovers.costs.amount_le currency
      have hsum : total.knownCosts.amount currency = _ := htotal.amounts_cons
      rw [amountTotal, List.map_cons, List.sum_cons]
      show _ + amountTotal currency others ≤ _
      by_cases hlisted : currency ∈ spent.knownCosts.currencies
      · obtain ⟨hbudget, hroom'⟩ := hroom.costs currency hlisted
        rw [hcurrencies] at hbudget
        have hamount : (budget.less total).costs.amount currency = _ := Costs.amount_minus hbudget
        rw [hamount] at hroom'
        omega
      · rw [Costs.amount_eq_zero hlisted]
        omega
    have hlisted : ∀ currency ∈ currenciesOf (spent :: others),
        currency ∈ budget.costs.currencies := by
      intro currency hcurrency
      rw [← List.singleton_append, mem_currenciesOf_append] at hcurrency
      rcases hcurrency with hcurrency | hcurrency
      · obtain ⟨usage, husage, hcurrency⟩ := mem_currenciesOf.mp hcurrency
        rw [List.mem_singleton.mp husage] at hcurrency
        exact hcurrencies ▸ (hroom.costs currency hcurrency).1
      · exact (Costs.within_iff.mp hcovers.costs currency
          (htotal.currencies_cons.mpr (.inr hcurrency))).1
    have hzero : unpricedTotal (spent :: others) = 0 := by
      rw [unpricedTotal, List.map_cons, List.sum_cons]
      show _ + unpricedTotal others = 0
      omega
    obtain ⟨total', htotal'⟩ := exists_totalOf_iff.mpr ⟨
      fun counter hpeak => (hcounts counter hpeak).trans (budget.counts counter).bounded,
      hzero ▸ Nat.zero_le _, fun currency => (hamounts currency).trans (budget.costs.amount_le _),
      Costs.length_toOrderedSet_le fun currency hcurrency =>
        hlisted currency (mem_toOrderedSet.mpr hcurrency)⟩
    refine ⟨total', htotal', hcovers.deadline, fun counter => ?_,
      Costs.within_iff.mpr fun currency hcurrency => ?_, ?_⟩
    · rw [Count.le_iff]
      by_cases hpeak : counter.isPeak = true
      · have hmax := htotal.peaks_cons hpeak
        have hle := Count.le_iff.mp (hcovers.counts counter)
        have hspentPeak := Count.le_iff.mp (hroom.peaks counter hpeak)
        rw [htotal'.peaks_cons hpeak]
        omega
      · rw [Bool.not_eq_true] at hpeak
        rw [htotal'.counts]
        exact hcounts counter hpeak
    · rw [htotal'.amounts]
      exact ⟨hlisted currency ((htotal'.currencies currency).mp hcurrency), hamounts currency⟩
    · apply Count.value_injective
      rw [htotal'.unpriced, hzero, Count.value_zero]

end ResolvedBudget

end StateKnot
