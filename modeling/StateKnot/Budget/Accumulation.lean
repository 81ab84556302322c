import StateKnot.Lib.Accumulation
import StateKnot.Budget.Usage

/-!
# What accumulated usage is

The total of a list of usages has, for every cumulative counter and every currency,
the sum of the amounts, for every high-water mark their maximum, and the currencies
of all of them.  There is a total exactly when the sums fit into 64 bits and the
currencies into one collection; `checked_accumulate` computes it in any order and
grouping.
-/

namespace StateKnot

open Lib

theorem Count.value_max (a b : Count) : (Max.max a b).value = Max.max a.value b.value := by
  rcases le_total a b with h | h
  · rw [max_eq_right h, max_eq_right (Count.le_iff.mp h)]
  · rw [max_eq_left h, max_eq_left (Count.le_iff.mp h)]

/-! ## Costs by currency -/

namespace Costs

variable {money : Money} {costs : Costs} {charges : List Money}

theorem amount_eq_zero {currency : CurrencyCode}
    (h : currency ∉ costs.currencies) : costs.amount currency = 0 := by
  rw [amount, get_eq_none.mpr h]
  rfl

theorem amount_of_mem (h : money ∈ costs.values) :
    costs.amount money.currency = money.microUnits.value := by
  rw [amount, get_eq_some.mpr ⟨h, rfl⟩]
  rfl

theorem amount_le (costs : Costs) (currency : CurrencyCode) :
    costs.amount currency ≤ Count.max := by
  by_cases h : currency ∈ costs.currencies
  · obtain ⟨money, hmoney, rfl⟩ := List.mem_map.mp h
    rw [amount_of_mem hmoney]
    exact money.microUnits.bounded
  · rw [amount_eq_zero h]
    exact Nat.zero_le _

theorem mem_values :
    money ∈ costs.values ↔ money.currency ∈ costs.currencies ∧
      costs.amount money.currency = money.microUnits.value := by
  constructor
  · intro h
    exact ⟨List.mem_map_of_mem h, amount_of_mem h⟩
  · intro h
    obtain ⟨hcurrency, hamount⟩ := h
    obtain ⟨other, hother, hsame⟩ := List.mem_map.mp hcurrency
    have hunits : other.microUnits = money.microUnits := by
      rw [← hsame, amount_of_mem hother] at hamount
      exact Count.value_injective hamount
    have heq : other = money := by
      cases other
      cases money
      cases hsame
      cases hunits
      rfl
    exact heq ▸ hother

theorem ext_amounts {a b : Costs} (hcurrencies : ∀ currency, currency ∈ a.currencies ↔
    currency ∈ b.currencies) (hamounts : ∀ currency, a.amount currency = b.amount currency) :
    a = b := by
  refine ext_values (a.sorted.eq_of_mem_iff b.sorted fun money => ?_)
  rw [mem_values, mem_values, hcurrencies, hamounts]

/-- Costs with given amounts in given currencies. -/
def ofAmounts (currencies : List CurrencyCode) (hsorted : StrictlySorted id currencies)
    (hbounded : currencies.length ≤ maxCostCurrencies) (units : CurrencyCode → Count) : Costs where
  values := currencies.map fun currency => ⟨currency, units currency⟩
  sorted := List.pairwise_map.mpr hsorted
  bounded := by rwa [List.length_map]

section OfAmounts

variable {currencies : List CurrencyCode} {hsorted : StrictlySorted id currencies}
  {hbounded : currencies.length ≤ maxCostCurrencies} {units : CurrencyCode → Count}

@[simp] theorem currencies_ofAmounts :
    (ofAmounts currencies hsorted hbounded units).currencies = currencies := by
  show (currencies.map fun currency => (⟨currency, units currency⟩ : Money)).map Money.currency = _
  rw [List.map_map]
  exact List.map_id _

theorem amount_ofAmounts {currency : CurrencyCode} (h : currency ∈ currencies) :
    (ofAmounts currencies hsorted hbounded units).amount currency = (units currency).value := by
  have hmem : ⟨currency, units currency⟩ ∈ (ofAmounts currencies hsorted hbounded units).values :=
    List.mem_map_of_mem h
  have hamount := amount_of_mem hmem
  exact hamount

end OfAmounts

/-- There are costs with given amounts in given currencies when the amounts are 64-bit counts and
the currencies are few enough. -/
theorem exists_of_amounts (currencies : List CurrencyCode) (amounts : CurrencyCode → Nat)
    (hfew : (toOrderedSet currencies).length ≤ maxCostCurrencies)
    (hbounded : ∀ currency, amounts currency ≤ Count.max)
    (hzero : ∀ currency, currency ∉ currencies → amounts currency = 0) :
    ∃ costs : Costs, (∀ currency, currency ∈ costs.currencies ↔ currency ∈ currencies) ∧
      ∀ currency, costs.amount currency = amounts currency := by
  refine ⟨ofAmounts (toOrderedSet currencies) (strictlySorted_toOrderedSet _) hfew
    (fun currency => ⟨amounts currency, hbounded currency⟩), fun currency => ?_,
    fun currency => ?_⟩
  · rw [currencies_ofAmounts, mem_toOrderedSet]
  · by_cases h : currency ∈ currencies
    · rw [amount_ofAmounts (mem_toOrderedSet.mpr h)]
    · rw [hzero currency h, amount_eq_zero]
      rwa [currencies_ofAmounts, mem_toOrderedSet]

theorem length_toOrderedSet_le {currencies : List CurrencyCode}
    (h : ∀ currency ∈ currencies, currency ∈ costs.currencies) :
    (toOrderedSet currencies).length ≤ maxCostCurrencies := by
  have hsubset : toOrderedSet currencies ⊆ costs.currencies :=
    fun currency hcurrency => h currency (mem_toOrderedSet.mp hcurrency)
  have hlength := (List.subperm_of_subset (strictlySorted_toOrderedSet currencies).nodup
    hsubset).length_le
  rw [Costs.currencies, List.length_map] at hlength
  exact hlength.trans costs.bounded

@[simp] theorem currencies_mapAmounts (costs : Costs) (f : Money → Count) :
    (costs.mapAmounts f).currencies = costs.currencies := by
  show (costs.values.map _).map _ = costs.values.map _
  rw [List.map_map]
  rfl

theorem amount_mapAmounts {f : Money → Count}
    (h : money ∈ costs.values) :
    (costs.mapAmounts f).amount money.currency = (f money).value := by
  have hmem : ⟨money.currency, f money⟩ ∈ (costs.mapAmounts f).values :=
    List.mem_map.mpr ⟨money, h, rfl⟩
  exact amount_of_mem hmem

/-- The costs with one more charge. -/
structure Charged (costs : Costs) (money : Money) (next : Costs) : Prop where
  currencies : ∀ currency, currency ∈ next.currencies ↔
    currency ∈ costs.currencies ∨ currency = money.currency
  amount : ∀ currency, next.amount currency =
    costs.amount currency + if currency = money.currency then money.microUnits.value else 0

variable {next : Costs}

theorem Charged.unique {next' : Costs} (h : Charged costs money next)
    (h' : Charged costs money next') : next = next' := by
  refine ext_amounts (fun currency => ?_) (fun currency => ?_)
  · rw [h.currencies, h'.currencies]
  · rw [h.amount, h'.amount]

theorem charged_mapAmounts {existing : Money} {microUnits : Count}
    (hget : costs.get money.currency = some existing)
    (hunits : microUnits.value = existing.microUnits.value + money.microUnits.value) :
    Charged costs money (costs.mapAmounts fun entry =>
      if entry.currency = money.currency then microUnits else entry.microUnits) := by
  obtain ⟨hexisting, hcurrency⟩ := get_eq_some.mp hget
  have hlisted : money.currency ∈ costs.currencies := hcurrency ▸ List.mem_map_of_mem hexisting
  refine ⟨fun currency => ?_, fun currency => ?_⟩
  · rw [currencies_mapAmounts]
    constructor
    · exact Or.inl
    · intro h
      rcases h with h | rfl
      · exact h
      · exact hlisted
  · by_cases h : currency ∈ costs.currencies
    · obtain ⟨entry, hentry, rfl⟩ := List.mem_map.mp h
      rw [amount_mapAmounts hentry, amount_of_mem hentry]
      by_cases hsame : entry.currency = money.currency
      · have heq : entry = existing :=
          costs.sorted.eq_of_key_eq hentry hexisting (hsame.trans hcurrency.symm)
        rw [if_pos hsame, if_pos hsame, hunits, heq]
      · rw [if_neg hsame, if_neg hsame, Nat.add_zero]
    · have hne : currency ≠ money.currency := fun heq => h (heq ▸ hlisted)
      rw [if_neg hne, amount_eq_zero h, amount_eq_zero (by rwa [currencies_mapAmounts])]

theorem charged_insert
    (hfresh : money.currency ∉ costs.currencies)
    (hroom : costs.values.length ≠ maxCostCurrencies) :
    Charged costs money (costs.insert money hfresh hroom) := by
  have hvalues : ∀ entry, entry ∈ (costs.insert money hfresh hroom).values ↔
      entry = money ∨ entry ∈ costs.values := by
    intro entry
    rw [insert, mem_sortByKey, List.mem_cons]
  have hcurrencies : ∀ currency, currency ∈ (costs.insert money hfresh hroom).currencies ↔
      currency ∈ costs.currencies ∨ currency = money.currency := by
    intro currency
    simp only [currencies, List.mem_map, hvalues, or_and_right, exists_or, exists_eq_left]
    rw [or_comm, eq_comm (a := currency)]
  refine ⟨hcurrencies, fun currency => ?_⟩
  by_cases hsame : currency = money.currency
  · rw [if_pos hsame, hsame, amount_of_mem ((hvalues money).mpr (.inl rfl)), amount_eq_zero hfresh,
      Nat.zero_add]
  · rw [if_neg hsame, Nat.add_zero]
    by_cases h : currency ∈ costs.currencies
    · obtain ⟨entry, hentry, rfl⟩ := List.mem_map.mp h
      rw [amount_of_mem ((hvalues entry).mpr (.inr hentry)), amount_of_mem hentry]
    · rw [amount_eq_zero h, amount_eq_zero]
      rw [hcurrencies]
      exact fun hor => hor.elim h hsame

theorem Charged.length_ne (h : Charged costs money next)
    (hfresh : money.currency ∉ costs.currencies) : costs.values.length ≠ maxCostCurrencies := by
  have hnodup : (money.currency :: costs.currencies).Nodup :=
    List.nodup_cons.mpr ⟨hfresh, costs.sorted.nodup_keys⟩
  have hsubset : money.currency :: costs.currencies ⊆ next.currencies := by
    intro currency hcurrency
    rw [h.currencies]
    exact (List.mem_cons.mp hcurrency).symm
  have hlength := (List.subperm_of_subset hnodup hsubset).length_le
  have hbounded := next.bounded
  simp only [List.length_cons, Costs.currencies, List.length_map] at hlength
  omega

/-- A charge is accepted exactly when the charged costs exist. -/
theorem charge_eq_ok : costs.charge money = .ok next ↔ Charged costs money next := by
  unfold charge
  split
  · rename_i existing hget
    simp only [bind_eq_ok, okOr_eq_ok, Count.checkedAdd_eq_some, pure_eq_ok]
    constructor
    · intro h
      obtain ⟨microUnits, hunits, rfl⟩ := h
      exact charged_mapAmounts hget hunits
    · intro h
      have hamount := h.amount money.currency
      obtain ⟨hexisting, hcurrency⟩ := get_eq_some.mp hget
      rw [if_pos rfl, ← hcurrency, amount_of_mem hexisting] at hamount
      have hbounded := next.amount_le existing.currency
      rw [hamount] at hbounded
      exact ⟨⟨_, hbounded⟩, rfl, (charged_mapAmounts hget rfl).unique h⟩
  · rename_i hget
    have hfresh := get_eq_none.mp hget
    by_cases hfull : costs.values.length = maxCostCurrencies
    · rw [dif_pos hfull]
      constructor
      · intro h
        cases h
      · intro h
        exact absurd hfull (h.length_ne hfresh)
    · rw [dif_neg hfull, Except.ok.injEq]
      constructor
      · intro h
        exact h ▸ charged_insert hfresh hfull
      · intro h
        exact (charged_insert hfresh hfull).unique h

/-- What a list of charges adds to a currency. -/
def chargedIn (charges : List Money) (currency : CurrencyCode) : Nat :=
  (charges.map fun money => if currency = money.currency then money.microUnits.value else 0).sum

@[simp] theorem chargedIn_cons (money : Money) (charges : List Money) (currency : CurrencyCode) :
    chargedIn (money :: charges) currency =
      (if currency = money.currency then money.microUnits.value else 0) +
        chargedIn charges currency := by
  rw [chargedIn, List.map_cons, List.sum_cons]
  rfl

@[simp] theorem chargedIn_append (charges more : List Money) (currency : CurrencyCode) :
    chargedIn (charges ++ more) currency = chargedIn charges currency + chargedIn more currency := by
  rw [chargedIn, List.map_append, List.sum_append]
  rfl

theorem chargedIn_eq_zero {currency : CurrencyCode}
    (h : currency ∉ charges.map Money.currency) : chargedIn charges currency = 0 := by
  induction charges with
  | nil => rfl
  | cons money charges ih =>
    rw [List.map_cons, List.mem_cons, not_or] at h
    rw [chargedIn_cons, if_neg h.1, ih h.2]

theorem chargedIn_of_mem (hnodup : (charges.map Money.currency).Nodup) (h : money ∈ charges) :
    chargedIn charges money.currency = money.microUnits.value := by
  induction charges with
  | nil => cases h
  | cons first charges ih =>
    rw [List.map_cons, List.nodup_cons] at hnodup
    rw [chargedIn_cons]
    rcases List.mem_cons.mp h with rfl | h
    · rw [if_pos rfl, chargedIn_eq_zero hnodup.1, Nat.add_zero]
    · have hne : money.currency ≠ first.currency :=
        fun heq => hnodup.1 (heq ▸ List.mem_map_of_mem h)
      rw [if_neg hne, Nat.zero_add, ih hnodup.2 h]

theorem chargedIn_values (costs : Costs) (currency : CurrencyCode) :
    chargedIn costs.values currency = costs.amount currency := by
  by_cases h : currency ∈ costs.currencies
  · obtain ⟨money, hmoney, rfl⟩ := List.mem_map.mp h
    rw [chargedIn_of_mem costs.sorted.nodup_keys hmoney, amount_of_mem hmoney]
  · rw [chargedIn_eq_zero h, amount_eq_zero h]

/-- A charge that leads towards existing costs is accepted. -/
theorem exists_charged (next : Costs)
    (hcurrencies : ∀ currency, currency ∈ costs.currencies ∨ currency = money.currency →
      currency ∈ next.currencies)
    (hamounts : ∀ currency, costs.amount currency +
      (if currency = money.currency then money.microUnits.value else 0) ≤ next.amount currency) :
    ∃ middle, Charged costs money middle := by
  have hmem : ∀ currency, currency ∈ costs.currencies ++ [money.currency] ↔
      currency ∈ costs.currencies ∨ currency = money.currency := by
    intro currency
    rw [List.mem_append, List.mem_singleton]
  obtain ⟨middle, hmiddle, hsums⟩ := exists_of_amounts (costs.currencies ++ [money.currency])
    (fun currency => costs.amount currency +
      if currency = money.currency then money.microUnits.value else 0)
    (length_toOrderedSet_le (fun currency h => hcurrencies currency ((hmem currency).mp h)))
    (fun currency => (hamounts currency).trans (next.amount_le currency))
    (fun currency h => by
      rw [hmem, not_or] at h
      rw [if_neg h.2, amount_eq_zero h.1])
  exact ⟨middle, fun currency => (hmiddle currency).trans (hmem currency), hsums⟩

/-- The loop of `checked_accumulate` ends in the costs with all charges. -/
theorem foldlM_charge_eq_ok : charges.foldlM charge costs = .ok next ↔
      (∀ currency, currency ∈ next.currencies ↔
        currency ∈ costs.currencies ∨ currency ∈ charges.map Money.currency) ∧
      ∀ currency, next.amount currency = costs.amount currency + chargedIn charges currency := by
  induction charges generalizing costs with
  | nil =>
    rw [List.foldlM_nil]
    constructor
    · intro h
      cases h
      simp [chargedIn]
    · intro h
      obtain ⟨hcurrencies, hamounts⟩ := h
      refine congrArg Except.ok (ext_amounts (fun currency => ?_) (fun currency => ?_))
      · simp [hcurrencies]
      · simp [hamounts, chargedIn]
  | cons money charges ih =>
    simp only [List.foldlM_cons, bind_eq_ok, charge_eq_ok, ih, List.map_cons, List.mem_cons,
      chargedIn_cons]
    constructor
    · intro h
      obtain ⟨middle, hmiddle, hcurrencies, hamounts⟩ := h
      refine ⟨fun currency => ?_, fun currency => ?_⟩
      · rw [hcurrencies, hmiddle.currencies, or_assoc]
      · rw [hamounts, hmiddle.amount, Nat.add_assoc]
    · intro h
      obtain ⟨hcurrencies, hamounts⟩ := h
      have hexists : ∃ middle, Charged costs money middle := by
        refine exists_charged next (fun currency hor => ?_) (fun currency => ?_)
        · exact (hcurrencies currency).mpr (hor.imp_right Or.inl)
        · have hamount := hamounts currency
          omega
      obtain ⟨middle, hmiddle⟩ := hexists
      refine ⟨middle, hmiddle, fun currency => ?_, fun currency => ?_⟩
      · rw [hcurrencies, hmiddle.currencies, or_assoc]
      · rw [hamounts, hmiddle.amount, Nat.add_assoc]

/-- Accumulated costs have the currencies of both and the sums of their amounts. -/
theorem checkedAccumulate_eq_ok {other : Costs} : costs.checkedAccumulate other = .ok next ↔
      (∀ currency, currency ∈ next.currencies ↔
        currency ∈ costs.currencies ∨ currency ∈ other.currencies) ∧
      ∀ currency, next.amount currency = costs.amount currency + other.amount currency := by
  unfold checkedAccumulate
  rw [foldlM_charge_eq_ok]
  have hempty : ∀ currency, currency ∉ empty.currencies := fun currency => List.not_mem_nil
  simp only [List.map_append, List.mem_append, chargedIn_append, chargedIn_values, hempty,
    false_or, amount_eq_zero (hempty _), Nat.zero_add]
  rfl

end Costs

/-! ## Usages -/

namespace BudgetUsage

variable {total usage : BudgetUsage}

theorem checkedAccumulate_eq_ok {other : BudgetUsage} : usage.checkedAccumulate other = .ok total ↔
      (∀ counter, (total.counts counter).value =
        if counter.isPeak then max (usage.counts counter).value (other.counts counter).value
        else (usage.counts counter).value + (other.counts counter).value) ∧
      total.unpricedCostEvents.value =
        usage.unpricedCostEvents.value + other.unpricedCostEvents.value ∧
      usage.knownCosts.checkedAccumulate other.knownCosts = .ok total.knownCosts := by
  have hcounter : ∀ counter, accumulateCounter usage other counter = .ok (total.counts counter) ↔
      (total.counts counter).value =
        if counter.isPeak then max (usage.counts counter).value (other.counts counter).value
        else (usage.counts counter).value + (other.counts counter).value := by
    intro counter
    rw [accumulateCounter_eq_ok]
    by_cases hpeak : counter.isPeak = true
    · rw [if_pos hpeak, if_pos hpeak, ← Count.value_max, Count.value_injective.eq_iff]
    · rw [if_neg hpeak, if_neg hpeak]
  simp only [checkedAccumulate, attach_eq_ok, bind_eq_ok, mapError_eq_ok, okOr_eq_ok,
    Count.checkedAdd_eq_some, Counts.tryOf_eq_ok, pure_eq_ok, ← hcounter]
  constructor
  · intro h
    obtain ⟨counts, hcounts, knownCosts, hcosts, unpriced, hunpriced, rfl⟩ := h
    exact ⟨hcounts, hunpriced, hcosts⟩
  · intro h
    obtain ⟨hcounts, hunpriced, hcosts⟩ := h
    exact ⟨total.counts, hcounts, total.knownCosts, hcosts, total.unpricedCostEvents, hunpriced,
      rfl⟩

/-- No dimension of `usage` is below `previous` exactly when every amount is at least as large. -/
theorem validateMonotonicAfter_eq_ok {previous : BudgetUsage} {u : Unit} :
    usage.validateMonotonicAfter previous = .ok u ↔
      (∀ counter, (previous.counts counter).value ≤ (usage.counts counter).value) ∧
      previous.unpricedCostEvents.value ≤ usage.unpricedCostEvents.value ∧
      ∀ currency, previous.knownCosts.amount currency ≤ usage.knownCosts.amount currency := by
  simp only [validateMonotonicAfter, bind_eq_ok, forM_eq_ok, reject_eq_ok, exists_const, not_lt,
    Counter.mem_all, true_implies, Count.le_iff]
  refine and_congr_right fun _ => and_congr_right fun _ => ?_
  constructor
  · intro h currency
    by_cases hlisted : currency ∈ previous.knownCosts.currencies
    · obtain ⟨money, hmoney, rfl⟩ := List.mem_map.mp hlisted
      rw [Costs.amount_of_mem hmoney]
      exact h money hmoney
    · rw [Costs.amount_eq_zero hlisted]
      exact Nat.zero_le _
  · intro h money hmoney
    rw [← Costs.amount_of_mem hmoney]
    exact h money.currency

/-- The sum of a cumulative counter, the maximum of a high-water mark. -/
def counterTotal (counter : Counter) (usages : List BudgetUsage) : Nat :=
  let values := usages.map fun usage => (usage.counts counter).value
  if counter.isPeak then values.foldr max 0 else values.sum

def unpricedTotal (usages : List BudgetUsage) : Nat :=
  (usages.map fun usage => usage.unpricedCostEvents.value).sum

def amountTotal (currency : CurrencyCode) (usages : List BudgetUsage) : Nat :=
  (usages.map fun usage => usage.knownCosts.amount currency).sum

/-- The currencies of all usages. -/
def currenciesOf (usages : List BudgetUsage) : List CurrencyCode :=
  toOrderedSet (usages.flatMap fun usage => usage.knownCosts.currencies)

/-- The sums of the usages are 64-bit counts and their currencies fit into one collection. -/
structure Fits (usages : List BudgetUsage) : Prop where
  counts : ∀ counter, counter.isPeak = false → counterTotal counter usages ≤ Count.max
  unpriced : unpricedTotal usages ≤ Count.max
  amounts : ∀ currency, amountTotal currency usages ≤ Count.max
  currencies : (currenciesOf usages).length ≤ maxCostCurrencies

/-- What the usages amount to. -/
structure TotalOf (usages : List BudgetUsage) (total : BudgetUsage) : Prop where
  counts : ∀ counter, (total.counts counter).value = counterTotal counter usages
  unpriced : total.unpricedCostEvents.value = unpricedTotal usages
  amounts : ∀ currency, total.knownCosts.amount currency = amountTotal currency usages
  currencies : ∀ currency, currency ∈ total.knownCosts.currencies ↔
    currency ∈ currenciesOf usages

section Totals

variable {counter : Counter} {currency : CurrencyCode} {usages more : List BudgetUsage}
  {usage total : BudgetUsage}

theorem mem_currenciesOf : currency ∈ currenciesOf usages ↔
    ∃ usage ∈ usages, currency ∈ usage.knownCosts.currencies := by
  rw [currenciesOf, mem_toOrderedSet, List.mem_flatMap]

theorem counterTotal_of_isPeak (h : counter.isPeak = true) : counterTotal counter usages =
    (usages.map fun usage => (usage.counts counter).value).foldr max 0 := by
  rw [counterTotal, if_pos h]

theorem counterTotal_of_not_isPeak (h : counter.isPeak = false) : counterTotal counter usages =
    (usages.map fun usage => (usage.counts counter).value).sum := by
  rw [counterTotal, h]
  rfl

theorem counterTotal_cons : counterTotal counter (usage :: usages) =
    if counter.isPeak then max (usage.counts counter).value (counterTotal counter usages)
    else (usage.counts counter).value + counterTotal counter usages := by
  by_cases h : counter.isPeak = true
  · rw [if_pos h, counterTotal_of_isPeak h, counterTotal_of_isPeak h]
    rfl
  · rw [if_neg h]
    rw [Bool.not_eq_true] at h
    rw [counterTotal_of_not_isPeak h, counterTotal_of_not_isPeak h, List.map_cons, List.sum_cons]

theorem counterTotal_append : counterTotal counter (usages ++ more) =
    if counter.isPeak then max (counterTotal counter usages) (counterTotal counter more)
    else counterTotal counter usages + counterTotal counter more := by
  induction usages with
  | nil => simp [counterTotal]
  | cons usage usages ih =>
    rw [List.cons_append, counterTotal_cons, counterTotal_cons, ih]
    split
    · rw [max_assoc]
    · rw [Nat.add_assoc]

theorem le_counterTotal (h : usage ∈ usages) :
    (usage.counts counter).value ≤ counterTotal counter usages := by
  obtain ⟨before, after, rfl⟩ := List.append_of_mem h
  rw [counterTotal_append, counterTotal_cons]
  split <;> omega

theorem counterTotal_le_of_isPeak (h : counter.isPeak = true) :
    counterTotal counter usages ≤ Count.max := by
  induction usages with
  | nil => simp [counterTotal]
  | cons usage usages ih =>
    rw [counterTotal_cons, if_pos h]
    exact max_le (usage.counts counter).bounded ih

theorem counterTotal_le_of_mem_subsetPairs {pair : Counter × Counter} (h : pair ∈ subsetPairs) :
    counterTotal pair.1 usages ≤ counterTotal pair.2 usages := by
  obtain ⟨hpart, hwhole⟩ := isPeak_of_mem_subsetPairs pair h
  induction usages with
  | nil => simp [counterTotal]
  | cons usage usages ih =>
    have hsubset := Count.le_iff.mp (usage.subsets pair h)
    simp only [counterTotal_cons, hpart, hwhole, Bool.false_eq_true, if_false]
    omega

theorem amountTotal_append : amountTotal currency (usages ++ more) =
    amountTotal currency usages + amountTotal currency more := by
  rw [amountTotal, List.map_append, List.sum_append]
  rfl

theorem unpricedTotal_append :
    unpricedTotal (usages ++ more) = unpricedTotal usages + unpricedTotal more := by
  rw [unpricedTotal, List.map_append, List.sum_append]
  rfl

theorem amountTotal_eq_zero (h : currency ∉ currenciesOf usages) :
    amountTotal currency usages = 0 := by
  refine List.sum_eq_zero fun amount hamount => ?_
  obtain ⟨usage, husage, rfl⟩ := List.mem_map.mp hamount
  exact Costs.amount_eq_zero fun hlisted => h (mem_currenciesOf.mpr ⟨usage, husage, hlisted⟩)

theorem mem_currenciesOf_append : currency ∈ currenciesOf (usages ++ more) ↔
    currency ∈ currenciesOf usages ∨ currency ∈ currenciesOf more := by
  simp only [mem_currenciesOf, List.mem_append, or_and_right, exists_or]

/-- Usages that stay within another one fit. -/
theorem fits_of_le (total : BudgetUsage)
    (hcounts : ∀ counter, counter.isPeak = false →
      counterTotal counter usages ≤ (total.counts counter).value)
    (hunpriced : unpricedTotal usages ≤ total.unpricedCostEvents.value)
    (hamounts : ∀ currency, amountTotal currency usages ≤ total.knownCosts.amount currency)
    (hcurrencies : ∀ currency ∈ currenciesOf usages, currency ∈ total.knownCosts.currencies) :
    Fits usages where
  counts counter h := (hcounts counter h).trans (total.counts counter).bounded
  unpriced := hunpriced.trans total.unpricedCostEvents.bounded
  amounts currency := (hamounts currency).trans (total.knownCosts.amount_le currency)
  currencies := Costs.length_toOrderedSet_le fun currency h =>
    hcurrencies currency (mem_toOrderedSet.mpr h)

theorem exists_totalOf_iff : (∃ total, TotalOf usages total) ↔ Fits usages := by
  constructor
  · intro h
    obtain ⟨total, h⟩ := h
    exact fits_of_le total (fun counter _ => (h.counts counter).ge) h.unpriced.ge
      (fun currency => (h.amounts currency).ge) (fun currency => (h.currencies currency).mpr)
  · intro h
    have hcounts : ∀ counter, counterTotal counter usages ≤ Count.max := by
      intro counter
      by_cases hpeak : counter.isPeak = true
      · exact counterTotal_le_of_isPeak hpeak
      · exact h.counts counter (Bool.not_eq_true _ ▸ hpeak)
    obtain ⟨knownCosts, hcurrencies, hamounts⟩ := Costs.exists_of_amounts
      (usages.flatMap fun usage : BudgetUsage => usage.knownCosts.currencies)
      (fun currency => amountTotal currency usages) h.currencies h.amounts (fun currency hnone => by
        refine amountTotal_eq_zero fun hmem => hnone ?_
        exact mem_toOrderedSet.mp hmem)
    refine ⟨⟨fun counter => ⟨counterTotal counter usages, hcounts counter⟩, knownCosts,
      ⟨unpricedTotal usages, h.unpriced⟩, fun pair hpair => ?_⟩, fun counter => rfl, rfl, hamounts,
      fun currency => (hcurrencies currency).trans mem_toOrderedSet.symm⟩
    exact Count.le_iff.mpr (counterTotal_le_of_mem_subsetPairs hpair)

theorem TotalOf.of_perm (h : TotalOf usages total) (hperm : usages.Perm more) :
    TotalOf more total where
  counts counter := by
    rw [h.counts, counterTotal, counterTotal]
    split
    · exact (hperm.map _).foldr_eq 0
    · exact (hperm.map _).sum_eq
  unpriced := h.unpriced.trans (hperm.map _).sum_eq
  amounts currency := (h.amounts currency).trans (hperm.map _).sum_eq
  currencies currency := by
    rw [h.currencies, mem_currenciesOf, mem_currenciesOf]
    simp only [hperm.mem_iff]

end Totals

theorem TotalOf.checkedAccumulate_eq_ok {usages more : List BudgetUsage} {other : BudgetUsage}
    (h : TotalOf usages usage) (h' : TotalOf more other) :
    usage.checkedAccumulate other = .ok total ↔ TotalOf (usages ++ more) total := by
  rw [BudgetUsage.checkedAccumulate_eq_ok, Costs.checkedAccumulate_eq_ok]
  simp only [h.counts, h'.counts, h.unpriced, h'.unpriced, h.amounts, h'.amounts, h.currencies,
    h'.currencies, ← counterTotal_append, ← unpricedTotal_append, ← amountTotal_append,
    ← mem_currenciesOf_append]
  constructor
  · intro ⟨hcounts, hunpriced, hcurrencies, hamounts⟩
    exact ⟨hcounts, hunpriced, hamounts, hcurrencies⟩
  · intro htotal
    exact ⟨htotal.counts, htotal.unpriced, htotal.currencies, htotal.amounts⟩

theorem totalOf_nil : TotalOf [] zero where
  counts counter := by
    simp [counterTotal, zero]
  unpriced := rfl
  amounts currency := Costs.amount_eq_zero List.not_mem_nil
  currencies currency := by
    rw [mem_currenciesOf]
    simp [zero, Costs.empty, Costs.currencies]

theorem totalOf_singleton (usage : BudgetUsage) : TotalOf [usage] usage where
  counts counter := by
    simp [counterTotal]
  unpriced := by
    simp [unpricedTotal]
  amounts currency := by
    simp [amountTotal]
  currencies currency := by
    simp [mem_currenciesOf]

variable {usages : List BudgetUsage}

theorem TotalOf.unique {total' : BudgetUsage}
    (h : TotalOf usages total) (h' : TotalOf usages total') : total = total' := by
  refine ext_fields (funext fun counter => ?_) (Costs.ext_amounts (fun currency => ?_)
    fun currency => ?_) ?_
  · exact Count.value_injective ((h.counts counter).trans (h'.counts counter).symm)
  · exact (h.currencies currency).trans (h'.currencies currency).symm
  · exact (h.amounts currency).trans (h'.amounts currency).symm
  · exact Count.value_injective (h.unpriced.trans h'.unpriced.symm)

theorem TotalOf.fits_left {usages more : List BudgetUsage}
    (h : TotalOf (usages ++ more) total) : Fits usages := by
  refine fits_of_le total (fun counter hpeak => ?_) ?_ (fun currency => ?_)
    (fun currency hcurrency => ?_)
  · rw [h.counts, counterTotal_append, hpeak]
    exact Nat.le_add_right _ _
  · rw [h.unpriced, unpricedTotal_append]
    exact Nat.le_add_right _ _
  · rw [h.amounts, amountTotal_append]
    exact Nat.le_add_right _ _
  · exact (h.currencies currency).mpr (mem_currenciesOf_append.mpr (.inl hcurrency))

theorem exactTotals : ExactTotals checkedAccumulate zero TotalOf where
  nil := by
    intro total
    constructor
    · exact fun h => h.unique totalOf_nil
    · exact fun h => h ▸ totalOf_nil
  single := by
    intro usage total
    constructor
    · exact fun h => h.unique (totalOf_singleton usage)
    · exact fun h => h ▸ totalOf_singleton usage
  append := TotalOf.checkedAccumulate_eq_ok
  parts := by
    intro usages more total h
    rw [exists_totalOf_iff, exists_totalOf_iff]
    exact ⟨h.fits_left, (h.of_perm List.perm_append_comm).fits_left⟩

theorem TotalOf.monotonic (h : TotalOf usages total) (husage : usage ∈ usages) :
    total.validateMonotonicAfter usage = .ok () := by
  rw [validateMonotonicAfter_eq_ok]
  refine ⟨fun counter => ?_, ?_, fun currency => ?_⟩
  · rw [h.counts]
    exact le_counterTotal husage
  · rw [h.unpriced]
    exact List.single_le_sum (fun _ _ => Nat.zero_le _) _ (List.mem_map_of_mem husage)
  · rw [h.amounts]
    exact List.single_le_sum (fun _ _ => Nat.zero_le _) _ (List.mem_map_of_mem husage)

/-- Usages do not fit exactly when a sum leaves the 64-bit range or the currencies are too many. -/
theorem not_fits_iff : ¬ Fits usages ↔
    (∃ counter, counter.isPeak = false ∧ Count.max < counterTotal counter usages) ∨
    Count.max < unpricedTotal usages ∨
    (∃ currency, Count.max < amountTotal currency usages) ∨
    maxCostCurrencies < (currenciesOf usages).length := by
  constructor
  · intro h
    by_contra hnone
    simp only [not_or, not_exists, not_and, not_lt] at hnone
    exact h ⟨hnone.1, hnone.2.1, hnone.2.2.1, hnone.2.2.2⟩
  · intro h hfits
    rcases h with ⟨counter, hpeak, hsum⟩ | hsum | ⟨currency, hsum⟩ | hlength
    · exact absurd (hfits.counts counter hpeak) (not_le.mpr hsum)
    · exact absurd hfits.unpriced (not_le.mpr hsum)
    · exact absurd (hfits.amounts currency) (not_le.mpr hsum)
    · exact absurd hfits.currencies (not_le.mpr hlength)

end BudgetUsage

/-- Usages accumulate to one total in every order and grouping, or fail in all of them.  They fail
exactly when the sum of a cumulative counter, of the unpriced events or of a currency leaves the
64-bit range, or the currencies are too many.  A total has the sums of its parts and the maxima of
their high-water marks, is a valid usage, and is not below any part. -/
theorem usage_accumulation_exact (usages : List BudgetUsage) :
    (∀ grouping : Grouping BudgetUsage, grouping.items.Perm usages → ∀ total,
      grouping.accumulate BudgetUsage.checkedAccumulate .zero = .ok total ↔
        usages.foldlM BudgetUsage.checkedAccumulate .zero = .ok total) ∧
    ((∃ error, usages.foldlM BudgetUsage.checkedAccumulate .zero = .error error) ↔
      (∃ counter, counter.isPeak = false ∧ Count.max < BudgetUsage.counterTotal counter usages) ∨
      Count.max < BudgetUsage.unpricedTotal usages ∨
      (∃ currency, Count.max < BudgetUsage.amountTotal currency usages) ∨
      maxCostCurrencies < (BudgetUsage.currenciesOf usages).length) ∧
    ∀ total, usages.foldlM BudgetUsage.checkedAccumulate .zero = .ok total →
      BudgetUsage.TotalOf usages total ∧
      SubsetsWithin total.counts ∧ StrictlySorted Money.currency total.knownCosts.values ∧
      ∀ usage ∈ usages, total.validateMonotonicAfter usage = .ok () := by
  refine ⟨fun grouping hperm total => ?_, ?_, fun total htotal => ?_⟩
  · rw [BudgetUsage.exactTotals.accumulate_eq_ok, BudgetUsage.exactTotals.foldlM_eq_ok]
    exact ⟨fun h => h.of_perm hperm, fun h => h.of_perm hperm.symm⟩
  · rw [← BudgetUsage.not_fits_iff, ← BudgetUsage.exists_totalOf_iff]
    cases hfold : usages.foldlM BudgetUsage.checkedAccumulate .zero with
    | ok total =>
      have htotal := BudgetUsage.exactTotals.foldlM_eq_ok.mp hfold
      simp only [reduceCtorEq, exists_false, false_iff, not_not]
      exact ⟨total, htotal⟩
    | error error =>
      refine ⟨fun _ hexists => ?_, fun _ => ⟨error, rfl⟩⟩
      obtain ⟨total, htotal⟩ := hexists
      cases hfold.symm.trans (BudgetUsage.exactTotals.foldlM_eq_ok.mpr htotal)
  · have h := BudgetUsage.exactTotals.foldlM_eq_ok.mp htotal
    exact ⟨h, total.subsets, total.knownCosts.sorted, fun usage husage => h.monotonic husage⟩

end StateKnot
