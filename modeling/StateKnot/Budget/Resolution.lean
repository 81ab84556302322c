import StateKnot.Budget.Ledger

/-!
# Resolution as a greatest lower bound

Layers of limits resolve to the widest budget that stays within all of them.  What
the result is depends on which layers there are, not on their order or on how often
one of them occurs; only the number of layers is bounded.  The order of budgets is
the one that `validate_narrowing` decides, and what a narrower budget leaves of a
usage, a wider one leaves as well.
-/

namespace StateKnot

open Lib

/-! ## Costs -/

namespace Costs

variable {costs other : Costs}

theorem Within.antisymm (h : costs.Within other) (h' : other.Within costs) : costs = other := by
  have hlisted := within_iff.mp h
  have hlisted' := within_iff.mp h'
  refine ext_amounts (fun currency => ?_) fun currency => ?_
  · exact ⟨fun hmem => (hlisted currency hmem).1, fun hmem => (hlisted' currency hmem).1⟩
  · exact le_antisymm (h.amount_le currency) (h'.amount_le currency)

theorem mem_currencies_mostRestrictive {currency : CurrencyCode} :
    currency ∈ (costs.mostRestrictive other).currencies ↔
      currency ∈ costs.currencies ∧ currency ∈ other.currencies := by
  constructor
  · intro h
    exact ⟨(within_iff.mp (mostRestrictive_within_left costs other) currency h).1,
      (within_iff.mp (mostRestrictive_within_right costs other) currency h).1⟩
  · intro h
    obtain ⟨hleft, hright⟩ := h
    obtain ⟨left, hmem, rfl⟩ := List.mem_map.mp hleft
    obtain ⟨right, hmem', hsame⟩ := List.mem_map.mp hright
    have hget : other.get left.currency = some right := get_eq_some.mpr ⟨hmem', hsame⟩
    apply List.mem_map.mpr
    refine ⟨⟨left.currency, min left.microUnits right.microUnits⟩, ?_, rfl⟩
    exact List.mem_filterMap.mpr ⟨left, hmem, by rw [hget]; rfl⟩

/-- The common ceilings are the widest within both. -/
theorem Within.mostRestrictive {inner : Costs} (h : inner.Within costs) (h' : inner.Within other) :
    inner.Within (costs.mostRestrictive other) := by
  apply within_iff.mpr
  intro currency hcurrency
  obtain ⟨hleft, hle⟩ := within_iff.mp h currency hcurrency
  obtain ⟨hright, hle'⟩ := within_iff.mp h' currency hcurrency
  have hlisted := mem_currencies_mostRestrictive.mpr ⟨hleft, hright⟩
  refine ⟨hlisted, ?_⟩
  obtain ⟨money, hmoney, rfl⟩ := List.mem_map.mp hlisted
  obtain ⟨left, right, hgetLeft, hgetRight, hamount⟩ := mem_mostRestrictive hmoney
  obtain ⟨hmem, hsame⟩ := get_eq_some.mp hgetLeft
  obtain ⟨hmem', hsame'⟩ := get_eq_some.mp hgetRight
  rw [← hsame, amount_of_mem hmem, hsame] at hle
  rw [← hsame', amount_of_mem hmem', hsame'] at hle'
  rw [amount_of_mem hmoney, hamount]
  rcases le_total left.microUnits right.microUnits with hmin | hmin
  · rw [min_eq_left hmin]
    exact hle
  · rw [min_eq_right hmin]
    exact hle'

end Costs

/-! ## Layers -/

namespace BudgetLimits

variable {limits other : BudgetLimits}

theorem Tightens.antisymm (h : limits.Tightens other) (h' : other.Tightens limits) :
    limits = other := by
  have hdeadline := h.deadline.antisymm le_antisymm h'.deadline
  have hcounts : limits.counts = other.counts := by
    funext counter
    exact (h.counts counter).antisymm le_antisymm (h'.counts counter)
  have hcosts := h.costs.antisymm Costs.Within.antisymm h'.costs
  cases limits
  cases other
  cases hdeadline
  cases hcounts
  cases hcosts
  rfl

/-- The combination of two layers is the widest that is at least as strict as both. -/
theorem Tightens.mostRestrictive {inner : BudgetLimits} (h : inner.Tightens limits)
    (h' : inner.Tightens other) : inner.Tightens (limits.mostRestrictive other) where
  deadline := restricts_minOption h.deadline h'.deadline
  counts := fun counter => restricts_minOption (h.counts counter) (h'.counts counter)
  costs := by
    intro both hboth
    have hcosts := h.costs
    have hcosts' := h'.costs
    have hboth' : mostRestrictiveCosts limits.costs other.costs = some both := hboth
    cases hleft : limits.costs with
    | none =>
      cases hright : other.costs with
      | none =>
        rw [hleft, hright] at hboth'
        cases hboth'
      | some right =>
        rw [hleft, hright] at hboth'
        cases hboth'
        exact hcosts' both hright
    | some left =>
      cases hright : other.costs with
      | none =>
        rw [hleft, hright] at hboth'
        cases hboth'
        exact hcosts both hleft
      | some right =>
        rw [hleft, hright] at hboth'
        cases hboth'
        obtain ⟨mine, hmine, hwithin⟩ := hcosts left hleft
        obtain ⟨mine', hmine', hwithin'⟩ := hcosts' right hright
        cases hmine.symm.trans hmine'
        exact ⟨mine, hmine, hwithin.mostRestrictive hwithin'⟩

/-- What all layers together allow. -/
def combined (layers : List BudgetLimits) : BudgetLimits :=
  layers.foldl BudgetLimits.mostRestrictive .empty

theorem tightens_empty (limits : BudgetLimits) : limits.Tightens .empty :=
  ⟨fun _ h => (Option.not_mem_none _ h).elim, fun _ _ h => (Option.not_mem_none _ h).elim,
    fun _ h => (Option.not_mem_none _ h).elim⟩

variable {layers layers' : List BudgetLimits}

/-- A layer is at least as strict as the combination exactly when it is as strict as each. -/
theorem tightens_combined_iff :
    limits.Tightens (combined layers) ↔ ∀ layer ∈ layers, limits.Tightens layer := by
  constructor
  · intro h layer hlayer
    exact h.trans (foldl_below Tightens.refl Tightens.trans mostRestrictive_tightens_left
      mostRestrictive_tightens_right hlayer)
  · intro h
    exact below_foldl Tightens.mostRestrictive (tightens_empty limits) h

/-- The combination depends only on which layers there are. -/
theorem combined_eq_of_mem_iff (h : ∀ layer, layer ∈ layers ↔ layer ∈ layers') :
    combined layers = combined layers' := by
  apply Tightens.antisymm
  · apply tightens_combined_iff.mpr
    intro layer hlayer
    exact tightens_combined_iff.mp (.refl _) layer ((h layer).mpr hlayer)
  · apply tightens_combined_iff.mpr
    intro layer hlayer
    exact tightens_combined_iff.mp (.refl _) layer ((h layer).mp hlayer)

/-- The layer bounds a dimension. -/
def Sets (limits : BudgetLimits) (dimension : BudgetDimension) : Prop :=
  (dimension = .deadline ∧ limits.deadline.isSome = true) ∨
    (dimension = .costs ∧ limits.costs.isSome = true) ∨
    ∃ counter, counter.dimension = dimension ∧ (limits.counts counter).isSome = true

theorem sets_mostRestrictive {dimension : BudgetDimension} :
    (limits.mostRestrictive other).Sets dimension ↔
      limits.Sets dimension ∨ other.Sets dimension := by
  have hcosts : (mostRestrictiveCosts limits.costs other.costs).isSome = true ↔
      limits.costs.isSome = true ∨ other.costs.isSome = true := by
    cases limits.costs <;> cases other.costs <;> simp [mostRestrictiveCosts]
  simp only [Sets, mostRestrictive, isSome_minOption, hcosts, and_or_left, exists_or]
  rw [@or_or_or_comm (dimension = .costs ∧ _), or_or_or_comm]

/-- The layers bound together what one of them bounds. -/
theorem sets_combined_iff {dimension : BudgetDimension} :
    (combined layers).Sets dimension ↔ ∃ layer ∈ layers, layer.Sets dimension := by
  have hnone : ∀ limits other : BudgetLimits, ¬ (limits.mostRestrictive other).Sets dimension ↔
      ¬ limits.Sets dimension ∧ ¬ other.Sets dimension := by
    intro limits other
    rw [sets_mostRestrictive, not_or]
  have hempty : ¬ BudgetLimits.empty.Sets dimension := by
    simp [Sets, empty]
  have hfold := foldl_combine_iff (fun limits => ¬ limits.Sets dimension) hnone layers
    .empty
  rw [← not_iff_not]
  unfold combined
  rw [hfold]
  push Not
  exact ⟨fun h => h.2, fun h => ⟨hempty, h⟩⟩

/-- The cost ceilings, if there are any, have the currency. -/
def Allows (limits : BudgetLimits) (currency : CurrencyCode) : Prop :=
  ∀ costs ∈ limits.costs, currency ∈ costs.currencies

theorem allows_combined_iff {currency : CurrencyCode} :
    (combined layers).Allows currency ↔ ∀ layer ∈ layers, layer.Allows currency := by
  have hboth : ∀ limits other : BudgetLimits, (limits.mostRestrictive other).Allows currency ↔
      limits.Allows currency ∧ other.Allows currency := by
    intro limits other
    show (∀ costs ∈ mostRestrictiveCosts limits.costs other.costs, _) ↔ _
    unfold Allows
    cases limits.costs <;> cases other.costs <;>
      simp [mostRestrictiveCosts, Costs.mem_currencies_mostRestrictive]
  have hempty : BudgetLimits.empty.Allows currency := fun _ h => (Option.not_mem_none _ h).elim
  have hfold := foldl_combine_iff (fun limits => limits.Allows currency) hboth layers
    .empty
  unfold combined
  rw [hfold]
  exact ⟨fun h => h.2, fun h => ⟨hempty, h⟩⟩

end BudgetLimits

/-! ## Budgets -/

namespace ResolvedBudget

variable {budget other : ResolvedBudget} {layers layers' : List BudgetLimits}

theorem Narrows.antisymm (h : budget.Narrows other) (h' : other.Narrows budget) :
    budget = other := by
  apply ext_fields
  · exact le_antisymm h.deadline h'.deadline
  · funext counter
    exact le_antisymm (h.counts counter) (h'.counts counter)
  · exact h.costs.antisymm h'.costs

/-- The budget as one layer. -/
def asLimits (budget : ResolvedBudget) : BudgetLimits :=
  ⟨some budget.deadline, fun counter => some (budget.counts counter), some budget.costs⟩

theorem respects_iff {layer : BudgetLimits} :
    budget.Respects layer ↔ budget.asLimits.Tightens layer := by
  constructor
  · intro h
    exact ⟨fun instant hinstant => ⟨_, rfl, h.deadline instant hinstant⟩,
      fun counter limit hlimit => ⟨_, rfl, h.counts counter limit hlimit⟩,
      fun limits hlimits => ⟨_, rfl, h.costs limits hlimits⟩⟩
  · intro h
    refine ⟨fun instant hinstant => ?_, fun counter limit hlimit => ?_, fun limits hlimits => ?_⟩
    · obtain ⟨_, hmine, hle⟩ := h.deadline instant hinstant
      cases hmine
      exact hle
    · obtain ⟨_, hmine, hle⟩ := h.counts counter limit hlimit
      cases hmine
      exact hle
    · obtain ⟨_, hmine, hwithin⟩ := h.costs limits hlimits
      cases hmine
      exact hwithin

/-- The budget takes every bound from the limits and clamps the parts. -/
structure Fills (budget : ResolvedBudget) (limits : BudgetLimits) (bounds : Counts) : Prop where
  deadline : limits.deadline = some budget.deadline
  counts : ∀ counter, limits.counts counter = some (bounds counter)
  clamped : budget.counts = clampSubsets bounds
  costs : limits.costs = some budget.costs

theorem resolve_eq_ok : resolve layers = .ok budget ↔
    layers ≠ [] ∧ layers.length ≤ maxBudgetLayers ∧
      ∃ counts, budget.Fills (BudgetLimits.combined layers) counts := by
  simp only [resolve, required, bind_eq_ok, reject_eq_ok, okOr_eq_ok, forM_eq_ok, exists_const,
    Counts.tryOf_eq_ok, pure_eq_ok, not_lt]
  refine and_congr_right fun _ => and_congr_right fun _ => ?_
  constructor
  · intro h
    obtain ⟨_, deadline, hdeadline, counts, hcounts, costs, hcosts, rfl⟩ := h
    exact ⟨counts, hdeadline, hcounts, rfl, hcosts⟩
  · intro h
    obtain ⟨counts, hfills⟩ := h
    refine ⟨fun counter _ => ⟨_, hfills.counts counter, trivial⟩, _, hfills.deadline, counts,
      hfills.counts, _, hfills.costs, ?_⟩
    exact ext_fields rfl hfills.clamped.symm rfl

/-- The clamped parts are the largest that a valid budget within the bounds can have. -/
theorem le_clampSubsets {counts counts' : Counts} (hsubsets : SubsetsWithin counts)
    (h : ∀ counter, counts counter ≤ counts' counter) (counter : Counter) :
    counts counter ≤ clampSubsets counts' counter := by
  have hcached := hsubsets (.cachedInputTokens, .inputTokens) (by decide)
  have hreasoning := hsubsets (.reasoningTokens, .outputTokens) (by decide)
  have hwrites := hsubsets (.writeCalls, .toolCalls) (by decide)
  cases counter with
  | cachedInputTokens => exact le_min (h _) (hcached.trans (h _))
  | reasoningTokens => exact le_min (h _) (hreasoning.trans (h _))
  | writeCalls => exact le_min (h _) (hwrites.trans (h _))
  | _ => exact h _

/-- The resolved budget is the widest that respects every layer. -/
theorem narrows_of_respects (hresolve : resolve layers = .ok budget)
    (h : ∀ layer ∈ layers, other.Respects layer) : other.Narrows budget := by
  obtain ⟨_, _, counts, hfills⟩ := resolve_eq_ok.mp hresolve
  have htight : other.asLimits.Tightens (BudgetLimits.combined layers) := by
    apply BudgetLimits.tightens_combined_iff.mpr
    intro layer hlayer
    exact respects_iff.mp (h layer hlayer)
  refine ⟨?_, fun counter => ?_, ?_⟩
  · obtain ⟨_, hmine, hle⟩ := htight.deadline budget.deadline hfills.deadline
    cases hmine
    exact hle
  · rw [hfills.clamped]
    apply le_clampSubsets other.subsets
    intro counter
    obtain ⟨_, hmine, hle⟩ := htight.counts counter _ (hfills.counts counter)
    cases hmine
    exact hle
  · obtain ⟨_, hmine, hwithin⟩ := htight.costs budget.costs hfills.costs
    cases hmine
    exact hwithin

/-- The resolved currencies are those that every layer with costs allows. -/
theorem mem_currencies_resolve (hresolve : resolve layers = .ok budget)
    (currency : CurrencyCode) : currency ∈ budget.costs.currencies ↔
      ∀ layer ∈ layers, ∀ costs ∈ layer.costs, currency ∈ costs.currencies := by
  obtain ⟨_, _, _, hfills⟩ := resolve_eq_ok.mp hresolve
  have hallows : (BudgetLimits.combined layers).Allows currency ↔ _ :=
    BudgetLimits.allows_combined_iff
  unfold BudgetLimits.Allows at hallows
  rw [hfills.costs] at hallows
  rw [← hallows]
  simp only [Option.mem_some_iff, forall_eq']

/-- Within the number of layers, the only failure is a dimension that no layer bounds. -/
theorem resolve_eq_error {error : BudgetResolutionError} (hne : layers ≠ [])
    (hlength : layers.length ≤ maxBudgetLayers) (h : resolve layers = .error error) :
    ∃ dimension, error = .missing dimension ∧
      ¬ (BudgetLimits.combined layers).Sets dimension := by
  have hcounter : ∀ {counter : Counter},
      (BudgetLimits.combined layers).counts counter = none →
      ¬ (BudgetLimits.combined layers).Sets counter.dimension := by
    intro counter hnone hsets
    rcases hsets with ⟨hdimension, _⟩ | ⟨hdimension, _⟩ | ⟨other, hdimension, hsome⟩
    · cases counter <;> cases hdimension
    · cases counter <;> cases hdimension
    · have hsame : other = counter := by
        cases other <;> cases counter <;> first | rfl | cases hdimension
      rw [hsame, hnone] at hsome
      cases hsome
  simp only [resolve, required, bind_eq_error, reject_eq_error, reject_eq_ok, okOr_eq_error,
    exists_const] at h
  rcases h with hempty | ⟨_, hmany | ⟨_, hfirst | ⟨_, _, hdeadline | ⟨_, _, hcounts |
    ⟨_, _, hcosts | ⟨_, _, hreturn⟩⟩⟩⟩⟩⟩
  · exact absurd hempty.1 hne
  · exact absurd hlength (not_le.mpr hmany.1)
  · obtain ⟨counter, _, hfails⟩ := exists_of_forM_eq_error hfirst
    rw [bind_eq_error, okOr_eq_error] at hfails
    rcases hfails with ⟨hnone, rfl⟩ | ⟨_, _, hreturn⟩
    · exact ⟨_, rfl, hcounter hnone⟩
    · cases hreturn
  · refine ⟨_, hdeadline.2.symm, fun hsets => ?_⟩
    have hnone : (BudgetLimits.combined layers).deadline = none := hdeadline.1
    rcases hsets with ⟨_, hsome⟩ | ⟨hdimension, _⟩ | ⟨other, hdimension, _⟩
    · rw [hnone] at hsome
      cases hsome
    · cases hdimension
    · cases other <;> cases hdimension
  · rw [Counts.tryOf, bind_eq_error] at hcounts
    rcases hcounts with hfails | ⟨_, _, hreturn⟩
    · obtain ⟨counter, _, hfails⟩ := exists_of_forM_eq_error hfails
      rw [bind_eq_error, okOr_eq_error] at hfails
      rcases hfails with ⟨hnone, rfl⟩ | ⟨_, _, hreturn⟩
      · exact ⟨_, rfl, hcounter hnone⟩
      · cases hreturn
    · cases hreturn
  · refine ⟨_, hcosts.2.symm, fun hsets => ?_⟩
    have hnone : (BudgetLimits.combined layers).costs = none := hcosts.1
    rcases hsets with ⟨hdimension, _⟩ | ⟨_, hsome⟩ | ⟨other, hdimension, _⟩
    · cases hdimension
    · rw [hnone] at hsome
      cases hsome
    · cases other <;> cases hdimension
  · cases hreturn

/-- Layers with the same members resolve alike, as long as their numbers are accepted alike. -/
theorem resolve_eq_of_mem_iff (hmem : ∀ layer, layer ∈ layers ↔ layer ∈ layers')
    (hlength : layers.length = layers'.length ∨
      layers.length ≤ maxBudgetLayers ∧ layers'.length ≤ maxBudgetLayers) :
    resolve layers = resolve layers' := by
  have hcombined : layers.foldl BudgetLimits.mostRestrictive .empty =
      layers'.foldl BudgetLimits.mostRestrictive .empty := BudgetLimits.combined_eq_of_mem_iff hmem
  have hempty : layers = [] ↔ layers' = [] := by
    rw [List.eq_nil_iff_forall_not_mem, List.eq_nil_iff_forall_not_mem]
    simp only [hmem]
  have hmany : reject (layers.length > maxBudgetLayers)
      (BudgetResolutionError.tooManyLayers maxBudgetLayers layers.length) =
      reject (layers'.length > maxBudgetLayers)
        (BudgetResolutionError.tooManyLayers maxBudgetLayers layers'.length) := by
    rcases hlength with hsame | ⟨hfew, hfew'⟩
    · rw [hsame]
    · unfold reject
      rw [if_neg (not_lt.mpr hfew), if_neg (not_lt.mpr hfew')]
  unfold resolve
  simp only [hcombined, hempty, hmany]

theorem resolve_cons_narrows {layer : BudgetLimits} (h : resolve layers = .ok budget)
    (h' : resolve (layer :: layers) = .ok other) : other.Narrows budget := by
  apply narrows_of_respects h
  intro earlier hearlier
  exact respects_of_resolve h' earlier (List.mem_cons_of_mem layer hearlier)

theorem dimension_cases (dimension : BudgetDimension) : dimension = .deadline ∨
    dimension = .costs ∨ ∃ counter : Counter, counter.dimension = dimension := by
  by_cases hdeadline : dimension = .deadline
  · exact .inl hdeadline
  · by_cases hcosts : dimension = .costs
    · exact .inr (.inl hcosts)
    · refine .inr (.inr ?_)
      cases dimension <;> first | exact absurd rfl hdeadline | exact absurd rfl hcosts | decide

/-- Where the layers resolve, every dimension is bounded by one of them. -/
theorem exists_sets (h : resolve layers = .ok budget) (dimension : BudgetDimension) :
    ∃ layer ∈ layers, layer.Sets dimension := by
  obtain ⟨_, _, bounds, hfills⟩ := resolve_eq_ok.mp h
  apply BudgetLimits.sets_combined_iff.mp
  rcases dimension_cases dimension with hdeadline | hcosts | ⟨counter, hcounter⟩
  · exact .inl ⟨hdeadline, by rw [hfills.deadline]; rfl⟩
  · exact .inr (.inl ⟨hcosts, by rw [hfills.costs]; rfl⟩)
  · exact .inr (.inr ⟨counter, hcounter, by rw [hfills.counts counter]; rfl⟩)

theorem exists_resolve_cons {layer : BudgetLimits} (h : resolve layers = .ok budget)
    (hlength : layers.length < maxBudgetLayers) :
    ∃ next, resolve (layer :: layers) = .ok next := by
  cases hresolve : resolve (layer :: layers) with
  | ok next => exact ⟨next, rfl⟩
  | error error =>
    obtain ⟨dimension, _, hunset⟩ := resolve_eq_error (List.cons_ne_nil _ _) hlength hresolve
    obtain ⟨setting, hsetting, hsets⟩ := exists_sets h dimension
    exact absurd (BudgetLimits.sets_combined_iff.mpr
      ⟨setting, List.mem_cons_of_mem layer hsetting, hsets⟩) hunset

/-- What a narrower budget leaves, a wider one leaves as well. -/
theorem Narrows.less_le {usage : BudgetUsage} (h : budget.Narrows other) :
    (budget.less usage).deadline ≤ (other.less usage).deadline ∧
      (∀ counter, (budget.less usage).counts counter ≤ (other.less usage).counts counter) ∧
      (budget.less usage).costs.Within (other.less usage).costs := by
  refine ⟨h.deadline, fun counter => ?_, Costs.within_iff.mpr fun currency hcurrency => ?_⟩
  · have hle := Count.le_iff.mp (h.counts counter)
    show (budget.counts counter).value - (usage.counts counter).value ≤
      (other.counts counter).value - (usage.counts counter).value
    omega
  · have hlisted : currency ∈ budget.costs.currencies := by
      have hrest : currency ∈ (budget.costs.minus usage.knownCosts).currencies := hcurrency
      rwa [Costs.currencies_minus] at hrest
    obtain ⟨houter, hle⟩ := Costs.within_iff.mp h.costs currency hlisted
    show currency ∈ (other.costs.minus _).currencies ∧
      (budget.costs.minus _).amount currency ≤ (other.costs.minus _).amount currency
    rw [Costs.currencies_minus, Costs.amount_minus hlisted, Costs.amount_minus houter]
    exact ⟨houter, Nat.sub_le_sub_right hle _⟩

end ResolvedBudget

/-- Resolution is a greatest lower bound.  Its result depends on which layers there are, not on
their order or repetition, within the number of layers that are accepted; it fails for a
dimension exactly when no layer bounds it; the resolved budget is the widest within every
layer, and another layer narrows it.  Narrowing is a partial order, along which what remains
only grows. -/
theorem resolution_is_greatest_lower_bound :
    (∀ layers layers' : List BudgetLimits, layers.Perm layers' →
      ResolvedBudget.resolve layers = ResolvedBudget.resolve layers') ∧
    (∀ layers layers' : List BudgetLimits, (∀ layer, layer ∈ layers ↔ layer ∈ layers') →
      layers.length ≤ maxBudgetLayers → layers'.length ≤ maxBudgetLayers →
      ResolvedBudget.resolve layers = ResolvedBudget.resolve layers') ∧
    (∀ layers : List BudgetLimits, layers ≠ [] → layers.length ≤ maxBudgetLayers →
      (∀ error, ResolvedBudget.resolve layers = .error error →
        ∃ dimension, error = .missing dimension ∧ ∀ layer ∈ layers, ¬ layer.Sets dimension) ∧
      ∀ dimension, (∀ layer ∈ layers, ¬ layer.Sets dimension) →
        ∃ missing, ResolvedBudget.resolve layers = .error (.missing missing)) ∧
    (∀ layers budget, ResolvedBudget.resolve layers = .ok budget →
      SubsetsWithin budget.counts ∧ (∀ layer ∈ layers, budget.Respects layer) ∧
      (∀ other : ResolvedBudget, (∀ layer ∈ layers, other.Respects layer) →
        other.validateNarrowing budget = .ok ()) ∧
      (∀ currency, currency ∈ budget.costs.currencies ↔
        ∀ layer ∈ layers, ∀ costs ∈ layer.costs, currency ∈ costs.currencies) ∧
      ∀ layer : BudgetLimits, (layers.length < maxBudgetLayers →
          ∃ next, ResolvedBudget.resolve (layer :: layers) = .ok next) ∧
        ∀ next, ResolvedBudget.resolve (layer :: layers) = .ok next →
          next.validateNarrowing budget = .ok ()) ∧
    (∀ budget : ResolvedBudget, budget.validateNarrowing budget = .ok ()) ∧
    (∀ a b c : ResolvedBudget, a.validateNarrowing b = .ok () → b.validateNarrowing c = .ok () →
      a.validateNarrowing c = .ok ()) ∧
    (∀ a b : ResolvedBudget, a.validateNarrowing b = .ok () → b.validateNarrowing a = .ok () →
      a = b) ∧
    ∀ child parent : ResolvedBudget, child.validateNarrowing parent = .ok () →
      ∀ (usage : BudgetUsage) (observedAt : Timestamp) (rest : BudgetRemaining),
        child.remaining usage observedAt = .ok rest →
        ∃ rest', parent.remaining usage observedAt = .ok rest' ∧
          rest.deadline ≤ rest'.deadline ∧
          (∀ counter, rest.counts counter ≤ rest'.counts counter) ∧
          rest.costs.Within rest'.costs := by
  simp only [ResolvedBudget.validateNarrowing_eq_ok]
  refine ⟨fun layers layers' hperm => ?_, fun layers layers' hmem hfew hfew' => ?_,
    fun layers hne hlength => ⟨fun error herror => ?_, fun dimension hunset => ?_⟩,
    fun layers budget hresolve => ?_, .refl, fun a b c => .trans,
    fun a b hab hba => hab.antisymm hba,
    fun child parent hnarrows usage observedAt rest hrest => ?_⟩
  · exact ResolvedBudget.resolve_eq_of_mem_iff (fun layer => hperm.mem_iff) (.inl hperm.length_eq)
  · exact ResolvedBudget.resolve_eq_of_mem_iff hmem (.inr ⟨hfew, hfew'⟩)
  · obtain ⟨dimension, hmissing, hunset⟩ := ResolvedBudget.resolve_eq_error hne hlength herror
    refine ⟨dimension, hmissing, fun layer hlayer hsets => hunset ?_⟩
    exact BudgetLimits.sets_combined_iff.mpr ⟨layer, hlayer, hsets⟩
  · cases hresolve : ResolvedBudget.resolve layers with
    | error error =>
      obtain ⟨missing, rfl, _⟩ := ResolvedBudget.resolve_eq_error hne hlength hresolve
      exact ⟨missing, rfl⟩
    | ok budget =>
      obtain ⟨layer, hlayer, hsets⟩ := ResolvedBudget.exists_sets hresolve dimension
      exact absurd hsets (hunset layer hlayer)
  · refine ⟨budget.subsets, ResolvedBudget.respects_of_resolve hresolve,
      fun other => ResolvedBudget.narrows_of_respects hresolve,
      ResolvedBudget.mem_currencies_resolve hresolve, fun layer => ⟨fun hfew => ?_,
      fun next hnext => ResolvedBudget.resolve_cons_narrows hresolve hnext⟩⟩
    exact ResolvedBudget.exists_resolve_cons hresolve hfew
  · obtain ⟨hcovers, rfl⟩ := ResolvedBudget.remaining_eq_ok.mp hrest
    exact ⟨_, ResolvedBudget.remaining_eq_ok.mpr ⟨hnarrows.covers hcovers, rfl⟩,
      hnarrows.less_le⟩

/-- A layer that bounds every dimension at zero. -/
def Resolution.Sample.layer : BudgetLimits :=
  ⟨some (.ofMicros 0), fun _ => some 0, some .empty⟩

/-- Sixteen times one layer resolve; one more time is too often. -/
theorem repeated_layer_may_be_refused :
    (∃ budget, ResolvedBudget.resolve (List.replicate 16 Resolution.Sample.layer) = .ok budget) ∧
      ResolvedBudget.resolve (List.replicate 17 Resolution.Sample.layer) =
        .error (.tooManyLayers 16 17) := by
  refine ⟨?_, by decide +kernel⟩
  have hsome : (ResolvedBudget.resolve
      (List.replicate 16 Resolution.Sample.layer)).toOption.isSome = true := by
    decide +kernel
  obtain ⟨budget, hbudget⟩ := Option.isSome_iff_exists.mp hsome
  exact ⟨budget, toOption_eq_some.mp hbudget⟩

end StateKnot
