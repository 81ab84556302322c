import StateKnot.ChildRun.Account
import StateKnot.ChildRun.Delegation

/-!
# Capacity of a child budget account

What remains of a delegating run's budget is the budget less the charges of the
account: the direct usage and one charge for every child.  Reserving adds a charge,
settling exchanges the reservation for what was used, and a direct observation
exchanges the direct usage, so each of them moves what remains by exactly the
difference.
-/

namespace StateKnot

open Lib BudgetUsage

variable {E : Encoding}

/-! ## The charges of an account -/

theorem totalOf_perm_iff {usages usages' : List BudgetUsage} {total : BudgetUsage}
    (h : usages.Perm usages') : TotalOf usages total ↔ TotalOf usages' total :=
  ⟨fun htotal => htotal.of_perm h, fun htotal => htotal.of_perm h.symm⟩

theorem ChildRunBudgetEntry.charge_peak (entry : ChildRunBudgetEntry E) {counter : Counter}
    (h : counter.isPeak = true) : entry.charge.counts counter = 0 := by
  unfold charge
  split
  · show (if counter.isPeak then 0 else _) = _
    rw [if_pos h]
  · exact entry.reservation.peaks_zero counter h

namespace AccountTerms

variable {terms : AccountTerms E} {observedAt : Timestamp} {rest : BudgetRemaining}

/-- Everything that the account takes of the budget. -/
def charges (terms : AccountTerms E) : List BudgetUsage :=
  terms.directUsage :: terms.children.map (·.charge)

/-- The clock is not before anything the account has evidence of. -/
def ClockOk (terms : AccountTerms E) (observedAt : Timestamp) : Prop :=
  terms.directHead.recordedAt ≤ observedAt ∧
    ∀ settlement ∈ terms.settlements, settlement.terminal.recordedAt ≤ observedAt

/-- The settled usages and the outstanding reservations are the charges of the children. -/
theorem charges_perm (entries : List (ChildRunBudgetEntry E)) :
    ((entries.filterMap (·.settlement)).map (·.usage.cumulativeOnly) ++
      ((entries.filter (·.settlement.isNone)).map (·.reservation)).map (·.amount)).Perm
      (entries.map (·.charge)) := by
  induction entries with
  | nil => exact .refl _
  | cons entry entries ih =>
    cases hsettlement : entry.settlement with
    | none =>
      have hcharge : entry.charge = entry.reservation.amount := by
        rw [ChildRunBudgetEntry.charge, hsettlement]
      rw [List.filterMap_cons_none hsettlement, List.filter_cons_of_pos (by simp [hsettlement]),
        List.map_cons, List.map_cons, List.map_cons, hcharge]
      exact List.perm_middle.trans (ih.cons _)
    | some settlement =>
      have hcharge : entry.charge = settlement.usage.cumulativeOnly := by
        rw [ChildRunBudgetEntry.charge, hsettlement]
      rw [List.filterMap_cons_some hsettlement, List.filter_cons_of_neg (by simp [hsettlement]),
        List.map_cons, List.map_cons, List.cons_append, hcharge]
      exact ih.cons _

theorem accountedUsage_eq_ok {accounted : BudgetUsage} :
    terms.accountedUsage = .ok accounted ↔
      TotalOf (terms.directUsage :: terms.settlements.map (·.usage.cumulativeOnly)) accounted := by
  have hdelegated : ∀ delegated, terms.delegatedUsage = .ok delegated ↔
      TotalOf (terms.settlements.map (·.usage.cumulativeOnly)) delegated := by
    intro delegated
    rw [← exactTotals.foldlM_eq_ok, List.foldlM_map]
    rfl
  simp only [accountedUsage, bind_eq_ok, hdelegated]
  constructor
  · intro h
    obtain ⟨delegated, hparts, hadd⟩ := h
    exact (exactTotals.append (exactTotals.single.mpr rfl) hparts).mp hadd
  · intro h
    obtain ⟨_, delegated, hparts⟩ : (∃ x, TotalOf [terms.directUsage] x) ∧
      ∃ y, TotalOf (terms.settlements.map (·.usage.cumulativeOnly)) y := exactTotals.parts h
    exact ⟨delegated, hparts, (exactTotals.append (exactTotals.single.mpr rfl) hparts).mpr h⟩

/-- What remains is the budget less the total of the charges. -/
theorem remaining_eq_ok : terms.remaining observedAt = .ok rest ↔
    terms.ClockOk observedAt ∧
      terms.outstanding.length ≤ CumulativeBudgetReservation.maxReservations ∧
      ∃ total, terms.budget.Carries terms.charges total observedAt ∧
        rest = terms.budget.less total := by
  have hperm := (charges_perm terms.children).cons terms.directUsage
  have hclock : ¬ (observedAt < terms.directHead.recordedAt ∨
      ∃ settlement ∈ terms.settlements, observedAt < settlement.terminal.recordedAt) ↔
      terms.ClockOk observedAt := by
    simp only [not_or, not_exists, not_and, not_lt, ClockOk]
  simp only [remaining, bind_eq_ok, reject_eq_ok, mapError_eq_ok, exists_const, hclock,
    accountedUsage_eq_ok]
  refine and_congr_right fun _ => ?_
  constructor
  · intro h
    obtain ⟨accounted, haccounted, hcapacity⟩ := h
    obtain ⟨hlength, total, ⟨htotal, hcovers⟩, hrest⟩ :=
      (CumulativeBudgetReservation.checkCapacity_eq_ok haccounted).mp hcapacity
    exact ⟨hlength, total, ⟨htotal.of_perm hperm, hcovers⟩, hrest⟩
  · intro h
    obtain ⟨hlength, total, ⟨htotal, hcovers⟩, hrest⟩ := h
    have hall := htotal.of_perm hperm.symm
    rw [← List.cons_append] at hall
    obtain ⟨⟨accounted, haccounted⟩, _⟩ := exactTotals.parts hall
    exact ⟨accounted, haccounted, (CumulativeBudgetReservation.checkCapacity_eq_ok
      haccounted).mpr ⟨hlength, total, ⟨hall, hcovers⟩, hrest⟩⟩

theorem remaining_of_perm (terms : AccountTerms E) {entries : List (ChildRunBudgetEntry E)}
    (hperm : entries.Perm terms.children) :
    { terms with children := entries }.remaining observedAt = .ok rest ↔
      terms.remaining observedAt = .ok rest := by
  have hcharges : { terms with children := entries }.charges.Perm terms.charges :=
    (hperm.map _).cons _
  have hsettlements : ∀ settlement,
      settlement ∈ { terms with children := entries }.settlements ↔
        settlement ∈ terms.settlements := fun settlement => (hperm.filterMap _).mem_iff
  have hlength : { terms with children := entries }.outstanding.length =
      terms.outstanding.length := ((hperm.filter _).map _).length_eq
  have hclock : { terms with children := entries }.ClockOk observedAt ↔
      terms.ClockOk observedAt := by
    simp only [ClockOk, hsettlements]
  rw [remaining_eq_ok, remaining_eq_ok, hclock, hlength]
  refine and_congr_right fun _ => and_congr_right fun _ => exists_congr fun total => ?_
  exact and_congr_left fun _ => and_congr_left fun _ => totalOf_perm_iff hcharges

theorem remaining_ordered : terms.ordered.remaining observedAt = .ok rest ↔
    terms.remaining observedAt = .ok rest :=
  remaining_of_perm terms (sortByKey_perm _ _)

end AccountTerms

/-! ## Exchanging one charge -/

/-- The clock and the number of children allow a look at what remains. -/
def AccountTerms.Evaluable (terms : AccountTerms E) (observedAt : Timestamp) : Prop :=
  terms.ClockOk observedAt ∧
    terms.outstanding.length ≤ CumulativeBudgetReservation.maxReservations

/-- Where the charges of two accounts over one budget differ in one charge, what remains
differs by the exchange, and something remains exactly when there was room for it. -/
theorem remaining_of_exchange {terms : AccountTerms E} (next : AccountTerms E)
    {freed spent : BudgetUsage} (others : List BudgetUsage) {observedAt : Timestamp}
    {rest : BudgetRemaining} (hrest : terms.remaining observedAt = .ok rest) (hbudget : next.budget = terms.budget)
    (hcharges : ∀ total, TotalOf terms.charges total ↔ TotalOf (freed :: others) total)
    (hnext : ∀ total, TotalOf next.charges total ↔ TotalOf (spent :: others) total)
    (heval : next.Evaluable observedAt) :
    (terms.budget.Room rest freed spent ↔ ∃ rest', next.remaining observedAt = .ok rest') ∧
      ∀ rest', next.remaining observedAt = .ok rest' → rest.Moved freed spent rest' ∧
        ∃ total total', terms.budget.Carries (freed :: others) total observedAt ∧
          terms.budget.Carries (spent :: others) total' observedAt ∧
          rest = terms.budget.less total ∧ rest' = terms.budget.less total' := by
  obtain ⟨_, _, total, hcarries, rfl⟩ := AccountTerms.remaining_eq_ok.mp hrest
  replace hcarries : terms.budget.Carries (freed :: others) total observedAt :=
    ⟨(hcharges total).mp hcarries.1, hcarries.2⟩
  have hremaining : ∀ rest', next.remaining observedAt = .ok rest' ↔
      ∃ total', terms.budget.Carries (spent :: others) total' observedAt ∧
        rest' = terms.budget.less total' := by
    intro rest'
    simp only [AccountTerms.remaining_eq_ok, hbudget, ResolvedBudget.Carries, hnext]
    exact ⟨fun h => h.2.2, fun h => ⟨heval.1, heval.2, h⟩⟩
  refine ⟨?_, fun rest' hrest' => ?_⟩
  · rw [← ResolvedBudget.Carries.exists_exchange_iff hcarries]
    simp only [hremaining]
    rw [exists_comm]
    simp only [exists_and_left, exists_eq, and_true]
  · obtain ⟨total', hcarries', rfl⟩ := (hremaining rest').mp hrest'
    exact ⟨hcarries.moved hcarries', total, total', hcarries, hcarries', rfl, rfl⟩

/-- An exchange of charges without high-water marks leaves those marks as they are. -/
theorem ResolvedBudget.Carries.peak_eq {budget : ResolvedBudget} {others : List BudgetUsage}
    {freed spent total total' : BudgetUsage} {observedAt : Timestamp} {counter : Counter}
    (h : budget.Carries (freed :: others) total observedAt)
    (h' : budget.Carries (spent :: others) total' observedAt) (hpeak : counter.isPeak = true)
    (hsame : spent.counts counter = freed.counts counter) :
    (budget.less total').counts counter = (budget.less total).counts counter := by
  have htotal := h.1.peaks_cons hpeak
  have htotal' := h'.1.peaks_cons hpeak
  rw [hsame, ← htotal] at htotal'
  show (budget.counts counter).minus _ = (budget.counts counter).minus _
  rw [Count.value_injective htotal']

namespace ChildRunBudgetAccount

variable {account next : ChildRunBudgetAccount E} {observedAt : Timestamp}

theorem keys_nodup (account : ChildRunBudgetAccount E) : (account.children.map (·.key)).Nodup := by
  have hdigests := account.sound.digests_nodup
  rw [show account.children.map (·.key.digest) = (account.children.map (·.key)).map (·.digest) by
    rw [List.map_map]; rfl] at hdigests
  exact hdigests.of_map

variable {entry : ChildRunBudgetEntry E} {key : ChildRunKey E} {intent : ChildRunAdmissionIntent E}
  {settlement : ChildRunBudgetSettlement}

theorem entry_eq_some :
    account.entry key = some entry ↔ entry ∈ account.children ∧ entry.key = key := by
  constructor
  · intro h
    exact ⟨List.mem_of_find?_eq_some h, by simpa using List.find?_some h⟩
  · intro h
    obtain ⟨hmem, rfl⟩ := h
    have hsome : (account.entry entry.key).isSome := by
      rw [AccountTerms.entry, List.find?_isSome]
      exact ⟨entry, hmem, by simp⟩
    obtain ⟨other, hother⟩ := Option.isSome_iff_exists.mp hsome
    have hkey : other.key = entry.key := by simpa using List.find?_some hother
    rw [hother, List.inj_on_of_nodup_map account.keys_nodup (List.mem_of_find?_eq_some hother) hmem
      hkey]

/-- A new child is entered with the reservation of its budget, which must leave something. -/
theorem reserve_new {graph : CompiledGraph E}
    (h : account.reserve intent graph observedAt = .ok next)
    (hnew : account.entry intent.key = none) :
    ∃ entry rest, newEntry intent = .ok entry ∧
      (account.withEntry entry).remaining observedAt = .ok rest ∧
      next.toAccountTerms = (account.withEntry entry).ordered := by
  simp only [reserve, hnew, bind_eq_ok, reject_eq_ok, exists_const] at h
  obtain ⟨_, _, _, entry, hentry, rest, hrest, hsealed⟩ := h
  exact ⟨entry, rest, hentry, hrest, AccountTerms.sealed_eq_ok hsealed⟩

theorem newEntry_eq_ok
    (h : newEntry intent = .ok entry) :
    CumulativeBudgetReservation.fromBudget intent.child.budget = .ok entry.reservation ∧
      entry.charge = entry.reservation.amount ∧ entry.key = intent.key ∧
      entry.spawnDigest = intent.spawnDigest ∧ entry.settlement = none := by
  simp only [newEntry, bind_eq_ok, mapError_eq_ok, pure_eq_ok] at h
  obtain ⟨reservation, hreservation, rfl⟩ := h
  exact ⟨hreservation, rfl, rfl, rfl, rfl⟩

/-- Settling replaces exactly the entry of its key. -/
theorem withSettlement_children
    (settlement : ChildRunBudgetSettlement) (h : account.entry key = some entry) :
    ∃ before after, account.children = before ++ entry :: after ∧
      (account.withSettlement key settlement).children =
        before ++ { entry with settlement := some settlement } :: after := by
  obtain ⟨hmem, rfl⟩ := entry_eq_some.mp h
  obtain ⟨before, after, hchildren⟩ := List.append_of_mem hmem
  have hkeys := account.keys_nodup
  rw [hchildren, List.map_append, List.map_cons, List.nodup_middle, List.nodup_cons,
    ← List.map_append] at hkeys
  -- No other entry has the key, so the map leaves them alone.
  have hother : ∀ other ∈ before ++ after,
      (if other.key = entry.key then { other with settlement := some settlement } else other) =
        other := by
    intro other hother
    refine if_neg fun hsame : other.key = entry.key => hkeys.1 ?_
    rw [← hsame]
    exact List.mem_map_of_mem hother
  refine ⟨before, after, hchildren, ?_⟩
  show account.children.map _ = _
  rw [hchildren, List.map_append, List.map_cons, if_pos rfl]
  rw [List.map_congr_left fun other h => hother other (List.mem_append_left _ h),
    List.map_congr_left fun other h => hother other (List.mem_append_right _ h), List.map_id',
    List.map_id']

theorem settle_outstanding (h : account.settle key settlement = .ok next)
    (hentry : account.entry key = some entry) (hnone : entry.settlement = none) :
    next.toAccountTerms = (account.withSettlement key settlement).ordered := by
  simp only [settle, hentry, hnone, okOr, bind_eq_ok, reject_eq_ok, exists_const, Except.ok.injEq,
    exists_eq_left'] at h
  obtain ⟨_, _, _, _, hsealed⟩ := h
  exact AccountTerms.sealed_eq_ok hsealed

theorem observeDirect_eq_ok {head : JournalHead} {usage : BudgetUsage}
    (h : account.observeDirect head usage = .ok next) :
    next.toAccountTerms = (account.withDirect head usage).ordered ∧
      account.directHead.sequence ≤ head.sequence ∧
      usage.validateMonotonicAfter account.directUsage = .ok () := by
  unfold observeDirect at h
  split at h
  · rename_i hsame
    obtain ⟨rfl, rfl⟩ := hsame
    cases h
    refine ⟨?_, le_refl _, ?_⟩
    · show account.toAccountTerms = account.toAccountTerms.ordered
      rw [AccountTerms.ordered, account.sorted.sortByKey_eq]
    · rw [BudgetUsage.validateMonotonicAfter_eq_ok]
      exact ⟨fun _ => le_refl _, le_refl _, fun _ => le_refl _⟩
  · simp only [bind_eq_ok, reject_eq_ok, mapError_eq_ok, exists_const, not_or, not_le] at h
    obtain ⟨⟨_, _, hsequence, _⟩, _, hmonotonic, hsealed⟩ := h
    exact ⟨AccountTerms.sealed_eq_ok hsealed, hsequence.le, hmonotonic⟩

/-- An account never has too many reservations to look at what remains. -/
theorem outstanding_le (account : ChildRunBudgetAccount E) {terms : AccountTerms E}
    (h : terms.children.length = account.children.length) :
    terms.outstanding.length ≤ CumulativeBudgetReservation.maxReservations := by
  obtain ⟨_, hmaximum, hlength⟩ := account.header
  have hfilter : terms.outstanding.length ≤ terms.children.length := by
    rw [AccountTerms.outstanding, List.length_map]
    exact List.length_filter_le _ _
  have hbound : AccountTerms.maxChildren = CumulativeBudgetReservation.maxReservations := rfl
  omega

/-! ## What each operation does to the remainder -/

variable {rest : BudgetRemaining}

/-- Reserving takes exactly the reservation, and there was room for it. -/
theorem reserve_moves {graph : CompiledGraph E}
    (hrest : account.remaining observedAt = .ok rest)
    (h : account.reserve intent graph observedAt = .ok next)
    (hnew : account.entry intent.key = none) :
    ∃ reservation rest',
      CumulativeBudgetReservation.fromBudget intent.child.budget = .ok reservation ∧
      account.budget.Room rest .zero reservation.amount ∧
      next.remaining observedAt = .ok rest' ∧ rest.Moved .zero reservation.amount rest' ∧
      ∀ counter, counter.isPeak = true → rest'.counts counter = rest.counts counter := by
  obtain ⟨entry, rest', hentry, hrest', hnext⟩ := reserve_new h hnew
  obtain ⟨hreservation, hcharge, _⟩ := newEntry_eq_ok hentry
  have hperm : (account.withEntry entry).charges.Perm (entry.charge :: account.charges) := by
    show (account.directUsage :: (account.children ++ [entry]).map (·.charge)).Perm _
    rw [List.map_append]
    exact ((List.perm_append_singleton _ _).cons _).trans (.swap _ _ _)
  have heval : (account.withEntry entry).Evaluable observedAt :=
    ⟨(AccountTerms.remaining_eq_ok.mp hrest').1, (AccountTerms.remaining_eq_ok.mp hrest').2.1⟩
  obtain ⟨hroom, hmoved⟩ := remaining_of_exchange (account.withEntry entry) account.charges hrest
    rfl (fun total => exactTotals.zero_cons.symm) (fun total => totalOf_perm_iff hperm) heval
  obtain ⟨hmoves, total, total', hcarries, hcarries', rfl, rfl⟩ := hmoved rest' hrest'
  have hpeaks : ∀ counter, counter.isPeak = true →
      (account.budget.less total').counts counter = (account.budget.less total).counts counter :=
    fun counter hpeak => hcarries.peak_eq hcarries' hpeak (entry.charge_peak hpeak)
  rw [hcharge] at hroom hmoves
  refine ⟨entry.reservation, _, hreservation, hroom.mpr ⟨_, hrest'⟩, ?_, hmoves, hpeaks⟩
  rw [hnext, AccountTerms.remaining_ordered]
  exact hrest'

/-- The settled account can be looked at once the clock has reached the end of the child. -/
theorem withSettlement_evaluable (hrest : account.remaining observedAt = .ok rest)
    (hentry : account.entry key = some entry)
    (hclock : settlement.terminal.recordedAt ≤ observedAt) :
    (account.withSettlement key settlement).Evaluable observedAt := by
  obtain ⟨⟨hdirect, hsettlements⟩, _⟩ := AccountTerms.remaining_eq_ok.mp hrest
  obtain ⟨before, after, hchildren, hsettled⟩ := withSettlement_children settlement hentry
  refine ⟨⟨hdirect, fun other hother => ?_⟩, account.outstanding_le ?_⟩
  · obtain ⟨holder, hholder, hsome⟩ := List.mem_filterMap.mp hother
    rw [hsettled, List.mem_append, List.mem_cons] at hholder
    have hunchanged : ∀ holder ∈ account.children, holder.settlement = some other →
        other.terminal.recordedAt ≤ observedAt :=
      fun holder hmem hsome => hsettlements other (List.mem_filterMap.mpr ⟨holder, hmem, hsome⟩)
    rw [hchildren] at hunchanged
    rcases hholder with hholder | rfl | hholder
    · exact hunchanged holder (List.mem_append_left _ hholder) hsome
    · cases hsome
      exact hclock
    · exact hunchanged holder (List.mem_append_right _ (List.mem_cons_of_mem _ hholder)) hsome
  · rw [hsettled, hchildren, List.length_append, List.length_append]
    rfl

/-- What a child used within its reservation has room in place of the reservation. -/
theorem room_of_within {others : List BudgetUsage} {reserved used total : BudgetUsage}
    {budget : ResolvedBudget} (hcarries : budget.Carries (reserved :: others) total observedAt)
    (hcounts : ∀ counter, counter.isPeak = false → used.counts counter ≤ reserved.counts counter)
    (hpeaks : ∀ counter, counter.isPeak = true → used.counts counter = 0)
    (hcosts : used.knownCosts.Within reserved.knownCosts) (hpriced : used.unpricedCostEvents = 0) :
    budget.Room (budget.less total) reserved used := by
  refine ⟨fun counter hpeak => ?_, fun counter hpeak => ?_, fun currency hcurrency => ?_, hpriced⟩
  · exact (Count.le_iff.mp (hcounts counter hpeak)).trans (Nat.le_add_left _ _)
  · rw [hpeaks counter hpeak]
    exact Nat.zero_le _
  · obtain ⟨hreserved, hle⟩ := Costs.within_iff.mp hcosts currency hcurrency
    have hbudget : currency ∈ budget.costs.currencies :=
      (Costs.within_iff.mp hcarries.2.costs currency
        (hcarries.1.currencies_cons.mpr (.inl hreserved))).1
    refine ⟨?_, hle.trans (Nat.le_add_left _ _)⟩
    show currency ∈ (budget.costs.minus _).currencies
    rwa [Costs.currencies_minus]

/-- A settlement within the reservation gives back exactly what was not used. -/
theorem settle_moves (hrest : account.remaining observedAt = .ok rest)
    (h : account.settle key settlement = .ok next) (hentry : account.entry key = some entry)
    (hnone : entry.settlement = none)
    (hcounts : ∀ counter, counter.isPeak = false →
      settlement.usage.counts counter ≤ entry.reservation.amount.counts counter)
    (hcosts : settlement.usage.knownCosts.Within entry.reservation.amount.knownCosts)
    (hclock : settlement.terminal.recordedAt ≤ observedAt) :
    ∃ rest', next.remaining observedAt = .ok rest' ∧
      rest.Moved entry.reservation.amount settlement.usage rest' ∧
      ∀ counter, counter.isPeak = true → rest'.counts counter = rest.counts counter := by
  have hnext := settle_outstanding h hentry hnone
  obtain ⟨before, after, hchildren, hsettled⟩ := withSettlement_children settlement hentry
  let others := account.directUsage :: (before ++ after).map (·.charge)
  -- The charges of an account with some entry between the other ones.
  have hperm : ∀ middle : ChildRunBudgetEntry E,
      (account.directUsage :: (before ++ middle :: after).map (·.charge)).Perm
        (middle.charge :: others) := by
    intro middle
    exact ((List.perm_middle.map _).cons _).trans (.swap _ _ _)
  have hold : account.charges.Perm (entry.reservation.amount :: others) := by
    have hcharge : entry.charge = entry.reservation.amount := by
      rw [ChildRunBudgetEntry.charge, hnone]
    rw [AccountTerms.charges, hchildren, ← hcharge]
    exact hperm entry
  let used := settlement.usage.cumulativeOnly
  have hnew : (account.withSettlement key settlement).charges.Perm (used :: others) := by
    rw [AccountTerms.charges, hsettled]
    exact hperm { entry with settlement := some settlement }
  have hcumulative : ∀ counter, counter.isPeak = false →
      used.counts counter = settlement.usage.counts counter :=
    fun counter hpeak => if_neg (by simp [hpeak])
  have hpeaks : ∀ counter, counter.isPeak = true → used.counts counter = 0 :=
    fun counter hpeak => if_pos hpeak
  obtain ⟨hroom, hmoved⟩ := remaining_of_exchange (account.withSettlement key settlement) others
    hrest rfl (fun total => totalOf_perm_iff hold) (fun total => totalOf_perm_iff hnew)
    (withSettlement_evaluable hrest hentry hclock)
  have hfits : account.budget.Room rest entry.reservation.amount used := by
    obtain ⟨_, _, total, hcarries, rfl⟩ := AccountTerms.remaining_eq_ok.mp hrest
    refine room_of_within ⟨hcarries.1.of_perm hold, hcarries.2⟩ (fun counter hpeak => ?_) hpeaks
      hcosts settlement.priced
    rw [hcumulative counter hpeak]
    exact hcounts counter hpeak
  obtain ⟨rest', hrest'⟩ := hroom.mp hfits
  obtain ⟨hmoves, total, total', hcarries, hcarries', rfl, rfl⟩ := hmoved rest' hrest'
  refine ⟨_, ?_, ⟨hmoves.deadline, fun counter hpeak => ?_, hmoves.currencies, hmoves.amounts⟩,
    fun counter hpeak => hcarries.peak_eq hcarries' hpeak ?_⟩
  · rw [hnext, AccountTerms.remaining_ordered]
    exact hrest'
  · rw [← hcumulative counter hpeak]
    exact hmoves.counts counter hpeak
  · rw [hpeaks counter hpeak, entry.reservation.peaks_zero counter hpeak]

/-- A direct observation exchanges the direct usage, where there is room for it. -/
theorem observeDirect_moves {head : JournalHead} {usage : BudgetUsage}
    (hrest : account.remaining observedAt = .ok rest)
    (h : account.observeDirect head usage = .ok next) (hclock : head.recordedAt ≤ observedAt) :
    (account.budget.Room rest account.directUsage usage ↔
        ∃ rest', next.remaining observedAt = .ok rest') ∧
      ∀ rest', next.remaining observedAt = .ok rest' →
        rest.Moved account.directUsage usage rest' ∧
        ∀ counter, counter.isPeak = true →
          rest'.counts counter = (account.budget.counts counter).minus (usage.counts counter) := by
  obtain ⟨hnext, _⟩ := observeDirect_eq_ok h
  have heval : (account.withDirect head usage).Evaluable observedAt := by
    obtain ⟨⟨_, hsettlements⟩, hlength, _⟩ := AccountTerms.remaining_eq_ok.mp hrest
    exact ⟨⟨hclock, hsettlements⟩, hlength⟩
  have hexchange := remaining_of_exchange (account.withDirect head usage)
    (account.children.map (·.charge)) hrest rfl (fun total => Iff.rfl) (fun total => Iff.rfl) heval
  simp only [hnext, AccountTerms.remaining_ordered]
  refine ⟨hexchange.1, fun rest' hrest' => ?_⟩
  obtain ⟨hmoves, total, total', _, hcarries', _, rfl⟩ := hexchange.2 rest' hrest'
  refine ⟨hmoves, fun counter hpeak => ?_⟩
  -- The children charge no high-water mark, so the total has that of the direct usage.
  have hmax := hcarries'.1.peaks_cons hpeak
  have hzero : counterTotal counter (account.children.map (·.charge)) = 0 := by
    rw [counterTotal_of_isPeak hpeak]
    refine Nat.le_zero.mp (List.max_le_of_forall_le _ _ fun count hcount => ?_)
    obtain ⟨charge, hcharge, rfl⟩ := List.mem_map.mp hcount
    obtain ⟨entry, _, rfl⟩ := List.mem_map.mp hcharge
    rw [entry.charge_peak hpeak]
    exact le_refl _
  rw [hzero, Nat.max_zero] at hmax
  show (account.budget.counts counter).minus _ = _
  rw [Count.value_injective hmax]
  rfl

end ChildRunBudgetAccount

/-- A remainder that gets back at least what it gives loses nothing. -/
theorem BudgetRemaining.Moved.le {rest rest' : BudgetRemaining} {freed spent : BudgetUsage}
    (h : rest.Moved freed spent rest')
    (hcounts : ∀ counter, counter.isPeak = false → spent.counts counter ≤ freed.counts counter)
    (hpeaks : ∀ counter, counter.isPeak = true → rest'.counts counter = rest.counts counter)
    (hcosts : spent.knownCosts.Within freed.knownCosts) :
    (∀ counter, rest.counts counter ≤ rest'.counts counter) ∧
      rest.costs.Within rest'.costs := by
  refine ⟨fun counter => ?_, Costs.within_iff.mpr fun currency hcurrency => ?_⟩
  · by_cases hpeak : counter.isPeak = true
    · exact le_of_eq (hpeaks counter hpeak).symm
    · rw [Bool.not_eq_true] at hpeak
      have hsum := h.counts counter hpeak
      have hle := Count.le_iff.mp (hcounts counter hpeak)
      rw [Count.le_iff]
      omega
  · have hsum := h.amounts currency hcurrency
    have hle := hcosts.amount_le currency
    rw [h.currencies]
    exact ⟨hcurrency, by omega⟩

/-- Capacity is conserved.  Reserving takes the reservation of the new child from what
remains and is refused where it does not fit; settling a child within its reservation
gives back what it did not use; observing direct usage takes its growth, or leaves
nothing to remain where it does not fit. -/
theorem capacity_is_conserved {account : ChildRunBudgetAccount E} {observedAt : Timestamp}
    {rest : BudgetRemaining} (hrest : account.remaining observedAt = .ok rest) :
    (∀ (intent : ChildRunAdmissionIntent E) (graph : CompiledGraph E)
        (next : ChildRunBudgetAccount E), account.entry intent.key = none →
      account.reserve intent graph observedAt = .ok next →
      ∃ reservation rest',
        CumulativeBudgetReservation.fromBudget intent.child.budget = .ok reservation ∧
        account.budget.Room rest .zero reservation.amount ∧
        next.remaining observedAt = .ok rest' ∧ rest.Moved .zero reservation.amount rest' ∧
        ∀ counter, counter.isPeak = true → rest'.counts counter = rest.counts counter) ∧
    (∀ (key : ChildRunKey E) (entry : ChildRunBudgetEntry E)
        (settlement : ChildRunBudgetSettlement) (next : ChildRunBudgetAccount E),
      account.entry key = some entry → entry.settlement = none →
      account.settle key settlement = .ok next →
      (∀ counter, counter.isPeak = false →
        settlement.usage.counts counter ≤ entry.reservation.amount.counts counter) →
      settlement.usage.knownCosts.Within entry.reservation.amount.knownCosts →
      settlement.terminal.recordedAt ≤ observedAt →
      ∃ rest', next.remaining observedAt = .ok rest' ∧
        rest.Moved entry.reservation.amount settlement.usage rest' ∧
        (∀ counter, counter.isPeak = true → rest'.counts counter = rest.counts counter) ∧
        (∀ counter, rest.counts counter ≤ rest'.counts counter) ∧
        rest.costs.Within rest'.costs) ∧
    (∀ (head : JournalHead) (usage : BudgetUsage) (next : ChildRunBudgetAccount E),
      account.observeDirect head usage = .ok next → head.recordedAt ≤ observedAt →
      (account.budget.Room rest account.directUsage usage ↔
        ∃ rest', next.remaining observedAt = .ok rest') ∧
      ∀ rest', next.remaining observedAt = .ok rest' →
        rest.Moved account.directUsage usage rest' ∧
        ∀ counter, counter.isPeak = true →
          rest'.counts counter = (account.budget.counts counter).minus (usage.counts counter)) := by
  refine ⟨fun intent graph next hnew hreserve => ?_,
    fun key entry settlement next hentry hnone hsettle hcounts hcosts hclock => ?_,
    fun head usage next hobserve hclock => ?_⟩
  · exact ChildRunBudgetAccount.reserve_moves hrest hreserve hnew
  · obtain ⟨rest', hrest', hmoved, hpeaks⟩ := ChildRunBudgetAccount.settle_moves hrest hsettle
      hentry hnone hcounts hcosts hclock
    obtain ⟨hnotLess, hcosts'⟩ := hmoved.le hcounts hpeaks hcosts
    exact ⟨rest', hrest', hmoved, hpeaks, hnotLess, hcosts'⟩
  · exact ChildRunBudgetAccount.observeDirect_moves hrest hobserve hclock

namespace ChildBudget.Sample

open Delegation.Sample (intent checkpoint spawn descriptor)

def head (sequence : JournalSequence) (recordedAt : Timestamp) : JournalHead :=
  ⟨⟨"tenant"⟩, ⟨"parent"⟩, sequence, ⟨"event"⟩, recordedAt, ⟨[]⟩⟩

/-- The graph of a parent, whose node may start a child run in each of two slots. -/
def graph : Option (CompiledGraph .compact) := do
  let child ← Delegation.Sample.graph
  let agent ← (ChildAgentReference.fromDescriptor .compact descriptor).toOption
  let limits ← (ChildRunTopologyLimits.new 1 2 2).toOption
  let policy ← (GraphChildRunPolicy.new limits (["first", "second"].map fun slot =>
    ⟨⟨"node"⟩, ⟨slot⟩, agent, child.reference, Sample.schema, Sample.schema⟩)).toOption
  (child.withChildRuns policy).toOption

/-- A parent with twelve of everything, its graph, and two children that may use five and
four. -/
def runs : Option (AgentAdmission .compact × CompiledGraph .compact ×
    ChildRunAdmissionIntent .compact × ChildRunAdmissionIntent .compact) := do
  let graph ← graph
  let intent ← intent ⟨"parent"⟩ [] (.ofNat 12) (.ofMicros 9) graph.reference
  let parent ← (AgentAdmission.commit intent (.ofMicros 1)).toOption
  let checkpoint ← checkpoint parent
  let first ← spawn parent checkpoint ⟨"first"⟩ ⟨"child"⟩ [] (.ofNat 5) (.ofMicros 7)
  let second ← spawn parent checkpoint ⟨"second"⟩ ⟨"sibling"⟩ [] (.ofNat 4) (.ofMicros 7)
  return (parent, graph, first, second)

def reservedToolCalls (intent : ChildRunAdmissionIntent .compact) : Option Nat :=
  (CumulativeBudgetReservation.fromBudget intent.child.budget).toOption.map
    fun reservation => (reservation.amount.counts .toolCalls).value

/-- An account that both children entered, one after the other, and then direct usage. -/
structure Family where
  parent : AgentAdmission .compact
  graph : CompiledGraph .compact
  first : ChildRunAdmissionIntent .compact
  second : ChildRunAdmissionIntent .compact
  account : ChildRunBudgetAccount .compact
  rest : BudgetRemaining
  afterFirst : ChildRunBudgetAccount .compact
  both : ChildRunBudgetAccount .compact
  later : ChildRunBudgetAccount .compact
  new : ChildRunBudgetAccount.new parent graph (head (.ofNat 1) (.ofMicros 1)) .zero = .ok account
  remaining : account.remaining (.ofMicros 3) = .ok rest
  reserve_first : account.reserve first graph (.ofMicros 3) = .ok afterFirst
  reserve_second : afterFirst.reserve second graph (.ofMicros 3) = .ok both
  observe : both.observeDirect (head (.ofNat 2) (.ofMicros 3)) .zero = .ok later
  keys_ne : first.key ≠ second.key
  first_none : account.entry first.key = none
  second_none : account.entry second.key = none
  second_next : afterFirst.entry second.key = none
  toolCalls : (rest.counts .toolCalls).value = 12
  first_toolCalls : reservedToolCalls first = some 5
  second_toolCalls : reservedToolCalls second = some 4
  two_children : both.children.length = 2
  second_head : later.directHead.sequence.value = 2

theorem nonempty_family : Nonempty Family := by
  have hsome : (runs.any fun (parent, graph, first, second) =>
      (ChildRunBudgetAccount.new parent graph (head (.ofNat 1) (.ofMicros 1))
        .zero).toOption.any fun account =>
      (account.remaining (.ofMicros 3)).toOption.any fun rest =>
      (account.reserve first graph (.ofMicros 3)).toOption.any fun afterFirst =>
      (afterFirst.reserve second graph (.ofMicros 3)).toOption.any fun both =>
      (both.observeDirect (head (.ofNat 2) (.ofMicros 3)) .zero).toOption.any fun later =>
      first.key ≠ second.key ∧ account.entry first.key = none ∧
        account.entry second.key = none ∧ afterFirst.entry second.key = none ∧
        (rest.counts .toolCalls).value = 12 ∧ reservedToolCalls first = some 5 ∧
        reservedToolCalls second = some 4 ∧ both.children.length = 2 ∧
        later.directHead.sequence.value = 2) = true := by
    decide +kernel
  obtain ⟨⟨parent, graph, first, second⟩, _, hsome⟩ := (Option.any_eq_true _ _).mp hsome
  obtain ⟨account, hnew, hsome⟩ := (Option.any_eq_true _ _).mp hsome
  obtain ⟨rest, hrest, hsome⟩ := (Option.any_eq_true _ _).mp hsome
  obtain ⟨afterFirst, hfirst, hsome⟩ := (Option.any_eq_true _ _).mp hsome
  obtain ⟨both, hsecond, hsome⟩ := (Option.any_eq_true _ _).mp hsome
  obtain ⟨later, hobserve, hsome⟩ := (Option.any_eq_true _ _).mp hsome
  obtain ⟨hne, hnone, hnone', hnext, hcalls, hfive, hfour, hchildren, hsequence⟩ :=
    of_decide_eq_true hsome
  rw [toOption_eq_some] at hnew hrest hfirst hsecond hobserve
  exact ⟨⟨parent, graph, first, second, account, rest, afterFirst, both, later, hnew, hrest,
    hfirst, hsecond, hobserve, hne, hnone, hnone', hnext, hcalls, hfive, hfour, hchildren,
    hsequence⟩⟩

theorem toolCalls_of_reserved {intent : ChildRunAdmissionIntent .compact} {count : Nat}
    {reservation : CumulativeBudgetReservation}
    (h : CumulativeBudgetReservation.fromBudget intent.child.budget = .ok reservation)
    (hcount : reservedToolCalls intent = some count) :
    (reservation.amount.counts .toolCalls).value = count := by
  rw [reservedToolCalls, h] at hcount
  exact Option.some.inj hcount

end ChildBudget.Sample

/-- A parent with twelve of everything starts a child that may use five and another that may
use four. -/
theorem capacity_is_conserved_two_children :
    ∃ (account afterFirst both : ChildRunBudgetAccount .compact)
      (first second : ChildRunAdmissionIntent .compact) (graph : CompiledGraph .compact)
      (observedAt : Timestamp) (rest rest' rest'' : BudgetRemaining),
      account.reserve first graph observedAt = .ok afterFirst ∧
      afterFirst.reserve second graph observedAt = .ok both ∧
      account.remaining observedAt = .ok rest ∧ (rest.counts .toolCalls).value = 12 ∧
      afterFirst.remaining observedAt = .ok rest' ∧ (rest'.counts .toolCalls).value = 7 ∧
      both.remaining observedAt = .ok rest'' ∧ (rest''.counts .toolCalls).value = 3 := by
  obtain ⟨family⟩ := ChildBudget.Sample.nonempty_family
  obtain ⟨hreserves, _⟩ := capacity_is_conserved family.remaining
  obtain ⟨reservation, rest', hreservation, _, hrest', hmoved, _⟩ :=
    hreserves family.first family.graph family.afterFirst family.first_none family.reserve_first
  obtain ⟨hreserves', _⟩ := capacity_is_conserved hrest'
  obtain ⟨reservation', rest'', hreservation', _, hrest'', hmoved', _⟩ :=
    hreserves' family.second family.graph family.both family.second_next family.reserve_second
  have hsum := hmoved.counts .toolCalls rfl
  have hsum' := hmoved'.counts .toolCalls rfl
  have hfive := ChildBudget.Sample.toolCalls_of_reserved hreservation family.first_toolCalls
  have hfour := ChildBudget.Sample.toolCalls_of_reserved hreservation' family.second_toolCalls
  have htwelve := family.toolCalls
  have hzero : ((BudgetUsage.zero).counts .toolCalls).value = 0 := rfl
  refine ⟨_, _, _, _, _, _, _, _, _, _, family.reserve_first, family.reserve_second,
    family.remaining, htwelve, hrest', ?_, hrest'', ?_⟩
  · omega
  · omega

end StateKnot
