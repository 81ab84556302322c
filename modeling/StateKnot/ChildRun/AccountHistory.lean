import StateKnot.ChildRun.Capacity
import StateKnot.ChildRun.SpawnIdentity
import StateKnot.Durable

/-!
# Histories of child budget accounts

An account lives through any sequence of reservations, settlements and direct
observations; a refused call leaves it as it was.  Whatever happens, a child that
was entered stays entered and is settled at most once, the direct observation only
advances, and repeating an accepted call gives the same account back.
-/

namespace StateKnot

open Lib BudgetUsage

variable {E : Encoding}

/-! ## What a call may change -/

/-- The same child, or the same child settled. -/
structure ChildRunBudgetEntry.Becomes (entry later : ChildRunBudgetEntry E) : Prop where
  same : later = { entry with settlement := later.settlement }
  settled : ∀ settlement ∈ entry.settlement, later.settlement = some settlement

namespace ChildRunBudgetEntry.Becomes

theorem refl (entry : ChildRunBudgetEntry E) : entry.Becomes entry :=
  ⟨rfl, fun _ h => h⟩

theorem trans {first second third : ChildRunBudgetEntry E} (h : first.Becomes second)
    (h' : second.Becomes third) : first.Becomes third := by
  refine ⟨?_, fun settlement hsettlement => h'.settled _ (h.settled _ hsettlement)⟩
  rw [h'.same, h.same]

end ChildRunBudgetEntry.Becomes

/-- Every counter, amount and number of unpriced events of one usage reaches that of another. -/
structure BudgetUsage.Advances (earlier later : BudgetUsage) : Prop where
  counts : ∀ counter, earlier.counts counter ≤ later.counts counter
  unpriced : earlier.unpricedCostEvents ≤ later.unpricedCostEvents
  amounts : ∀ currency, earlier.knownCosts.amount currency ≤ later.knownCosts.amount currency

namespace BudgetUsage.Advances

theorem refl (usage : BudgetUsage) : usage.Advances usage :=
  ⟨fun _ => le_refl _, le_refl _, fun _ => le_refl _⟩

theorem trans {first second third : BudgetUsage} (h : first.Advances second)
    (h' : second.Advances third) : first.Advances third :=
  ⟨fun counter => (h.counts counter).trans (h'.counts counter), h.unpriced.trans h'.unpriced,
    fun currency => (h.amounts currency).trans (h'.amounts currency)⟩

end BudgetUsage.Advances

/-- The accounts differ at most in their direct observation and their children. -/
structure AccountTerms.SameScope (terms other : AccountTerms E) : Prop where
  version : other.version = terms.version
  parent : other.parent = terms.parent
  parentAdmissionDigest : other.parentAdmissionDigest = terms.parentAdmissionDigest
  parentAdmittedAt : other.parentAdmittedAt = terms.parentAdmittedAt
  graph : other.graph = terms.graph
  budget : other.budget = terms.budget
  maximumChildren : other.maximumChildren = terms.maximumChildren

theorem AccountTerms.SameScope.trans {first second third : AccountTerms E}
    (h : first.SameScope second) (h' : second.SameScope third) : first.SameScope third :=
  ⟨h'.version.trans h.version, h'.parent.trans h.parent,
    h'.parentAdmissionDigest.trans h.parentAdmissionDigest,
    h'.parentAdmittedAt.trans h.parentAdmittedAt, h'.graph.trans h.graph,
    h'.budget.trans h.budget, h'.maximumChildren.trans h.maximumChildren⟩

namespace ChildRunBudgetAccount

/-- What an account may turn into: its scope is fixed, its children stay, and its direct
observation only advances. -/
structure Evolves (earlier later : ChildRunBudgetAccount E) : Prop where
  scope : earlier.SameScope later.toAccountTerms
  children : ∀ entry ∈ earlier.children, ∃ entry' ∈ later.children, entry.Becomes entry'
  directUsage : earlier.directUsage.Advances later.directUsage
  directHead : earlier.directHead.sequence ≤ later.directHead.sequence

namespace Evolves

variable {first second third : ChildRunBudgetAccount E}

theorem refl (account : ChildRunBudgetAccount E) : account.Evolves account :=
  ⟨⟨rfl, rfl, rfl, rfl, rfl, rfl, rfl⟩, fun entry h => ⟨entry, h, .refl entry⟩, .refl _,
    le_refl _⟩

/-- The checks of a reservation look at the scope only. -/
theorem validateReserve_eq (h : first.Evolves second) (intent : ChildRunAdmissionIntent E)
    (graph : CompiledGraph E) :
    second.validateReserve intent graph = first.validateReserve intent graph := by
  rw [validateReserve, validateReserve, h.scope.parent, h.scope.parentAdmissionDigest,
    h.scope.graph, h.scope.budget]

theorem trans (h : first.Evolves second) (h' : second.Evolves third) : first.Evolves third where
  scope := h.scope.trans h'.scope
  children := by
    intro entry hentry
    obtain ⟨entry', hentry', hbecomes⟩ := h.children entry hentry
    obtain ⟨entry'', hentry'', hbecomes'⟩ := h'.children entry' hentry'
    exact ⟨entry'', hentry'', hbecomes.trans hbecomes'⟩
  directUsage := h.directUsage.trans h'.directUsage
  directHead := h.directHead.trans h'.directHead

end Evolves

variable {account next : ChildRunBudgetAccount E}

theorem mem_children_of_ordered {terms : AccountTerms E} (h : next.toAccountTerms = terms.ordered)
    {entry : ChildRunBudgetEntry E} : entry ∈ next.children ↔ entry ∈ terms.children := by
  rw [h]
  exact (sortByKey_perm _ _).mem_iff

theorem evolves_of_ordered {terms : AccountTerms E} (h : next.toAccountTerms = terms.ordered)
    (hscope : account.SameScope terms)
    (hchildren : ∀ entry ∈ account.children, ∃ entry' ∈ terms.children, entry.Becomes entry')
    (husage : account.directUsage.Advances terms.directUsage)
    (hhead : account.directHead.sequence ≤ terms.directHead.sequence) : account.Evolves next := by
  refine ⟨?_, fun entry hentry => ?_, ?_, ?_⟩
  · rw [h]
    exact ⟨hscope.version, hscope.parent, hscope.parentAdmissionDigest, hscope.parentAdmittedAt,
      hscope.graph, hscope.budget, hscope.maximumChildren⟩
  · obtain ⟨entry', hentry', hbecomes⟩ := hchildren entry hentry
    exact ⟨entry', (mem_children_of_ordered h).mpr hentry', hbecomes⟩
  · rw [h]
    exact husage
  · rw [h]
    exact hhead

/-! ## One call -/

/-- A reservation returns the account or enters the child. -/
theorem reserve_cases {intent : ChildRunAdmissionIntent E} {graph : CompiledGraph E}
    {observedAt : Timestamp} (h : account.reserve intent graph observedAt = .ok next) :
    next = account ∨ ∃ entry, account.validateReserve intent graph = .ok () ∧
      newEntry intent = .ok entry ∧ next.toAccountTerms = (account.withEntry entry).ordered := by
  cases hentry : account.entry intent.key with
  | none =>
    obtain ⟨entry, _, hnew, _, hnext⟩ := reserve_new h hentry
    have hchecks : account.validateReserve intent graph = .ok () := by
      rw [reserve, bind_eq_ok] at h
      obtain ⟨_, hchecks, _⟩ := h
      exact hchecks
    exact .inr ⟨entry, hchecks, hnew, hnext⟩
  | some existing =>
    simp only [reserve, hentry, bind_eq_ok, reject_eq_ok, exists_const, pure_eq_ok] at h
    obtain ⟨_, _, _, hsame⟩ := h
    exact .inl hsame.symm

theorem reserve_evolves {intent : ChildRunAdmissionIntent E} {graph : CompiledGraph E}
    {observedAt : Timestamp} (h : account.reserve intent graph observedAt = .ok next) :
    account.Evolves next := by
  rcases reserve_cases h with rfl | ⟨entry, _, _, hnext⟩
  · exact .refl _
  · exact evolves_of_ordered hnext ⟨rfl, rfl, rfl, rfl, rfl, rfl, rfl⟩
      (fun other hother => ⟨other, List.mem_append_left _ hother, .refl other⟩) (.refl _)
      (le_refl _)

/-- A settlement returns the account or settles the outstanding child. -/
theorem settle_cases {key : ChildRunKey E} {settlement : ChildRunBudgetSettlement}
    (h : account.settle key settlement = .ok next) :
    next = account ∨ ∃ entry, account.entry key = some entry ∧ entry.settlement = none ∧
      next.toAccountTerms = (account.withSettlement key settlement).ordered := by
  cases hentry : account.entry key with
  | none => simp [settle, hentry, okOr, bind_eq_ok] at h
  | some entry =>
    cases hsettlement : entry.settlement with
    | none => exact .inr ⟨entry, rfl, hsettlement, settle_outstanding h hentry hsettlement⟩
    | some existing =>
      simp only [settle, hentry, hsettlement, okOr, bind_eq_ok, reject_eq_ok, exists_const,
        Except.ok.injEq, exists_eq_left', pure, Except.pure] at h
      obtain ⟨_, _, _, _, _, hsame⟩ := h
      exact .inl hsame.symm

theorem settle_evolves {key : ChildRunKey E} {settlement : ChildRunBudgetSettlement}
    (h : account.settle key settlement = .ok next) : account.Evolves next := by
  rcases settle_cases h with rfl | ⟨entry, hentry, hnone, hnext⟩
  · exact .refl _
  · obtain ⟨before, after, hchildren, hsettled⟩ := withSettlement_children settlement hentry
    refine evolves_of_ordered hnext ⟨rfl, rfl, rfl, rfl, rfl, rfl, rfl⟩ (fun other hother => ?_)
      (.refl _) (le_refl _)
    rw [hsettled]
    rw [hchildren, List.mem_append, List.mem_cons] at hother
    rcases hother with hother | rfl | hother
    · exact ⟨other, List.mem_append_left _ hother, .refl other⟩
    · exact ⟨_, List.mem_append_right _ List.mem_cons_self, rfl, by simp [hnone]⟩
    · exact ⟨other, List.mem_append_right _ (List.mem_cons_of_mem _ hother), .refl other⟩

theorem observeDirect_evolves {head : JournalHead} {usage : BudgetUsage}
    (h : account.observeDirect head usage = .ok next) : account.Evolves next := by
  obtain ⟨hnext, hsequence, hmonotonic⟩ := observeDirect_eq_ok h
  obtain ⟨hcounts, hunpriced, hamounts⟩ := validateMonotonicAfter_eq_ok.mp hmonotonic
  exact evolves_of_ordered hnext ⟨rfl, rfl, rfl, rfl, rfl, rfl, rfl⟩
    (fun entry hentry => ⟨entry, hentry, .refl entry⟩) ⟨hcounts, hunpriced, hamounts⟩ hsequence

end ChildRunBudgetAccount

/-! ## Histories -/

/-- A call of one of the operations of an account. -/
inductive AccountCall (E : Encoding) where
  | reserve (intent : ChildRunAdmissionIntent E) (graph : CompiledGraph E)
      (observedAt : Timestamp)
  | settle (key : ChildRunKey E) (settlement : ChildRunBudgetSettlement)
  | observeDirect (head : JournalHead) (usage : BudgetUsage)

namespace ChildRunBudgetAccount

def call (account : ChildRunBudgetAccount E) :
    AccountCall E → Except ChildRunBudgetError (ChildRunBudgetAccount E)
  | .reserve intent graph observedAt => account.reserve intent graph observedAt
  | .settle key settlement => account.settle key settlement
  | .observeDirect head usage => account.observeDirect head usage

/-- A refused call leaves the account as it was. -/
def step (account : ChildRunBudgetAccount E) (call : AccountCall E) : ChildRunBudgetAccount E :=
  match account.call call with
  | .ok next => next
  | .error _ => account

def after (account : ChildRunBudgetAccount E) (calls : List (AccountCall E)) :
    ChildRunBudgetAccount E :=
  calls.foldl step account

variable {account next : ChildRunBudgetAccount E}

theorem call_evolves {call : AccountCall E} (h : account.call call = .ok next) :
    account.Evolves next := by
  cases call with
  | reserve intent graph observedAt => exact reserve_evolves h
  | settle key settlement => exact settle_evolves h
  | observeDirect head usage => exact observeDirect_evolves h

theorem step_evolves (account : ChildRunBudgetAccount E) (call : AccountCall E) :
    account.Evolves (account.step call) := by
  unfold step
  split
  · rename_i next hnext
    exact call_evolves hnext
  · exact .refl account

theorem after_evolves (account : ChildRunBudgetAccount E) (calls : List (AccountCall E)) :
    account.Evolves (account.after calls) := by
  induction calls generalizing account with
  | nil => exact .refl account
  | cons call calls ih => exact (account.step_evolves call).trans (ih (account.step call))

/-- Every child was entered by a reservation that passed the checks of the account. -/
def Justified (account : ChildRunBudgetAccount E) : Prop :=
  ∀ entry ∈ account.children, ∃ intent graph, account.validateReserve intent graph = .ok () ∧
    intent.key = entry.key ∧ intent.spawnDigest = entry.spawnDigest

/-- A child of an evolved account that was there before, or is entered with its reason, is
justified. -/
theorem Justified.evolve (h : account.Justified) (hevolves : account.Evolves next)
    (hfrom : ∀ entry ∈ next.children, (∃ earlier ∈ account.children, earlier.Becomes entry) ∨
      ∃ intent graph, account.validateReserve intent graph = .ok () ∧ intent.key = entry.key ∧
        intent.spawnDigest = entry.spawnDigest) : next.Justified := by
  intro entry hentry
  simp only [hevolves.validateReserve_eq]
  rcases hfrom entry hentry with ⟨earlier, hearlier, hbecomes⟩ | hreason
  · obtain ⟨intent, graph, hchecks, hkey, hdigest⟩ := h earlier hearlier
    rw [hbecomes.same]
    exact ⟨intent, graph, hchecks, hkey, hdigest⟩
  · exact hreason

theorem Justified.call (h : account.Justified) {call : AccountCall E}
    (hcall : account.call call = .ok next) : next.Justified := by
  have hevolves := call_evolves hcall
  cases call with
  | reserve intent graph observedAt =>
    rcases reserve_cases hcall with rfl | ⟨entry, hchecks, hnew, hnext⟩
    · exact h
    obtain ⟨_, _, hkey, hdigest, _⟩ := newEntry_eq_ok hnew
    refine h.evolve hevolves fun other hother => ?_
    rcases List.mem_append.mp ((mem_children_of_ordered hnext).mp hother) with hold | hnew
    · exact .inl ⟨other, hold, .refl other⟩
    · rw [List.mem_singleton.mp hnew]
      exact .inr ⟨intent, graph, hchecks, hkey.symm, hdigest.symm⟩
  | settle key settlement =>
    rcases settle_cases hcall with rfl | ⟨entry, hentry, hnone, hnext⟩
    · exact h
    obtain ⟨before, after, hchildren, hsettled⟩ := withSettlement_children settlement hentry
    refine h.evolve hevolves fun other hother => .inl ?_
    have hmem := (mem_children_of_ordered hnext).mp hother
    rw [hchildren]
    rw [hsettled, List.mem_append, List.mem_cons] at hmem
    rcases hmem with hmem | rfl | hmem
    · exact ⟨other, List.mem_append_left _ hmem, .refl other⟩
    · exact ⟨entry, List.mem_append_right _ List.mem_cons_self, rfl, by simp [hnone]⟩
    · exact ⟨other, List.mem_append_right _ (List.mem_cons_of_mem _ hmem), .refl other⟩
  | observeDirect head usage =>
    obtain ⟨hnext, _⟩ := observeDirect_eq_ok hcall
    exact h.evolve hevolves fun other hother =>
      .inl ⟨other, (mem_children_of_ordered hnext).mp hother, .refl other⟩

theorem Justified.after (h : account.Justified) (calls : List (AccountCall E)) :
    (account.after calls).Justified := by
  induction calls generalizing account with
  | nil => exact h
  | cons call calls ih =>
    refine ih ?_
    unfold step
    split
    · rename_i next hnext
      exact h.call hnext
    · exact h

theorem new_children {parent : AgentAdmission E} {graph : CompiledGraph E} {head : JournalHead}
    {usage : BudgetUsage} (h : new parent graph head usage = .ok account) :
    account.children = [] := by
  simp only [new, bind_eq_ok, okOr_eq_ok, reject_eq_ok, exists_const, pure_eq_ok] at h
  obtain ⟨_, _, _, sealed, hsealed, _, _, rfl⟩ := h
  rw [AccountTerms.sealed_eq_ok hsealed]
  rfl

end ChildRunBudgetAccount

/-! ## Repeated calls -/

namespace ChildRunBudgetAccount

variable {account : ChildRunBudgetAccount E} {entry : ChildRunBudgetEntry E}

theorem reserve_again (hE : E.Faithful) (hcanonicalizes : E.Canonicalizes)
    (hjustified : account.Justified) (hentry : entry ∈ account.children)
    {intent : ChildRunAdmissionIntent E} (hkey : intent.key = entry.key)
    (hdigest : intent.spawnDigest = entry.spawnDigest) {graph : CompiledGraph E}
    (hgraph : graph.reference = account.graph) (observedAt : Timestamp) :
    account.reserve intent graph observedAt = .ok account := by
  obtain ⟨first, graph₀, hchecks, hfirstKey, hfirstDigest⟩ := hjustified entry hentry
  have hgraph₀ : graph₀.reference = account.graph := by
    have hscope := hchecks
    simp only [validateReserve, bind_eq_ok, reject_eq_ok, exists_const, not_or, not_not] at hscope
    exact hscope.1.2.2.2.2
  have hsame : account.validateReserve intent graph = .ok () := by
    rw [← hchecks]
    exact account.validateReserve_congr hE hcanonicalizes (hkey.trans hfirstKey.symm)
      (hdigest.trans hfirstDigest.symm) (hgraph.trans hgraph₀.symm)
  have hfound : account.entry intent.key = some entry := entry_eq_some.mpr ⟨hentry, hkey.symm⟩
  simp only [reserve, hsame, hfound, bind_eq_ok, reject_eq_ok, exists_const, not_not, pure,
    Except.pure, and_true, true_and]
  exact hdigest.symm

theorem reserve_conflict (hentry : entry ∈ account.children)
    {intent : ChildRunAdmissionIntent E} (hkey : intent.key = entry.key)
    (hdigest : intent.spawnDigest ≠ entry.spawnDigest) (graph : CompiledGraph E)
    (observedAt : Timestamp) :
    ∃ error, account.reserve intent graph observedAt = .error error := by
  have hfound : account.entry intent.key = some entry := entry_eq_some.mpr ⟨hentry, hkey.symm⟩
  cases hreserve : account.reserve intent graph observedAt with
  | error error => exact ⟨error, rfl⟩
  | ok next =>
    simp only [reserve, hfound, bind_eq_ok, reject_eq_ok, exists_const, not_not] at hreserve
    obtain ⟨_, _, hsame, _⟩ := hreserve
    exact absurd hsame.symm hdigest

theorem settle_again (hentry : entry ∈ account.children) {settlement : ChildRunBudgetSettlement}
    (hsettlement : entry.settlement = some settlement) :
    account.settle entry.key settlement = .ok account := by
  have hfound : account.entry entry.key = some entry := entry_eq_some.mpr ⟨hentry, rfl⟩
  have hvalid := account.sound.entries_valid entry hentry
  simp only [ChildRunBudgetEntry.validate, ChildRunBudgetEntry.validateSettlement, bind_eq_ok,
    forM_eq_ok, reject_eq_ok, exists_const, hsettlement, Option.toList_some, List.mem_singleton,
    forall_eq, not_or, not_not] at hvalid
  obtain ⟨_, _, _, hchild, hintent⟩ := hvalid
  have hadmitted := account.sound.admitted entry hentry settlement hsettlement
  simp only [settle, hfound, hsettlement, okOr, bind_eq_ok, reject_eq_ok, exists_const,
    Except.ok.injEq, exists_eq_left', pure, Except.pure, not_or, not_not, not_lt, and_true]
  exact ⟨(), settlement.valid, ⟨hchild.symm, hintent.symm⟩, hadmitted⟩

theorem settle_conflict (hentry : entry ∈ account.children)
    {settlement other : ChildRunBudgetSettlement} (hsettlement : entry.settlement = some settlement)
    (hother : other ≠ settlement) : ∃ error, account.settle entry.key other = .error error := by
  have hfound : account.entry entry.key = some entry := entry_eq_some.mpr ⟨hentry, rfl⟩
  cases hsettle : account.settle entry.key other with
  | error error => exact ⟨error, rfl⟩
  | ok next =>
    simp only [settle, hfound, hsettlement, okOr, bind_eq_ok, reject_eq_ok, exists_const,
      Except.ok.injEq, exists_eq_left', not_not] at hsettle
    obtain ⟨_, _, _, _, hsame, _⟩ := hsettle
    exact absurd hsame.symm hother

end ChildRunBudgetAccount

/-! ## Reading accounts back -/

def CheckpointHead.reread (head : CheckpointHead) : Option CheckpointHead :=
  if h : head.journalHead.InScope head.tenantId head.runId then some { head with scope_ok := h }
  else none

@[simp] theorem CheckpointHead.reread_eq (head : CheckpointHead) : head.reread = some head :=
  dif_pos head.scope_ok

def NodeActivation.reread (activation : NodeActivation) : Option NodeActivation := do
  let baseCheckpoint ← activation.baseCheckpoint.reread
  return { activation with baseCheckpoint := baseCheckpoint }

@[simp] theorem NodeActivation.reread_eq (activation : NodeActivation) :
    activation.reread = some activation := by
  simp [reread]

namespace ChildRunKey

def reread (key : ChildRunKey E) : Option (ChildRunKey E) := do
  let parent ← key.parent.reread
  let read ← (new parent key.slot).toOption
  if read.digest = key.digest then some read else none

@[simp] theorem reread_eq (key : ChildRunKey E) : key.reread = some key := by
  have hnew : new key.parent key.slot = .ok key := by
    rw [new, attach_eq_ok]
    exact ⟨key.digest, key.digest_eq, rfl⟩
  simp [reread, hnew, Except.toOption]

end ChildRunKey

namespace ResolvedBudget

def reread (budget : ResolvedBudget) : Option ResolvedBudget := do
  let costs ← Costs.reread budget.costs
  if h : SubsetsWithin budget.counts then some ⟨budget.deadline, budget.counts, costs, h⟩
  else none

@[simp] theorem reread_eq (budget : ResolvedBudget) : budget.reread = some budget := by
  rw [reread, Costs.reread_eq, Option.bind_eq_bind, Option.bind_some, dif_pos budget.subsets]

end ResolvedBudget

namespace CumulativeBudgetReservation

def reread (reservation : CumulativeBudgetReservation) : Option CumulativeBudgetReservation := do
  let amount ← reservation.amount.reread
  (new amount).toOption

@[simp] theorem reread_eq (reservation : CumulativeBudgetReservation) :
    reservation.reread = some reservation := by
  rw [reread, BudgetUsage.reread_eq, Option.bind_eq_bind, Option.bind_some, toOption_eq_some, new,
    attach_eq_ok]
  exact ⟨(), validate_eq_ok.mpr ⟨reservation.peaks_zero, reservation.priced⟩, rfl⟩

end CumulativeBudgetReservation

namespace ChildRunBudgetSettlement

def reread (settlement : ChildRunBudgetSettlement) : Option ChildRunBudgetSettlement := do
  let usage ← settlement.usage.reread
  (ofTerms { settlement.toSettlementTerms with usage := usage }).toOption

@[simp] theorem reread_eq (settlement : ChildRunBudgetSettlement) :
    settlement.reread = some settlement := by
  rw [reread, BudgetUsage.reread_eq, Option.bind_eq_bind, Option.bind_some, toOption_eq_some,
    ofTerms, attach_eq_ok]
  exact ⟨(), settlement.valid, rfl⟩

end ChildRunBudgetSettlement

namespace ChildRunBudgetEntry

def reread (entry : ChildRunBudgetEntry E) : Option (ChildRunBudgetEntry E) := do
  let key ← entry.key.reread
  let reservation ← entry.reservation.reread
  let settlement ← entry.settlement.mapM ChildRunBudgetSettlement.reread
  let read := { entry with key := key, reservation := reservation, settlement := settlement }
  if read.validate = .ok () then some read else none

theorem reread_eq {entry : ChildRunBudgetEntry E} (h : entry.validate = .ok ()) :
    entry.reread = some entry := by
  have hsettlement : entry.settlement.mapM ChildRunBudgetSettlement.reread =
      some entry.settlement := by
    cases entry.settlement <;> simp
  simp only [reread, ChildRunKey.reread_eq, CumulativeBudgetReservation.reread_eq, hsettlement,
    Option.bind_eq_bind, Option.bind_some]
  exact if_pos h

end ChildRunBudgetEntry

namespace ChildRunBudgetAccount

/-- `bounded_children`. -/
def rereadChildren (children : List (ChildRunBudgetEntry E)) :
    Option (List (ChildRunBudgetEntry E)) :=
  if children.length ≤ AccountTerms.maxChildren then children.mapM ChildRunBudgetEntry.reread
  else none

def reread (account : ChildRunBudgetAccount E) : Option (ChildRunBudgetAccount E) := do
  let budget ← account.budget.reread
  let directUsage ← account.directUsage.reread
  let children ← rereadChildren account.children
  let read ← (AccountTerms.sealed { account.toAccountTerms with
    budget := budget
    directUsage := directUsage
    children := children }).toOption
  if read.digest = account.digest then some read else none

theorem rereadChildren_eq (account : ChildRunBudgetAccount E) :
    rereadChildren account.children = some account.children := by
  obtain ⟨_, hmaximum, hlength⟩ := account.header
  rw [rereadChildren, if_pos (hlength.trans hmaximum)]
  exact mapM_eq_some_self fun entry hentry =>
    ChildRunBudgetEntry.reread_eq (account.sound.entries_valid entry hentry)

theorem reread_eq (account : ChildRunBudgetAccount E) : account.reread = some account := by
  simp only [reread, ResolvedBudget.reread_eq, BudgetUsage.reread_eq, account.rereadChildren_eq,
    Option.bind_eq_bind, Option.bind_some, account.sealed_self, Except.toOption, if_pos]

end ChildRunBudgetAccount

/-- Through any calls an account keeps its children in order, apart and within their number;
no child is removed or changed but by one settlement; the direct observation never goes
back; accepted reservations and settlements can be repeated, and no other ones replace
them; and the account is read back as it was written. -/
theorem account_history {parent : AgentAdmission E} {graph : CompiledGraph E}
    {directHead : JournalHead} {directUsage : BudgetUsage} {account : ChildRunBudgetAccount E}
    (hnew : ChildRunBudgetAccount.new parent graph directHead directUsage = .ok account)
    (calls : List (AccountCall E)) :
    (StrictlySorted ChildRunBudgetEntry.keyDigest (account.after calls).children ∧
      ((account.after calls).children.map (·.key)).Nodup ∧
      ((account.after calls).children.map (·.child.runId)).Nodup ∧
      (account.after calls).children.length ≤ (account.after calls).maximumChildren) ∧
    (∀ more : List (AccountCall E),
      (∀ entry ∈ (account.after calls).children,
        ∃ entry' ∈ ((account.after calls).after more).children, entry.Becomes entry') ∧
      (account.after calls).directUsage.Advances ((account.after calls).after more).directUsage ∧
      (account.after calls).directHead.sequence ≤
        ((account.after calls).after more).directHead.sequence) ∧
    (∀ entry ∈ (account.after calls).children, ∀ intent : ChildRunAdmissionIntent E,
      intent.key = entry.key → ∀ (graph' : CompiledGraph E) (observedAt : Timestamp),
      (E.Faithful → E.Canonicalizes → graph'.reference = (account.after calls).graph →
        intent.spawnDigest = entry.spawnDigest →
        (account.after calls).reserve intent graph' observedAt = .ok (account.after calls)) ∧
      (intent.spawnDigest ≠ entry.spawnDigest →
        ∃ error, (account.after calls).reserve intent graph' observedAt = .error error)) ∧
    (∀ entry ∈ (account.after calls).children, ∀ settlement,
      entry.settlement = some settlement →
      (account.after calls).settle entry.key settlement = .ok (account.after calls) ∧
      ∀ other ≠ settlement,
        ∃ error, (account.after calls).settle entry.key other = .error error) ∧
    (account.after calls).reread = some (account.after calls) := by
  have hjustified : account.Justified := by
    intro entry hentry
    rw [ChildRunBudgetAccount.new_children hnew] at hentry
    cases hentry
  have hcurrent := hjustified.after calls
  generalize account.after calls = current at hcurrent ⊢
  refine ⟨⟨current.sorted, current.keys_nodup, current.sound.runs_nodup, current.header.2.2⟩,
    fun more => ?_, fun entry hentry intent hkey graph' observedAt => ⟨?_, ?_⟩,
    fun entry hentry settlement hsettlement => ⟨?_, ?_⟩, current.reread_eq⟩
  · have hevolves := current.after_evolves more
    exact ⟨hevolves.children, hevolves.directUsage, hevolves.directHead⟩
  · intro hE hcanonicalizes hgraph hdigest
    exact ChildRunBudgetAccount.reserve_again hE hcanonicalizes hcurrent hentry hkey hdigest
      hgraph observedAt
  · intro hdigest
    exact ChildRunBudgetAccount.reserve_conflict hentry hkey hdigest graph' observedAt
  · exact ChildRunBudgetAccount.settle_again hentry hsettlement
  · intro other hother
    exact ChildRunBudgetAccount.settle_conflict hentry hsettlement hother

/-- A parent enters two children, observes its own usage, and still has both. -/
theorem account_history_two_children :
    ∃ (account : ChildRunBudgetAccount .compact) (calls more : List (AccountCall .compact)),
      (account.after calls).children.length = 2 ∧
      ((account.after calls).after more).directHead.sequence.value = 2 ∧
      ∀ entry ∈ (account.after calls).children,
        ∃ entry' ∈ ((account.after calls).after more).children, entry.Becomes entry' := by
  obtain ⟨family⟩ := ChildBudget.Sample.nonempty_family
  let calls : List (AccountCall .compact) := [.reserve family.first family.graph (.ofMicros 3),
    .reserve family.second family.graph (.ofMicros 3)]
  let more : List (AccountCall .compact) :=
    [.observeDirect (ChildBudget.Sample.head (.ofNat 2) (.ofMicros 3)) .zero]
  have hboth : family.account.after calls = family.both := by
    simp [calls, ChildRunBudgetAccount.after, ChildRunBudgetAccount.step,
      ChildRunBudgetAccount.call, family.reserve_first, family.reserve_second]
  have hlater : family.both.after more = family.later := by
    simp [more, ChildRunBudgetAccount.after, ChildRunBudgetAccount.step,
      ChildRunBudgetAccount.call, family.observe]
  obtain ⟨_, hmore, _⟩ := account_history family.new calls
  refine ⟨family.account, calls, more, ?_, ?_, (hmore more).1⟩
  · rw [hboth]
    exact family.two_children
  · rw [hboth, hlater]
    exact family.second_head

end StateKnot
