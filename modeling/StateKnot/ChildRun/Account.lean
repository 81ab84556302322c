import StateKnot.Budget.Reservation
import StateKnot.ChildRun.Admission
import StateKnot.Run.Lifecycle

/-!
# Child budget accounts

A run that delegates keeps an account of its budget: what it used itself, and one
entry for every child it ever started.  An outstanding child holds its reservation;
a settled one is charged with what it used.  Every change is sealed: the entries are
sorted by the digest of their key, checked, and bound by the digest of the whole
account.  Repeating a call that was accepted changes nothing.
-/

namespace StateKnot

open Lib

variable {E : Encoding}

inductive ChildRunBudgetError where
  | parentMismatch
  | unsupportedVersion
  | tooManyChildren
  | duplicateChild
  | spawnConflict
  | settlementConflict
  | childNotFound
  | notTerminal
  | terminalMismatch
  | unpricedSettlement
  | directObservationMismatch
  | clockBeforeEvidence
  | encoding
  | usage (source : BudgetUsageError)
  | reservation (source : CumulativeBudgetReservationError)
  | declaration (source : ChildRunPolicyError)
  | narrowing (source : BudgetNarrowingError)
deriving DecidableEq

/-! ## Settlements -/

def RunStatus.text : RunStatus → String
  | .pending => "pending"
  | .active => "active"
  | .waiting => "waiting"
  | .cancellationRequested => "cancellation_requested"
  | .succeeded => "succeeded"
  | .failed => "failed"
  | .cancelled => "cancelled"

/-- What is known of a child that ended. -/
structure SettlementTerms where
  child : AgentResultProvenance
  intentDigest : Digest
  admissionDigest : Digest
  admittedAt : Timestamp
  terminal : JournalHead
  status : RunStatus
  outcomeDigest : Digest
  usage : BudgetUsage
deriving DecidableEq

namespace SettlementTerms

def validate (terms : SettlementTerms) : Except ChildRunBudgetError Unit := do
  reject (!terms.status.isTerminal) .notTerminal
  reject (terms.child.tenantId ≠ terms.terminal.tenantId ∨
    terms.child.runId ≠ terms.terminal.runId ∨ terms.terminal.recordedAt < terms.admittedAt ∨
    terms.terminal.sequence.value ≤ 1) .terminalMismatch
  reject (terms.usage.unpricedCostEvents ≠ 0) .unpricedSettlement

def toJson (E : Encoding) (terms : SettlementTerms) : Json :=
  .obj [("child", terms.child.toJson), ("intent_digest", terms.intentDigest.toJson),
    ("admission_digest", terms.admissionDigest.toJson),
    ("admitted_at", E.timestampJson terms.admittedAt), ("terminal", terms.terminal.toJson E),
    ("status", .str terms.status.text), ("outcome_digest", terms.outcomeDigest.toJson),
    ("usage", terms.usage.toJson)]

end SettlementTerms

/-- The settlement of a child: its run ended and every cost is priced. -/
structure ChildRunBudgetSettlement extends SettlementTerms where
  valid : toSettlementTerms.validate = .ok ()
deriving DecidableEq

def ChildRunBudgetSettlement.ofTerms (terms : SettlementTerms) :
    Except ChildRunBudgetError ChildRunBudgetSettlement :=
  attach terms.validate fun _ h => .ok ⟨terms, h⟩

theorem ChildRunBudgetSettlement.priced (settlement : ChildRunBudgetSettlement) :
    settlement.usage.unpricedCostEvents = 0 := by
  have h := settlement.valid
  simp only [SettlementTerms.validate, bind_eq_ok, reject_eq_ok, exists_const, not_not] at h
  exact h.2.2

/-! ## Entries -/

/-- One child of a run, for the lifetime of the run. -/
structure ChildRunBudgetEntry (E : Encoding) where
  key : ChildRunKey E
  spawnDigest : Digest
  child : AgentResultProvenance
  intentDigest : Digest
  reservation : CumulativeBudgetReservation
  settlement : Option ChildRunBudgetSettlement

namespace ChildRunBudgetEntry

def validateSettlement (entry : ChildRunBudgetEntry E) (settlement : ChildRunBudgetSettlement) :
    Except ChildRunBudgetError Unit := do
  settlement.validate
  reject (settlement.child ≠ entry.child ∨ settlement.intentDigest ≠ entry.intentDigest)
    .terminalMismatch

def validate (entry : ChildRunBudgetEntry E) : Except ChildRunBudgetError Unit := do
  reject (entry.key.tenantId ≠ entry.child.tenantId ∨ entry.key.parentRunId = entry.child.runId)
    .parentMismatch
  forM entry.settlement.toList entry.validateSettlement

/-- What the entry takes of the parent's budget. -/
def charge (entry : ChildRunBudgetEntry E) : BudgetUsage :=
  match entry.settlement with
  | some settlement => settlement.usage.cumulativeOnly
  | none => entry.reservation.amount

def keyDigest (entry : ChildRunBudgetEntry E) : Digest := entry.key.digest

def toJson (entry : ChildRunBudgetEntry E) : Json :=
  .obj [("key", entry.key.toJson), ("spawn_digest", entry.spawnDigest.toJson),
    ("child", entry.child.toJson), ("intent_digest", entry.intentDigest.toJson),
    ("reservation", .obj [("amount", entry.reservation.amount.toJson)]),
    ("settlement",
      Json.ofOption (fun settlement : ChildRunBudgetSettlement => settlement.toJson E)
        entry.settlement)]

end ChildRunBudgetEntry

/-! ## Accounts before they are sealed -/

/-- The fields of an account without its digest. -/
structure AccountTerms (E : Encoding) where
  version : Nat
  parent : AgentResultProvenance
  parentAdmissionDigest : Digest
  parentAdmittedAt : Timestamp
  graph : GraphReference
  budget : ResolvedBudget
  maximumChildren : Nat
  directHead : JournalHead
  directUsage : BudgetUsage
  children : List (ChildRunBudgetEntry E)

namespace AccountTerms

def maxChildren : Nat := 256

def maxAccountBytes : Nat := 8388608

def settlements (terms : AccountTerms E) : List ChildRunBudgetSettlement :=
  terms.children.filterMap (·.settlement)

def outstanding (terms : AccountTerms E) : List CumulativeBudgetReservation :=
  (terms.children.filter (·.settlement.isNone)).map (·.reservation)

def delegatedUsage (terms : AccountTerms E) : Except BudgetUsageError BudgetUsage :=
  terms.settlements.foldlM
    (fun total settlement => total.checkedAccumulate settlement.usage.cumulativeOnly) .zero

def accountedUsage (terms : AccountTerms E) : Except BudgetUsageError BudgetUsage := do
  let delegated ← terms.delegatedUsage
  terms.directUsage.checkedAccumulate delegated

def remaining (terms : AccountTerms E) (observedAt : Timestamp) :
    Except ChildRunBudgetError BudgetRemaining := do
  reject (observedAt < terms.directHead.recordedAt ∨
    ∃ settlement ∈ terms.settlements, observedAt < settlement.terminal.recordedAt)
    .clockBeforeEvidence
  let accounted ← terms.accountedUsage.mapError .usage
  (CumulativeBudgetReservation.checkCapacity terms.budget accounted terms.outstanding
    observedAt).mapError .reservation

def entry (terms : AccountTerms E) (key : ChildRunKey E) : Option (ChildRunBudgetEntry E) :=
  terms.children.find? (·.key = key)

/-- The child's key and run lie in the scope of the account. -/
def validateScope (terms : AccountTerms E) (entry : ChildRunBudgetEntry E) :
    Except ChildRunBudgetError Unit :=
  reject (entry.key.tenantId ≠ terms.parent.tenantId ∨
    entry.key.parentRunId ≠ terms.parent.runId ∨
    entry.key.parent.baseCheckpoint.graph ≠ terms.graph ∨
    entry.child.tenantId ≠ terms.parent.tenantId ∨
    entry.child.runId = terms.parent.runId) .parentMismatch

/-- One turn of the loop of `seal`. -/
def acceptEntry (terms : AccountTerms E) (seen : List (ChildRunBudgetEntry E))
    (entry : ChildRunBudgetEntry E) : Except ChildRunBudgetError Unit := do
  entry.validate
  terms.validateScope entry
  reject (entry.key.digest ∈ seen.map (·.key.digest) ∨ entry.child.runId ∈ seen.map (·.child.runId))
    .duplicateChild
  forM entry.settlement.toList fun settlement =>
    reject (settlement.admittedAt < terms.parentAdmittedAt) .terminalMismatch

/-- The checks of `seal` before its loop. -/
def validateHeader (terms : AccountTerms E) : Except ChildRunBudgetError Unit := do
  reject (terms.version ≠ 1) .unsupportedVersion
  reject (terms.maximumChildren = 0 ∨ terms.maximumChildren > maxChildren ∨
    terms.children.length > terms.maximumChildren) .tooManyChildren
  reject (terms.directHead.tenantId ≠ terms.parent.tenantId ∨
    terms.directHead.runId ≠ terms.parent.runId ∨
    terms.directHead.recordedAt < terms.parentAdmittedAt) .directObservationMismatch

def accountJson (terms : AccountTerms E) (digest : Digest) : Json :=
  .obj [("version", .num (.int terms.version)), ("parent", terms.parent.toJson),
    ("parent_admission_digest", terms.parentAdmissionDigest.toJson),
    ("parent_admitted_at", E.timestampJson terms.parentAdmittedAt),
    ("graph", terms.graph.toJson), ("budget", terms.budget.toJson E),
    ("maximum_children", .num (.int terms.maximumChildren)),
    ("direct_head", terms.directHead.toJson E), ("direct_usage", terms.directUsage.toJson),
    ("children", .arr (terms.children.map (·.toJson))), ("digest", digest.toJson)]

def canonicalBytes (terms : AccountTerms E) (digest : Digest) :
    Except ChildRunBudgetError (List UInt8) := do
  let bytes ← (E.canonicalBytes (terms.accountJson digest)).mapError (fun _ => .encoding)
  reject (bytes.length > maxAccountBytes) .encoding
  return bytes

/-- The digest covers the account with the digest of nothing in its place. -/
def computeDigest (terms : AccountTerms E) : Except ChildRunBudgetError Digest := do
  let bytes ← terms.canonicalBytes (E.sha256 [])
  return E.sha256 (domainBytes "stateknot.child-run-budget-account.v1" ++ bytes)

/-- The entries in the order of the digests of their keys. -/
def ordered (terms : AccountTerms E) : AccountTerms E :=
  { terms with children := sortByKey ChildRunBudgetEntry.keyDigest terms.children }

/-- The checks of `seal`, of entries that are in order. -/
def validate (terms : AccountTerms E) : Except ChildRunBudgetError Unit := do
  terms.validateHeader
  let _ ← collect terms.acceptEntry [] terms.children
  let _ ← terms.accountedUsage.mapError .usage
  return ()

end AccountTerms

/-! ## Accounts -/

/-- A sealed account. -/
structure ChildRunBudgetAccount (E : Encoding) extends AccountTerms E where
  digest : Digest
  sorted : StrictlySorted ChildRunBudgetEntry.keyDigest children
  valid : toAccountTerms.validate = .ok ()
  digest_eq : toAccountTerms.computeDigest = .ok digest

namespace AccountTerms

/-- What the loop of `seal` establishes about the entries. -/
structure Sound (terms : AccountTerms E) (entries : List (ChildRunBudgetEntry E)) : Prop where
  entries_valid : ∀ entry ∈ entries, entry.validate = .ok ()
  entries_inScope : ∀ entry ∈ entries, terms.validateScope entry = .ok ()
  digests_nodup : (entries.map (·.key.digest)).Nodup
  runs_nodup : (entries.map (·.child.runId)).Nodup
  admitted : ∀ entry ∈ entries, ∀ settlement ∈ entry.settlement,
    terms.parentAdmittedAt ≤ settlement.admittedAt

variable {terms : AccountTerms E}

theorem Sound.of_append {seen rest : List (ChildRunBudgetEntry E)}
    (h : terms.Sound (seen ++ rest)) : terms.Sound seen := by
  have hdigests := h.digests_nodup
  have hruns := h.runs_nodup
  rw [List.map_append] at hdigests hruns
  exact ⟨fun entry hentry => h.entries_valid entry (List.mem_append_left _ hentry),
    fun entry hentry => h.entries_inScope entry (List.mem_append_left _ hentry),
    hdigests.of_append_left, hruns.of_append_left,
    fun entry hentry => h.admitted entry (List.mem_append_left _ hentry)⟩

theorem acceptEntry_eq_ok {seen : List (ChildRunBudgetEntry E)}
    {entry : ChildRunBudgetEntry E} {u : Unit} (hseen : terms.Sound seen) :
    terms.acceptEntry seen entry = .ok u ↔ terms.Sound (seen ++ [entry]) := by
  simp only [acceptEntry, bind_eq_ok, reject_eq_ok, forM_eq_ok, exists_const, not_or, not_lt,
    Option.mem_toList]
  constructor
  · intro h
    obtain ⟨_, hvalid, _, hscope, ⟨hdigest, hrun⟩, hadmitted⟩ := h
    have hboth : ∀ {P : ChildRunBudgetEntry E → Prop}, (∀ seenEntry ∈ seen, P seenEntry) →
        P entry → ∀ other ∈ seen ++ [entry], P other := by
      intro P hold hnew other hother
      rcases List.mem_append.mp hother with hother | hother
      · exact hold other hother
      · rw [List.mem_singleton.mp hother]
        exact hnew
    exact ⟨hboth hseen.entries_valid hvalid, hboth hseen.entries_inScope hscope,
      nodup_map_append_singleton.mpr ⟨hseen.digests_nodup, hdigest⟩,
      nodup_map_append_singleton.mpr ⟨hseen.runs_nodup, hrun⟩,
      hboth hseen.admitted hadmitted⟩
  · intro h
    have hmem : entry ∈ seen ++ [entry] := List.mem_append_right _ List.mem_cons_self
    exact ⟨(), h.entries_valid entry hmem, (), h.entries_inScope entry hmem,
      ⟨(nodup_map_append_singleton.mp h.digests_nodup).2,
        (nodup_map_append_singleton.mp h.runs_nodup).2⟩, h.admitted entry hmem⟩

theorem collect_acceptEntry_eq_ok
    {entries collected : List (ChildRunBudgetEntry E)} :
    collect terms.acceptEntry [] entries = .ok collected ↔
      collected = entries ∧ terms.Sound entries :=
  collect_eq_ok_iff terms.Sound Sound.of_append acceptEntry_eq_ok
    ⟨by simp, by simp, by simp, by simp, by simp⟩

theorem sorted_of_validate (h : terms.ordered.validate = .ok ()) :
    StrictlySorted ChildRunBudgetEntry.keyDigest terms.ordered.children := by
  simp only [validate, bind_eq_ok, collect_acceptEntry_eq_ok] at h
  obtain ⟨_, _, _, ⟨_, hsound⟩, _⟩ := h
  have hnodup : (terms.ordered.children.map ChildRunBudgetEntry.keyDigest).Nodup :=
    hsound.digests_nodup
  have hperm : terms.ordered.children.Perm terms.children := sortByKey_perm _ _
  exact strictlySorted_sortByKey ((hperm.map _).nodup_iff.mp hnodup)

/-- `seal`. -/
def sealed (terms : AccountTerms E) : Except ChildRunBudgetError (ChildRunBudgetAccount E) :=
  attach terms.ordered.validate fun _ hvalid =>
  attach terms.ordered.computeDigest fun digest hdigest =>
    .ok ⟨terms.ordered, digest, sorted_of_validate hvalid, hvalid, hdigest⟩

theorem sealed_eq_ok {account : ChildRunBudgetAccount E}
    (h : terms.sealed = .ok account) : account.toAccountTerms = terms.ordered := by
  simp only [sealed, attach_eq_ok] at h
  obtain ⟨_, _, _, _, h⟩ := h
  cases h
  rfl

end AccountTerms

namespace ChildRunBudgetAccount

theorem sealed_self (account : ChildRunBudgetAccount E) :
    account.toAccountTerms.sealed = .ok account := by
  have hordered : account.toAccountTerms.ordered = account.toAccountTerms := by
    rw [AccountTerms.ordered, account.sorted.sortByKey_eq]
  simp only [AccountTerms.sealed, attach_eq_ok, hordered]
  exact ⟨(), account.valid, account.digest, account.digest_eq, rfl⟩

/-- What every sealed account guarantees about its entries. -/
theorem sound (account : ChildRunBudgetAccount E) :
    account.toAccountTerms.Sound account.children := by
  have h := account.valid
  simp only [AccountTerms.validate, bind_eq_ok, AccountTerms.collect_acceptEntry_eq_ok] at h
  obtain ⟨_, _, _, ⟨_, hsound⟩, _⟩ := h
  exact hsound

theorem header (account : ChildRunBudgetAccount E) :
    account.version = 1 ∧ account.maximumChildren ≤ AccountTerms.maxChildren ∧
      account.children.length ≤ account.maximumChildren := by
  have h := account.valid
  simp only [AccountTerms.validate, AccountTerms.validateHeader, bind_eq_ok, reject_eq_ok,
    exists_const, not_not, not_or, not_lt] at h
  obtain ⟨⟨hversion, ⟨_, hmaximum, hlength⟩, _⟩, _⟩ := h
  exact ⟨hversion, hmaximum, hlength⟩

def validateFor (account : ChildRunBudgetAccount E) (parent : AgentAdmission E)
    (graph : CompiledGraph E) : Except ChildRunBudgetError Unit :=
  reject (account.parent ≠ parent.intent.provenance ∨
    account.parentAdmissionDigest ≠ parent.digest ∨
    account.parentAdmittedAt ≠ parent.admittedAt ∨ account.graph ≠ parent.intent.graph ∨
    account.graph ≠ graph.reference ∨ account.budget ≠ parent.intent.budget ∨
    graph.childRuns.map (·.limits.maximumChildrenPerRun) ≠ some account.maximumChildren ∨
    account.directHead.recordedAt < parent.admittedAt) .parentMismatch

def new (parent : AgentAdmission E) (graph : CompiledGraph E) (directHead : JournalHead)
    (directUsage : BudgetUsage) : Except ChildRunBudgetError (ChildRunBudgetAccount E) := do
  let policy ← okOr graph.childRuns .parentMismatch
  reject (directHead.recordedAt < parent.admittedAt) .directObservationMismatch
  let account ← AccountTerms.sealed {
    version := 1
    parent := parent.intent.provenance
    parentAdmissionDigest := parent.digest
    parentAdmittedAt := parent.admittedAt
    graph := graph.reference
    budget := parent.intent.budget
    maximumChildren := policy.limits.maximumChildrenPerRun
    directHead := directHead
    directUsage := directUsage
    children := [] }
  account.validateFor parent graph
  return account

end ChildRunBudgetAccount

/-! ## Declarations -/

def ChildAgentReference.fromDescriptor (E : Encoding) (descriptor : AgentDescriptor) :
    Except ChildRunPolicyError ChildAgentReference := do
  let canonical ← (E.canonicalBytes descriptor.wire).mapError (fun _ => .agentEncoding)
  return ⟨descriptor.identity,
    E.sha256 (domainBytes "stateknot.child-agent-definition.v1" ++ canonical)⟩

def ChildRunDeclaration.validateTarget (declaration : ChildRunDeclaration)
    (target : CompiledGraph E) (limits : ChildRunTopologyLimits) :
    Except ChildRunPolicyError Unit := do
  reject (target.reference ≠ declaration.graph) .targetGraphMismatch
  reject (target.inputSchema ≠ declaration.inputSchema ∨
    target.outputSchema ≠ declaration.outputSchema) .targetSchemaMismatch
  let childDepth := (target.childRuns.map (·.limits.maximumDescendantDepth)).getD 0
  reject (childDepth ≥ limits.maximumDescendantDepth) .depthNotNarrowed

def ChildRunAdmissionIntent.validateDeclaration (intent : ChildRunAdmissionIntent E)
    (parent : CompiledGraph E) : Except ChildRunPolicyError Unit := do
  reject (intent.key.parent.baseCheckpoint.graph ≠ parent.reference) .parentGraphMismatch
  let policy ← okOr parent.childRuns .delegationNotDeclared
  let declaration ← okOr (policy.declaration intent.key.parent.nodeId intent.key.slot)
    .delegationNotDeclared
  declaration.validateTarget intent.childGraph policy.limits
  let agent ← ChildAgentReference.fromDescriptor E intent.child.descriptor
  reject (declaration.agent ≠ agent) .targetAgentMismatch

/-! ## Operations -/

namespace ChildRunBudgetAccount

/-- The checks of `reserve` that come before the entry is looked up. -/
def validateReserve (account : ChildRunBudgetAccount E) (intent : ChildRunAdmissionIntent E)
    (parentGraph : CompiledGraph E) : Except ChildRunBudgetError Unit := do
  reject (intent.parentAdmissionDigest ≠ account.parentAdmissionDigest ∨
    intent.key.tenantId ≠ account.parent.tenantId ∨
    intent.key.parentRunId ≠ account.parent.runId ∨
    intent.key.parent.baseCheckpoint.graph ≠ account.graph ∨
    parentGraph.reference ≠ account.graph) .parentMismatch
  (intent.validateDeclaration parentGraph).mapError .declaration
  (intent.child.budget.validateNarrowing account.budget).mapError .narrowing

/-- The entry of a new child. -/
def newEntry (intent : ChildRunAdmissionIntent E) :
    Except ChildRunBudgetError (ChildRunBudgetEntry E) := do
  let reservation ← (CumulativeBudgetReservation.fromBudget intent.child.budget).mapError
    .reservation
  return {
    key := intent.key
    spawnDigest := intent.spawnDigest
    child := intent.child.provenance
    intentDigest := intent.child.intentDigest
    reservation := reservation
    settlement := none }

def withEntry (account : ChildRunBudgetAccount E) (entry : ChildRunBudgetEntry E) :
    AccountTerms E :=
  { account.toAccountTerms with children := account.children ++ [entry] }

def reserve (account : ChildRunBudgetAccount E) (intent : ChildRunAdmissionIntent E)
    (parentGraph : CompiledGraph E) (observedAt : Timestamp) :
    Except ChildRunBudgetError (ChildRunBudgetAccount E) := do
  account.validateReserve intent parentGraph
  match account.entry intent.key with
  | some existing =>
    reject (existing.spawnDigest ≠ intent.spawnDigest) .spawnConflict
    return account
  | none =>
    reject (account.children.length ≥ account.maximumChildren) .tooManyChildren
    let entry ← newEntry intent
    let _ ← (account.withEntry entry).remaining observedAt
    (account.withEntry entry).sealed

/-- The entry of `key` settled. -/
def withSettlement (account : ChildRunBudgetAccount E) (key : ChildRunKey E)
    (settlement : ChildRunBudgetSettlement) : AccountTerms E :=
  { account.toAccountTerms with
    children := account.children.map fun entry =>
      if entry.key = key then { entry with settlement := some settlement } else entry }

/-- Keys are distinct, so the entry at the position of a key is the only one with it. -/
def settle (account : ChildRunBudgetAccount E) (key : ChildRunKey E)
    (settlement : ChildRunBudgetSettlement) :
    Except ChildRunBudgetError (ChildRunBudgetAccount E) := do
  settlement.validate
  let entry ← okOr (account.entry key) .childNotFound
  reject (entry.child ≠ settlement.child ∨ entry.intentDigest ≠ settlement.intentDigest)
    .terminalMismatch
  reject (settlement.admittedAt < account.parentAdmittedAt) .terminalMismatch
  match entry.settlement with
  | some existing =>
    reject (existing ≠ settlement) .settlementConflict
    return account
  | none => (account.withSettlement key settlement).sealed

def withDirect (account : ChildRunBudgetAccount E) (head : JournalHead) (usage : BudgetUsage) :
    AccountTerms E :=
  { account.toAccountTerms with directHead := head, directUsage := usage }

def observeDirect (account : ChildRunBudgetAccount E) (head : JournalHead) (usage : BudgetUsage) :
    Except ChildRunBudgetError (ChildRunBudgetAccount E) :=
  if head = account.directHead ∧ usage = account.directUsage then .ok account
  else do
    reject (head.tenantId ≠ account.parent.tenantId ∨ head.runId ≠ account.parent.runId ∨
      head.sequence ≤ account.directHead.sequence ∨
      head.recordedAt < account.directHead.recordedAt) .directObservationMismatch
    (usage.validateMonotonicAfter account.directUsage).mapError .usage
    (account.withDirect head usage).sealed

end ChildRunBudgetAccount

end StateKnot
