import StateKnot.NodeResult
import StateKnot.Run.Result

/-!
# The lifecycle of a run

A run is admitted, started, may wait for interrupts and timers, and ends in one of
three terminal states.  A lifecycle is the durable snapshot of it: `apply` moves it
along one transition and counts the revision, and a snapshot that is read back goes
through the checks of its parts and through `validateSnapshot`.
-/

namespace StateKnot

open Lib

variable {E : Encoding}

/-! ## Interrupts and timers -/

inductive RunInterruptError where
  | expiryNotAfterRequest (requestedAt expiresAt : Timestamp)

structure RunInterrupt where
  interruptId : InterruptId
  kind : RunInterruptKind
  requestedAt : Timestamp
  expiresAt : Option Timestamp
  expires_after_request : ∀ expiry ∈ expiresAt, requestedAt < expiry

instance : DecidableEq RunInterrupt := fun a b =>
  decidable_of_iff (a.interruptId = b.interruptId ∧ a.kind = b.kind ∧
    a.requestedAt = b.requestedAt ∧ a.expiresAt = b.expiresAt) (by cases a; cases b; simp)

theorem RunInterrupt.never_expires (requestedAt : Timestamp) :
    ∀ expiry ∈ (none : Option Timestamp), requestedAt < expiry := by
  simp

theorem RunInterrupt.after_request {requestedAt expiry : Timestamp} (h : ¬ expiry ≤ requestedAt) :
    ∀ instant ∈ some expiry, requestedAt < instant := by
  simpa using h

def RunInterrupt.new (interruptId : InterruptId) (kind : RunInterruptKind)
    (requestedAt : Timestamp) (expiresAt : Option Timestamp) :
    Except RunInterruptError RunInterrupt :=
  match expiresAt with
  | none => .ok ⟨interruptId, kind, requestedAt, none, never_expires _⟩
  | some expiry =>
    if h : expiry ≤ requestedAt then .error (.expiryNotAfterRequest requestedAt expiry)
    else .ok ⟨interruptId, kind, requestedAt, some expiry, after_request h⟩

inductive RunTimerError where
  | dueNotAfterSchedule (scheduledAt dueAt : Timestamp)

structure RunTimer where
  timerId : TimerId
  kind : RunTimerKind
  scheduledAt : Timestamp
  dueAt : Timestamp
  due_after_schedule : scheduledAt < dueAt

instance : DecidableEq RunTimer := fun a b =>
  decidable_of_iff (a.timerId = b.timerId ∧ a.kind = b.kind ∧ a.scheduledAt = b.scheduledAt ∧
    a.dueAt = b.dueAt) (by cases a; cases b; simp)

theorem RunTimer.after_schedule {scheduledAt dueAt : Timestamp} (h : ¬ dueAt ≤ scheduledAt) :
    scheduledAt < dueAt :=
  not_le.mp h

def RunTimer.new (timerId : TimerId) (kind : RunTimerKind) (scheduledAt dueAt : Timestamp) :
    Except RunTimerError RunTimer :=
  if h : dueAt ≤ scheduledAt then .error (.dueNotAfterSchedule scheduledAt dueAt)
  else .ok ⟨timerId, kind, scheduledAt, dueAt, after_schedule h⟩

/-! ## Waits -/

inductive RunWait where
  | interrupt (value : RunInterrupt)
  | timer (value : RunTimer)
deriving DecidableEq

namespace RunWait

def asInterrupt : RunWait → Option RunInterrupt
  | .interrupt value => some value
  | .timer _ => none

def asTimer : RunWait → Option RunTimer
  | .timer value => some value
  | .interrupt _ => none

def registeredAt : RunWait → Timestamp
  | .interrupt value => value.requestedAt
  | .timer value => value.scheduledAt

/-- Interrupt and timer identities share one space of UUIDs. -/
def identityUuid : RunWait → String
  | .interrupt value => value.interruptId.text
  | .timer value => value.timerId.text

end RunWait

inductive RunWaitsError where
  | empty
  | tooMany (maximum actual : Nat)
  | duplicateIdentity
  | mixedRegistrationTimes (expected actual : Timestamp)

/-- Outstanding conditions that were registered together. -/
structure RunWaits where
  values : List RunWait
  registeredAt : Timestamp
  nonempty : values ≠ []
  bounded : values.length ≤ 64
  together : ∀ wait ∈ values, wait.registeredAt = registeredAt
  distinct : (values.map RunWait.identityUuid).Nodup
deriving DecidableEq

namespace RunWaits

theorem ext_values {a b : RunWaits} (h : a.values = b.values) : a = b := by
  have hregistered : a.registeredAt = b.registeredAt := by
    obtain ⟨wait, hwait⟩ := List.exists_mem_of_ne_nil _ a.nonempty
    rw [← a.together wait hwait, ← b.together wait (h ▸ hwait)]
  cases a
  cases b
  simp_all

/-- The first wait of a loop sets the instant that later ones must share. -/
def checkRegistration (first : Option RunWait) (wait : RunWait) : Except RunWaitsError Unit :=
  match first with
  | none => .ok ()
  | some first =>
    reject (wait.registeredAt ≠ first.registeredAt)
      (.mixedRegistrationTimes first.registeredAt wait.registeredAt)

theorem checkRegistration_eq_ok {first : Option RunWait} {wait : RunWait} {u : Unit} :
    checkRegistration first wait = .ok u ↔
      ∀ other ∈ first, wait.registeredAt = other.registeredAt := by
  cases first <;> simp [checkRegistration]

/-- One turn of the loop of `try_new`. -/
def accept (seen : List RunWait) (wait : RunWait) : Except RunWaitsError Unit := do
  reject (seen.length = 64) (.tooMany 64 65)
  checkRegistration seen.head? wait
  reject (wait.identityUuid ∈ seen.map RunWait.identityUuid) .duplicateIdentity

/-- What the loop has checked of the waits it collected. -/
structure Collectable (values : List RunWait) : Prop where
  bounded : values.length ≤ 64
  together : ∀ first ∈ values.head?, ∀ wait ∈ values, wait.registeredAt = first.registeredAt
  distinct : (values.map RunWait.identityUuid).Nodup

theorem Collectable.of_append {seen rest : List RunWait} (h : Collectable (seen ++ rest)) :
    Collectable seen where
  bounded := by
    have hbounded := h.bounded
    rw [List.length_append] at hbounded
    omega
  together := by
    intro first hfirst wait hwait
    apply h.together first
    · rw [List.head?_append, Option.mem_def.mp hfirst]
      rfl
    · exact List.mem_append_left _ hwait
  distinct := by
    have hdistinct := h.distinct
    rw [List.map_append] at hdistinct
    exact hdistinct.of_append_left

theorem accept_eq_ok {seen : List RunWait} {wait : RunWait} {u : Unit} (h : Collectable seen) :
    accept seen wait = .ok u ↔ Collectable (seen ++ [wait]) := by
  simp only [accept, bind_eq_ok, reject_eq_ok, checkRegistration_eq_ok, exists_const]
  constructor
  · rintro ⟨hlength, htogether, hfresh⟩
    have hbounded := h.bounded
    refine ⟨by rw [List.length_append, List.length_singleton]; omega, ?_,
      nodup_map_append_singleton.mpr ⟨h.distinct, hfresh⟩⟩
    intro first hmem other hother
    cases seen with
    | nil =>
      simp only [List.nil_append, List.head?_cons, Option.mem_some, List.mem_singleton]
        at hmem hother
      rw [hother, hmem]
    | cons head tail =>
      rw [List.mem_append, List.mem_singleton] at hother
      rcases hother with hold | rfl
      · exact h.together first hmem other hold
      · exact htogether first hmem
  · intro hcollectable
    have hbounded := hcollectable.bounded
    rw [List.length_append, List.length_singleton] at hbounded
    refine ⟨by omega, ?_, (nodup_map_append_singleton.mp hcollectable.distinct).2⟩
    intro first hmem
    apply hcollectable.together first
    · rw [List.head?_append, Option.mem_def.mp hmem]
      rfl
    · simp

theorem collect_accept_eq_ok {values collected : List RunWait} :
    collect accept [] values = .ok collected ↔ collected = values ∧ Collectable values :=
  collect_eq_ok_iff Collectable Collectable.of_append accept_eq_ok ⟨by simp, by simp, by simp⟩

def tryNew (values : List RunWait) : Except RunWaitsError RunWaits :=
  attach (collect accept [] values) fun collected h =>
    match hhead : collected.head? with
    | none => .error .empty
    | some first => .ok {
        values := collected
        registeredAt := first.registeredAt
        nonempty := by
          intro hnil
          rw [hnil] at hhead
          cases hhead
        bounded := by
          obtain ⟨rfl, hcollectable⟩ := collect_accept_eq_ok.mp h
          exact hcollectable.bounded
        together := by
          obtain ⟨rfl, hcollectable⟩ := collect_accept_eq_ok.mp h
          exact hcollectable.together first hhead
        distinct := by
          obtain ⟨rfl, hcollectable⟩ := collect_accept_eq_ok.mp h
          exact hcollectable.distinct }

theorem tryNew_values (waits : RunWaits) : tryNew waits.values = .ok waits := by
  have hcollectable : Collectable waits.values := by
    refine ⟨waits.bounded, ?_, waits.distinct⟩
    intro first hfirst wait hwait
    rw [waits.together wait hwait, waits.together first (List.mem_of_mem_head? hfirst)]
  rw [tryNew, attach_eq_ok]
  refine ⟨waits.values, collect_accept_eq_ok.mpr ⟨rfl, hcollectable⟩, ?_⟩
  split
  · rename_i hnone
    exact absurd (List.head?_eq_none_iff.mp hnone) waits.nonempty
  · exact congrArg Except.ok (ext_values rfl)

def interrupt (waits : RunWaits) (interruptId : InterruptId) : Option RunInterrupt :=
  (waits.values.filterMap RunWait.asInterrupt).find? (·.interruptId = interruptId)

def timer (waits : RunWaits) (timerId : TimerId) : Option RunTimer :=
  (waits.values.filterMap RunWait.asTimer).find? (·.timerId = timerId)

/-- The waits that a predicate keeps, unless none is left: the body of
`without_interrupt` and `without_timer` with `from_remaining`. -/
def remaining (waits : RunWaits) (keep : RunWait → Bool) : Option RunWaits :=
  if h : waits.values.filter keep = [] then none
  else some {
    values := waits.values.filter keep
    registeredAt := waits.registeredAt
    nonempty := h
    bounded := (List.length_filter_le _ _).trans waits.bounded
    together := fun wait hwait => waits.together wait (List.mem_filter.mp hwait).1
    distinct := waits.distinct.sublist ((List.filter_sublist).map _) }

def withoutInterrupt (waits : RunWaits) (interruptId : InterruptId) : Option RunWaits :=
  waits.remaining fun wait => wait.asInterrupt.all (·.interruptId ≠ interruptId)

def withoutTimer (waits : RunWaits) (timerId : TimerId) : Option RunWaits :=
  waits.remaining fun wait => wait.asTimer.all (·.timerId ≠ timerId)

theorem registeredAt_remaining {waits left : RunWaits} {keep : RunWait → Bool}
    (h : waits.remaining keep = some left) : left.registeredAt = waits.registeredAt := by
  unfold remaining at h
  split at h
  · cases h
  · cases h
    rfl

end RunWaits

/-! ## Failures and cancellations -/

inductive RunFailureError where
  | cancellationRequiresCancellationPath

structure RunFailure where
  failure : Failure
  completedAt : Timestamp
  usage : BudgetUsage
  not_cancelled : failure.category ≠ .cancelled
deriving DecidableEq

def RunFailure.new (failure : Failure) (completedAt : Timestamp) (usage : BudgetUsage) :
    Except RunFailureError RunFailure :=
  if h : failure.category = .cancelled then .error .cancellationRequiresCancellationPath
  else .ok ⟨failure, completedAt, usage, h⟩

inductive RunCancellationError where
  | categoryNotCancelled (actual : FailureCategory)
  | retryAdviceNotNever (actual : RetryAdvice)
  | completionBeforeRequest (requestedAt completedAt : Timestamp)

structure RunCancellationRequest where
  failure : Failure
  requestedAt : Timestamp
  is_cancelled : failure.category = .cancelled
  never_retried : failure.retryAdvice = .never
deriving DecidableEq

def RunCancellationRequest.new (failure : Failure) (requestedAt : Timestamp) :
    Except RunCancellationError RunCancellationRequest :=
  if hcategory : failure.category = .cancelled then
    if hadvice : failure.retryAdvice = .never then .ok ⟨failure, requestedAt, hcategory, hadvice⟩
    else .error (.retryAdviceNotNever failure.retryAdvice)
  else .error (.categoryNotCancelled failure.category)

structure RunCancellation where
  request : RunCancellationRequest
  completedAt : Timestamp
  usage : BudgetUsage
  after_request : request.requestedAt ≤ completedAt
deriving DecidableEq

def RunCancellation.new (request : RunCancellationRequest) (completedAt : Timestamp)
    (usage : BudgetUsage) : Except RunCancellationError RunCancellation :=
  if h : completedAt < request.requestedAt then
    .error (.completionBeforeRequest request.requestedAt completedAt)
  else .ok ⟨request, completedAt, usage, not_lt.mp h⟩

/-! ## States -/

inductive RunStatus where
  | pending | active | waiting | cancellationRequested | succeeded | failed | cancelled
deriving DecidableEq

def RunStatus.isTerminal : RunStatus → Bool
  | .succeeded | .failed | .cancelled => true
  | _ => false

inductive RunState (E : Encoding) where
  | pending
  | active (activatedAt : Timestamp)
  | waiting (waits : RunWaits) (changedAt : Timestamp)
  | cancellationRequested (request : RunCancellationRequest)
  | succeeded (result : AgentResult E)
  | failed (failure : RunFailure)
  | cancelled (cancellation : RunCancellation)
deriving DecidableEq

namespace RunState

def status : RunState E → RunStatus
  | .pending => .pending
  | .active _ => .active
  | .waiting _ _ => .waiting
  | .cancellationRequested _ => .cancellationRequested
  | .succeeded _ => .succeeded
  | .failed _ => .failed
  | .cancelled _ => .cancelled

def changedAt (admittedAt : Timestamp) : RunState E → Timestamp
  | .pending => admittedAt
  | .active activatedAt => activatedAt
  | .waiting _ changedAt => changedAt
  | .cancellationRequested request => request.requestedAt
  | .succeeded result => result.completedAt
  | .failed failure => failure.completedAt
  | .cancelled cancellation => cancellation.completedAt

def cancellationRequest : RunState E → Option RunCancellationRequest
  | .cancellationRequested request => some request
  | .cancelled cancellation => some cancellation.request
  | _ => none

def result : RunState E → Option (AgentResult E)
  | .succeeded result => some result
  | _ => none

end RunState

/-- The revision counts accepted transitions. -/
abbrev RunRevision := Count

def RunRevision.checkedNext (revision : RunRevision) : Option RunRevision :=
  revision.checkedAdd (.ofNat 1)

structure RunLifecycle (E : Encoding) where
  provenance : AgentResultProvenance
  admittedAt : Timestamp
  revision : RunRevision
  state : RunState E

/-! ## Transitions -/

inductive RunTransitionKind where
  | start | wait | resolveInterrupt | fireTimer | requestCancellation | confirmCancellation
  | succeed | fail

inductive RunTransition (E : Encoding) where
  | start (startedAt : Timestamp)
  | wait (waits : RunWaits)
  | resolveInterrupt (interruptId : InterruptId) (resolvedAt : Timestamp)
  | fireTimer (timerId : TimerId) (firedAt : Timestamp)
  | requestCancellation (request : RunCancellationRequest)
  | confirmCancellation (completedAt : Timestamp) (usage : BudgetUsage)
  | succeed (result : AgentResult E)
  | fail (failure : RunFailure)

namespace RunTransition

def kind : RunTransition E → RunTransitionKind
  | .start _ => .start
  | .wait _ => .wait
  | .resolveInterrupt _ _ => .resolveInterrupt
  | .fireTimer _ _ => .fireTimer
  | .requestCancellation _ => .requestCancellation
  | .confirmCancellation _ _ => .confirmCancellation
  | .succeed _ => .succeed
  | .fail _ => .fail

def changedAt : RunTransition E → Timestamp
  | .start startedAt => startedAt
  | .wait waits => waits.registeredAt
  | .resolveInterrupt _ resolvedAt => resolvedAt
  | .fireTimer _ firedAt => firedAt
  | .requestCancellation request => request.requestedAt
  | .confirmCancellation completedAt _ => completedAt
  | .succeed result => result.completedAt
  | .fail failure => failure.completedAt

end RunTransition

def transitionAllowed : RunStatus → RunTransitionKind → Bool
  | .pending, .start => true
  | .pending, .requestCancellation | .pending, .fail => true
  | .active, .requestCancellation | .active, .fail => true
  | .waiting, .requestCancellation | .waiting, .fail => true
  | .active, .wait | .active, .succeed => true
  | .waiting, .resolveInterrupt | .waiting, .fireTimer => true
  | .cancellationRequested, .confirmCancellation => true
  | _, _ => false

inductive RunTransitionError where
  | invalidTransition (status : RunStatus) (transition : RunTransitionKind)
  | clockRegression (previous actual : Timestamp)
  | interruptNotOutstanding (interruptId : InterruptId)
  | interruptExpired (interruptId : InterruptId) (expiresAt resolvedAt : Timestamp)
  | timerNotOutstanding (timerId : TimerId)
  | timerNotDue (timerId : TimerId) (dueAt firedAt : Timestamp)
  | resultProvenanceMismatch (expected actual : AgentResultProvenance)
  | cancellation (source : RunCancellationError)
  | revisionOverflow

/-- The state with the waits that are left, active when there are none. -/
def resumeWith (left : Option RunWaits) (changedAt : Timestamp) : RunState E :=
  match left with
  | some waits => .waiting waits changedAt
  | none => .active changedAt

def resolveInterrupt (waits : RunWaits) (interruptId : InterruptId) (resolvedAt : Timestamp) :
    Except RunTransitionError (RunState E) := do
  let interrupt ← okOr (waits.interrupt interruptId) (.interruptNotOutstanding interruptId)
  match interrupt.expiresAt with
  | none => pure ()
  | some expiresAt =>
    reject (expiresAt ≤ resolvedAt) (.interruptExpired interruptId expiresAt resolvedAt)
  return resumeWith (waits.withoutInterrupt interruptId) resolvedAt

def fireTimer (waits : RunWaits) (timerId : TimerId) (firedAt : Timestamp) :
    Except RunTransitionError (RunState E) := do
  let timer ← okOr (waits.timer timerId) (.timerNotOutstanding timerId)
  reject (firedAt < timer.dueAt) (.timerNotDue timerId timer.dueAt firedAt)
  return resumeWith (waits.withoutTimer timerId) firedAt

def RunState.applyTransition (provenance : AgentResultProvenance) (state : RunState E)
    (transition : RunTransition E) : Except RunTransitionError (RunState E) :=
  match state, transition with
  | .pending, .start startedAt => .ok (.active startedAt)
  | .active _, .wait waits => .ok (.waiting waits waits.registeredAt)
  | .waiting waits _, .resolveInterrupt interruptId resolvedAt =>
    resolveInterrupt waits interruptId resolvedAt
  | .waiting waits _, .fireTimer timerId firedAt => fireTimer waits timerId firedAt
  | .pending, .requestCancellation request
  | .active _, .requestCancellation request
  | .waiting _ _, .requestCancellation request => .ok (.cancellationRequested request)
  | .cancellationRequested request, .confirmCancellation completedAt usage => do
    let cancellation ← (RunCancellation.new request completedAt usage).mapError .cancellation
    return .cancelled cancellation
  | .active _, .succeed result => do
    reject (result.provenance ≠ provenance)
      (.resultProvenanceMismatch provenance result.provenance)
    return .succeeded result
  | .pending, .fail failure
  | .active _, .fail failure
  | .waiting _ _, .fail failure => .ok (.failed failure)
  | _, _ => .error (.invalidTransition state.status transition.kind)

namespace RunLifecycle

def admitted (provenance : AgentResultProvenance) (admittedAt : Timestamp) : RunLifecycle E :=
  ⟨provenance, admittedAt, 0, .pending⟩

def status (lifecycle : RunLifecycle E) : RunStatus := lifecycle.state.status

def changedAt (lifecycle : RunLifecycle E) : Timestamp :=
  lifecycle.state.changedAt lifecycle.admittedAt

def cancellationRequest (lifecycle : RunLifecycle E) : Option RunCancellationRequest :=
  lifecycle.state.cancellationRequest

def result (lifecycle : RunLifecycle E) : Option (AgentResult E) := lifecycle.state.result

def apply (lifecycle : RunLifecycle E) (transition : RunTransition E) :
    Except RunTransitionError (RunLifecycle E) := do
  reject (!transitionAllowed lifecycle.status transition.kind)
    (.invalidTransition lifecycle.status transition.kind)
  reject (transition.changedAt < lifecycle.changedAt)
    (.clockRegression lifecycle.changedAt transition.changedAt)
  let state ← RunState.applyTransition lifecycle.provenance lifecycle.state transition
  let revision ← okOr (RunRevision.checkedNext lifecycle.revision) .revisionOverflow
  return { lifecycle with revision := revision, state := state }

end RunLifecycle

/-! ## Snapshots -/

inductive RunLifecycleError where
  | pendingRevisionNotZero (actual : RunRevision)
  | advancedStateAtZeroRevision (status : RunStatus)
  | stateBeforeAdmission (admittedAt changedAt : Timestamp)
  | waitingChangeBeforeRegistration (registeredAt changedAt : Timestamp)
  | resultProvenanceMismatch (expected actual : AgentResultProvenance)

def RunLifecycle.validateSnapshot (lifecycle : RunLifecycle E) : Except RunLifecycleError Unit := do
  reject (lifecycle.status = .pending ∧ lifecycle.revision ≠ 0)
    (.pendingRevisionNotZero lifecycle.revision)
  reject (lifecycle.status ≠ .pending ∧ lifecycle.revision = 0)
    (.advancedStateAtZeroRevision lifecycle.status)
  reject (lifecycle.changedAt < lifecycle.admittedAt)
    (.stateBeforeAdmission lifecycle.admittedAt lifecycle.changedAt)
  match lifecycle.state with
  | .waiting waits changedAt =>
    reject (changedAt < waits.registeredAt)
      (.waitingChangeBeforeRegistration waits.registeredAt changedAt)
  | .succeeded result =>
    reject (result.provenance ≠ lifecycle.provenance)
      (.resultProvenanceMismatch lifecycle.provenance result.provenance)
  | _ => pure ()

namespace RunInterrupt

def reread (interrupt : RunInterrupt) : Option RunInterrupt :=
  (new interrupt.interruptId interrupt.kind interrupt.requestedAt interrupt.expiresAt).toOption

@[simp] theorem reread_eq (interrupt : RunInterrupt) : interrupt.reread = some interrupt := by
  obtain ⟨interruptId, kind, requestedAt, expiresAt, hexpires⟩ := interrupt
  cases expiresAt with
  | none => rfl
  | some expiry =>
    have hlt : requestedAt < expiry := hexpires expiry rfl
    rw [reread, toOption_eq_some]
    exact dif_neg (not_le.mpr hlt)

end RunInterrupt

namespace RunTimer

def reread (timer : RunTimer) : Option RunTimer :=
  (new timer.timerId timer.kind timer.scheduledAt timer.dueAt).toOption

@[simp] theorem reread_eq (timer : RunTimer) : timer.reread = some timer := by
  rw [reread, toOption_eq_some]
  exact dif_neg (not_le.mpr timer.due_after_schedule)

end RunTimer

namespace RunWait

def reread : RunWait → Option RunWait
  | .interrupt value => value.reread.map .interrupt
  | .timer value => value.reread.map .timer

@[simp] theorem reread_eq (wait : RunWait) : wait.reread = some wait := by
  cases wait <;> simp [reread]

end RunWait

namespace RunWaits

/-- One turn of the visitor, which checks before it collects. -/
def acceptVisited (seen : List RunWait) (wait : RunWait) : Except RunWaitsError Unit := do
  reject (seen.length = 64) (.tooMany 64 65)
  reject (wait.identityUuid ∈ seen.map RunWait.identityUuid) .duplicateIdentity

/-- `visit_seq`. -/
def visitSeq (values : List RunWait) : Except RunWaitsError RunWaits := do
  let visited ← collect acceptVisited [] values
  tryNew visited

theorem collect_acceptVisited_eq_ok {values visited : List RunWait} :
    collect acceptVisited [] values = .ok visited ↔ visited = values ∧ values.length ≤ 64 ∧
      (values.map RunWait.identityUuid).Nodup :=
  collect_eq_ok (by simp [acceptVisited, bind_eq_ok])

def reread (waits : RunWaits) : Option RunWaits := do
  let values ← waits.values.mapM RunWait.reread
  (visitSeq values).toOption

@[simp] theorem reread_eq (waits : RunWaits) : waits.reread = some waits := by
  have hvalues : waits.values.mapM RunWait.reread = some waits.values :=
    mapM_eq_some_self fun wait _ => wait.reread_eq
  rw [reread, hvalues, Option.bind_eq_bind, Option.bind_some, toOption_eq_some, visitSeq,
    bind_eq_ok]
  exact ⟨waits.values,
    collect_acceptVisited_eq_ok.mpr ⟨rfl, waits.bounded, waits.distinct⟩, tryNew_values waits⟩

end RunWaits

namespace RunFailure

def reread (E : Encoding) (failure : RunFailure) : Option RunFailure := do
  let record ← failure.failure.reread E
  let usage ← failure.usage.reread
  (new record failure.completedAt usage).toOption

@[simp] theorem reread_eq (hE : E.KeepsTrees) (failure : RunFailure) :
    failure.reread E = some failure := by
  have hnew : new failure.failure failure.completedAt failure.usage = .ok failure :=
    dif_neg failure.not_cancelled
  simp [reread, hE, hnew, Except.toOption]

end RunFailure

namespace RunCancellationRequest

def reread (E : Encoding) (request : RunCancellationRequest) :
    Option RunCancellationRequest := do
  let failure ← request.failure.reread E
  (new failure request.requestedAt).toOption

@[simp] theorem reread_eq (hE : E.KeepsTrees) (request : RunCancellationRequest) :
    request.reread E = some request := by
  have hnew : new request.failure request.requestedAt = .ok request := by
    rw [new, dif_pos request.is_cancelled, dif_pos request.never_retried]
  simp [reread, hE, hnew, Except.toOption]

end RunCancellationRequest

namespace RunCancellation

def reread (E : Encoding) (cancellation : RunCancellation) : Option RunCancellation := do
  let request ← cancellation.request.reread E
  let usage ← cancellation.usage.reread
  (new request cancellation.completedAt usage).toOption

@[simp] theorem reread_eq (hE : E.KeepsTrees) (cancellation : RunCancellation) :
    cancellation.reread E = some cancellation := by
  have hnew : new cancellation.request cancellation.completedAt cancellation.usage =
      .ok cancellation := dif_neg (not_lt.mpr cancellation.after_request)
  simp [reread, hE, hnew, Except.toOption]

end RunCancellation

def RunState.reread : RunState E → Option (RunState E)
  | .pending => some .pending
  | .active activatedAt => some (.active activatedAt)
  | .waiting waits changedAt => waits.reread.map (.waiting · changedAt)
  | .cancellationRequested request => (request.reread E).map .cancellationRequested
  | .succeeded result => result.reread.map .succeeded
  | .failed failure => (failure.reread E).map .failed
  | .cancelled cancellation => (cancellation.reread E).map .cancelled

theorem RunState.reread_eq_some (hE : E.KeepsTrees) {state state' : RunState E} :
    state.reread = some state' ↔
      (∀ result, state.result = some result → result.output.value.FitsLimits .default) ∧
        state' = state := by
  cases state with
  | succeeded result =>
    simp only [reread, Option.map_eq_some_iff, AgentResult.reread_eq_some hE, RunState.result,
      Option.some.injEq, forall_eq']
    constructor
    · rintro ⟨_, ⟨hfits, hresult⟩, hstate⟩
      exact ⟨hfits, by rw [← hstate, hresult]⟩
    · rintro ⟨hfits, hstate⟩
      exact ⟨result, ⟨hfits, rfl⟩, hstate.symm⟩
  | _ => simp [reread, hE, RunState.result, eq_comm]

namespace RunLifecycle

/-- `Deserialize` of what `Serialize` wrote. -/
def reread (lifecycle : RunLifecycle E) : Option (RunLifecycle E) := do
  let state ← lifecycle.state.reread
  let snapshot := { lifecycle with state := state }
  let _ ← snapshot.validateSnapshot.toOption
  return snapshot

theorem reread_eq_some (hE : E.KeepsTrees) {lifecycle : RunLifecycle E}
    (hvalid : lifecycle.validateSnapshot = .ok ()) :
    lifecycle.reread = some lifecycle ↔
      ∀ result, lifecycle.result = some result → result.output.value.FitsLimits .default := by
  rw [reread]
  simp only [Option.bind_eq_bind, Option.bind_eq_some_iff, RunState.reread_eq_some hE]
  constructor
  · intro ⟨_, ⟨hfits, _⟩, _⟩
    exact hfits
  · intro hfits
    refine ⟨lifecycle.state, ⟨hfits, rfl⟩, (), ?_, rfl⟩
    exact toOption_eq_some.mpr hvalid

end RunLifecycle

end StateKnot
