import StateKnot.NodeResult
import StateKnot.Failure
import StateKnot.Budget.Usage

/-!
# Node attempts

Running a node is recorded as an attempt: a start under the fence of the worker
and, once it ends, a completion that carries either the pending result or a
failure.  The history of a node is verified attempt by attempt: a successor must
lie after its predecessor in the journal and in time, keep the order of the
fences, and be allowed by how the predecessor ended.
-/

namespace StateKnot

open Lib

variable {E : Encoding}

/-! ## Errors -/

inductive NodeAttemptIntegrityError where
  | canonicalSerialization

inductive NodeAttemptError where
  | workerAttemptReused
  | fenceTenantMismatch
  | fenceRunMismatch
  | journalTenantMismatch
  | journalRunMismatch
  | startJournalNotAfterBase
  | startClockRegression
  | completionJournalNotAfterStart
  | completionClockRegression
  | resultActivationMismatch
  | resultFenceMismatch
  | resultJournalMismatch
  | failureEventMismatch
  | reconciliationUnsupported
  | completionStartMismatch
  | integrity (source : NodeAttemptIntegrityError)

inductive NodeAttemptHistoryError where
  | attemptIdReused (attemptId : AttemptId)
  | activationMismatch
  | journalNotAfterPrevious
  | clockRegression
  | fenceEpochRegression
  | workerChangedWithinEpoch
  | workerReusedAcrossEpoch
  | unfinishedAttemptNotSuperseded
  | previousAttemptSucceeded
  | retryNotAuthorized (advice : RetryAdvice)
  | retryDelayNotElapsed (delayMillis : Nat) (failedAt startedAt : Timestamp)

/-! ## Starts -/

def validateScope (activation : NodeActivation) (fence : RunFence) (journalHead : JournalHead) :
    Except NodeAttemptError Unit := do
  reject (fence.tenantId ≠ activation.tenantId) .fenceTenantMismatch
  reject (fence.runId ≠ activation.runId) .fenceRunMismatch
  reject (journalHead.tenantId ≠ activation.tenantId) .journalTenantMismatch
  reject (journalHead.runId ≠ activation.runId) .journalRunMismatch

def validateStartScope (activation : NodeActivation) (attemptId : AttemptId) (fence : RunFence)
    (journalHead : JournalHead) : Except NodeAttemptError Unit := do
  reject (attemptId = fence.attemptId) .workerAttemptReused
  validateScope activation fence journalHead
  let base := activation.baseCheckpoint.journalHead
  reject (journalHead.sequence ≤ base.sequence) .startJournalNotAfterBase
  reject (journalHead.recordedAt < base.recordedAt) .startClockRegression

def computeActivationDigest (E : Encoding) (activation : NodeActivation) :
    Except NodeAttemptIntegrityError Digest :=
  okOr (E.domainSeparatedDigest (domainBytes "stateknot-node-activation-v1") (activation.toJson E))
    .canonicalSerialization

def computeStartDigest (E : Encoding) (activationDigest : Digest) (attemptId : AttemptId)
    (fence : RunFence) (journalHead : JournalHead) : Except NodeAttemptIntegrityError Digest :=
  okOr (E.domainSeparatedDigest (domainBytes "stateknot-node-attempt-start-v1")
    (.obj [("activation_digest", activationDigest.toJson), ("attempt_id", attemptId.toJson),
      ("fence", fence.toJson), ("journal_head", journalHead.toJson E)]))
    .canonicalSerialization

/-- The durable start of an attempt. -/
structure NodeAttemptStart (E : Encoding) where
  activation : NodeActivation
  activationDigest : Digest
  attemptId : AttemptId
  fence : RunFence
  journalHead : JournalHead
  digest : Digest
  scope_ok : validateStartScope activation attemptId fence journalHead = .ok ()
  activationDigest_eq : computeActivationDigest E activation = .ok activationDigest
  digest_eq : computeStartDigest E activationDigest attemptId fence journalHead = .ok digest

/-- The fields of a start that its completion binds. -/
structure NodeAttemptStartHead (E : Encoding) where
  activation : NodeActivation
  attemptId : AttemptId
  fence : RunFence
  journalHead : JournalHead
  digest : Digest
  scope_ok : validateStartScope activation attemptId fence journalHead = .ok ()
  digest_eq : (do
    let activationDigest ← computeActivationDigest E activation
    computeStartDigest E activationDigest attemptId fence journalHead) = .ok digest
deriving DecidableEq

namespace NodeAttemptStart

def new (activation : NodeActivation) (attemptId : AttemptId) (fence : RunFence)
    (journalHead : JournalHead) : Except NodeAttemptError (NodeAttemptStart E) :=
  attach (validateStartScope activation attemptId fence journalHead) fun _ hscope =>
    match hactivation : computeActivationDigest E activation with
    | .error source => .error (.integrity source)
    | .ok activationDigest =>
      match hdigest : computeStartDigest E activationDigest attemptId fence journalHead with
      | .error source => .error (.integrity source)
      | .ok digest =>
        .ok ⟨activation, activationDigest, attemptId, fence, journalHead, digest, hscope,
          hactivation, hdigest⟩

theorem new_eq_ok {activation : NodeActivation} {attemptId : AttemptId} {fence : RunFence}
    {journalHead : JournalHead} {start : NodeAttemptStart E}
    (h : new activation attemptId fence journalHead = .ok start) :
    start.activation = activation ∧ start.attemptId = attemptId ∧ start.fence = fence ∧
      start.journalHead = journalHead := by
  obtain ⟨_, _, hstart⟩ := attach_eq_ok.mp h
  split at hstart
  · cases hstart
  · split at hstart
    · cases hstart
    · cases hstart
      exact ⟨rfl, rfl, rfl, rfl⟩

def head (start : NodeAttemptStart E) : NodeAttemptStartHead E where
  activation := start.activation
  attemptId := start.attemptId
  fence := start.fence
  journalHead := start.journalHead
  digest := start.digest
  scope_ok := start.scope_ok
  digest_eq := bind_eq_ok.mpr ⟨start.activationDigest, start.activationDigest_eq, start.digest_eq⟩

end NodeAttemptStart

def NodeAttemptStartHead.toJson (head : NodeAttemptStartHead E) : Json :=
  .obj [("activation", head.activation.toJson E), ("attempt_id", head.attemptId.toJson),
    ("fence", head.fence.toJson), ("journal_head", head.journalHead.toJson E),
    ("digest", head.digest.toJson)]

/-! ## Completions -/

inductive NodeAttemptStatus where
  | executing | succeeded | failed

/-- How an attempt ended. -/
inductive NodeAttemptOutcome where
  | succeeded (result : PendingNodeResultHead)
  | failed (failure : Failure)

namespace NodeAttemptOutcome

def status : NodeAttemptOutcome → NodeAttemptStatus
  | .succeeded _ => .succeeded
  | .failed _ => .failed

def result : NodeAttemptOutcome → Option PendingNodeResultHead
  | .succeeded result => some result
  | .failed _ => none

def toJson (E : Encoding) : NodeAttemptOutcome → Json
  | .succeeded result => .obj [("kind", .str "succeeded"), ("result", result.toJson E)]
  | .failed failure => .obj [("kind", .str "failed"), ("failure", failure.toJson)]

end NodeAttemptOutcome

def validateCompletionShape (start : NodeAttemptStartHead E)
    (outcome : NodeAttemptOutcome) (journalHead : JournalHead) : Except NodeAttemptError Unit := do
  validateScope start.activation start.fence journalHead
  reject (journalHead.sequence ≤ start.journalHead.sequence) .completionJournalNotAfterStart
  reject (journalHead.recordedAt < start.journalHead.recordedAt) .completionClockRegression
  match outcome with
  | .succeeded result =>
    reject (result.activation ≠ start.activation) .resultActivationMismatch
    reject (result.fence ≠ start.fence) .resultFenceMismatch
    reject (result.journalHead ≠ journalHead) .resultJournalMismatch
  | .failed failure =>
    reject (failure.retryAdvice.requiresReconciliation = true) .reconciliationUnsupported
    reject (failure.causedByEventId ≠ some journalHead.eventId) .failureEventMismatch

def computeCompletionDigest (start : NodeAttemptStartHead E)
    (outcome : NodeAttemptOutcome) (usage : BudgetUsage) (journalHead : JournalHead) :
    Except NodeAttemptIntegrityError Digest :=
  okOr (E.domainSeparatedDigest (domainBytes "stateknot-node-attempt-completion-v1")
    (.obj [("start", start.toJson), ("outcome", outcome.toJson E), ("usage", usage.toJson),
      ("journal_head", journalHead.toJson E)]))
    .canonicalSerialization

/-- The durable end of an attempt. -/
structure NodeAttemptCompletion (E : Encoding) where
  start : NodeAttemptStartHead E
  outcome : NodeAttemptOutcome
  usage : BudgetUsage
  journalHead : JournalHead
  digest : Digest
  shape_ok : validateCompletionShape start outcome journalHead = .ok ()
  digest_eq : computeCompletionDigest start outcome usage journalHead = .ok digest

namespace NodeAttemptCompletion

def materialize (start : NodeAttemptStartHead E) (outcome : NodeAttemptOutcome)
    (usage : BudgetUsage) (journalHead : JournalHead) :
    Except NodeAttemptError (NodeAttemptCompletion E) :=
  attach (validateCompletionShape start outcome journalHead) fun _ hshape =>
    match hdigest : computeCompletionDigest start outcome usage journalHead with
    | .error source => .error (.integrity source)
    | .ok digest => .ok ⟨start, outcome, usage, journalHead, digest, hshape, hdigest⟩

def succeed (start : NodeAttemptStart E) (result : PendingNodeResultHead) (usage : BudgetUsage) :
    Except NodeAttemptError (NodeAttemptCompletion E) :=
  materialize start.head (.succeeded result) usage result.journalHead

def fail (start : NodeAttemptStart E) (failure : Failure) (usage : BudgetUsage)
    (journalHead : JournalHead) : Except NodeAttemptError (NodeAttemptCompletion E) :=
  materialize start.head (.failed failure) usage journalHead

theorem materialize_eq_ok {start : NodeAttemptStartHead E} {outcome : NodeAttemptOutcome}
    {usage : BudgetUsage} {journalHead : JournalHead} {completion : NodeAttemptCompletion E}
    (h : materialize start outcome usage journalHead = .ok completion) :
    completion.start = start ∧ completion.outcome = outcome ∧
      completion.journalHead = journalHead := by
  obtain ⟨_, _, hcompletion⟩ := attach_eq_ok.mp h
  split at hcompletion
  · cases hcompletion
  · cases hcompletion
    exact ⟨rfl, rfl, rfl⟩

end NodeAttemptCompletion

/-! ## Attempts -/

/-- A start with its completion, if it has ended. -/
structure NodeAttempt (E : Encoding) where
  start : NodeAttemptStart E
  completion : Option (NodeAttemptCompletion E)
  completes_start : ∀ record, completion = some record → record.start = start.head

namespace NodeAttempt

def executing (start : NodeAttemptStart E) : NodeAttempt E := ⟨start, none, by simp⟩

def restore (start : NodeAttemptStart E) (completion : Option (NodeAttemptCompletion E)) :
    Except NodeAttemptError (NodeAttempt E) :=
  if h : ∀ record, completion = some record → record.start = start.head then
    .ok ⟨start, completion, h⟩
  else
    .error .completionStartMismatch

theorem restore_eq_ok {start : NodeAttemptStart E} {completion : Option (NodeAttemptCompletion E)}
    {attempt : NodeAttempt E} (h : restore start completion = .ok attempt) :
    attempt.start = start ∧ attempt.completion = completion := by
  unfold restore at h
  split at h
  · cases h
    exact ⟨rfl, rfl⟩
  · cases h

def status (attempt : NodeAttempt E) : NodeAttemptStatus :=
  match attempt.completion with
  | some record => record.outcome.status
  | none => .executing

/-- The result that a succeeded attempt recorded. -/
def result (attempt : NodeAttempt E) : Option PendingNodeResultHead :=
  attempt.completion.bind (·.outcome.result)

/-- The latest journal position of an attempt: its completion's, else its start's. -/
def anchor (attempt : NodeAttempt E) : JournalHead :=
  match attempt.completion with
  | some record => record.journalHead
  | none => attempt.start.journalHead

end NodeAttempt

/-! ## Histories -/

/-- The last part of `validate_history_successor`: what the end of an attempt allows. -/
def validateRetry (previous : NodeAttempt E) (nextFence : RunFence)
    (startedAt : Timestamp) : Except NodeAttemptHistoryError Unit :=
  match previous.completion with
  | none =>
    reject (nextFence.epoch ≤ previous.start.fence.epoch) .unfinishedAttemptNotSuperseded
  | some completion =>
    match completion.outcome with
    | .succeeded _ => .error .previousAttemptSucceeded
    | .failed failure =>
      match failure.retryAdvice with
      | .safeAfter delay =>
        let failedAt := completion.journalHead.recordedAt
        reject (startedAt.micros < retryEligibleMicros failedAt delay)
          (.retryDelayNotElapsed delay.millis failedAt startedAt)
      | .never => .error (.retryNotAuthorized .never)
      | .reconcileFirst => .error (.retryNotAuthorized .reconcileFirst)

def validateHistorySuccessor (previous next : NodeAttempt E) :
    Except NodeAttemptHistoryError Unit := do
  reject (next.start.activation ≠ previous.start.activation) .activationMismatch
  let previousAnchor := previous.anchor
  let nextAnchor := next.start.journalHead
  reject (nextAnchor.sequence ≤ previousAnchor.sequence) .journalNotAfterPrevious
  reject (nextAnchor.recordedAt < previousAnchor.recordedAt) .clockRegression
  let previousFence := previous.start.fence
  let nextFence := next.start.fence
  reject (nextFence.epoch < previousFence.epoch) .fenceEpochRegression
  reject (nextFence.epoch = previousFence.epoch ∧ nextFence.attemptId ≠ previousFence.attemptId)
    .workerChangedWithinEpoch
  reject (nextFence.epoch > previousFence.epoch ∧ nextFence.attemptId = previousFence.attemptId)
    .workerReusedAcrossEpoch
  validateRetry previous nextFence next.start.journalHead.recordedAt

/-- The history of one node so far: its last attempt and the identities it has used. -/
structure NodeAttemptHistoryVerifier (E : Encoding) where
  last : Option (NodeAttempt E)
  attemptIds : List AttemptId

namespace NodeAttemptHistoryVerifier

def new : NodeAttemptHistoryVerifier E := ⟨none, []⟩

def verifyNext (history : NodeAttemptHistoryVerifier E) (attempt : NodeAttempt E) :
    Except NodeAttemptHistoryError (NodeAttemptHistoryVerifier E) := do
  let attemptId := attempt.start.attemptId
  reject (attemptId ∈ history.attemptIds) (.attemptIdReused attemptId)
  (match history.last with
    | some previous => validateHistorySuccessor previous attempt
    | none => .ok ())
  return ⟨some attempt, attemptId :: history.attemptIds⟩

/-- A verifier that continues after a durable record. -/
def after (record : NodeAttempt E) : NodeAttemptHistoryVerifier E :=
  ⟨some record, [record.start.attemptId]⟩

/-- `verify_next` with its updates in place: the outcome with the state it leaves behind. -/
def verifyNextInPlace (history : NodeAttemptHistoryVerifier E) (attempt : NodeAttempt E) :
    Except NodeAttemptHistoryError Unit × NodeAttemptHistoryVerifier E :=
  let attemptId := attempt.start.attemptId
  if attemptId ∈ history.attemptIds then (.error (.attemptIdReused attemptId), history)
  else
    match history.last.elim (.ok ()) (validateHistorySuccessor · attempt) with
    | .error error => (.error error, history)
    | .ok () =>
      let history := { history with attemptIds := attemptId :: history.attemptIds }
      let history := { history with last := some attempt }
      (.ok (), history)

end NodeAttemptHistoryVerifier

/-! ## What the checks say -/

/-- How a later fence relates to an earlier one of the same run: epochs do not go back, and
the worker changes exactly when the epoch does. -/
structure RunFence.Follows (current historical : RunFence) : Prop where
  epoch_le : historical.epoch ≤ current.epoch
  worker_eq_iff : historical.attemptId = current.attemptId ↔ historical.epoch = current.epoch

theorem RunFence.follows_iff {current historical : RunFence} :
    current.Follows historical ↔ ¬ current.epoch < historical.epoch ∧
      ¬ (current.epoch = historical.epoch ∧ current.attemptId ≠ historical.attemptId) ∧
      ¬ (current.epoch > historical.epoch ∧ current.attemptId = historical.attemptId) := by
  constructor
  · rintro ⟨hle, hworker⟩
    refine ⟨not_lt.mpr hle, fun ⟨hepoch, hne⟩ => hne (hworker.mpr hepoch.symm).symm, ?_⟩
    rintro ⟨hlt, heq⟩
    exact hlt.ne (hworker.mp heq.symm)
  · rintro ⟨hle, hchanged, hreused⟩
    refine ⟨not_lt.mp hle, fun hworker => ?_, fun hepoch => ?_⟩
    · by_contra hne
      exact hreused ⟨lt_of_le_of_ne (not_lt.mp hle) hne, hworker.symm⟩
    · by_contra hne
      exact hchanged ⟨hepoch.symm, fun heq => hne heq.symm⟩

namespace NodeAttempt

/-- How the attempt ended, or did not, lets a worker under `fence` start again at `instant`. -/
def Permits (attempt : NodeAttempt E) (fence : RunFence) (instant : Timestamp) : Prop :=
  match attempt.completion with
  | none => attempt.start.fence.epoch < fence.epoch
  | some completion =>
    match completion.outcome with
    | .succeeded _ => False
    | .failed failure =>
      match failure.retryAdvice with
      | .safeAfter delay =>
        retryEligibleMicros completion.journalHead.recordedAt delay ≤ instant.micros
      | .never => False
      | .reconcileFirst => False

/-- A recorded result has the activation, the fence and the last position of its attempt. -/
theorem of_result {attempt : NodeAttempt E} {result : PendingNodeResultHead}
    (h : attempt.result = some result) :
    result.activation = attempt.start.activation ∧ result.fence = attempt.start.fence ∧
      result.journalHead = attempt.anchor := by
  rw [NodeAttempt.result, Option.bind_eq_some_iff] at h
  obtain ⟨completion, hcompletion, hresult⟩ := h
  have hshape := completion.shape_ok
  have hstart := attempt.completes_start completion hcompletion
  cases houtcome : completion.outcome with
  | failed failure =>
    rw [houtcome] at hresult
    cases hresult
  | succeeded recorded =>
    rw [houtcome] at hresult
    cases hresult
    simp only [validateCompletionShape, houtcome, bind_eq_ok, reject_eq_ok, exists_const, ne_eq,
      not_not] at hshape
    obtain ⟨_, _, _, _, hactivation, hfence, hjournal⟩ := hshape
    rw [hactivation, hfence, hjournal, hstart, anchor, hcompletion]
    exact ⟨rfl, rfl, rfl⟩

/-- `next` may come right after `previous` in a history. -/
structure Precedes (previous next : NodeAttempt E) : Prop where
  activation_eq : next.start.activation = previous.start.activation
  sequence_lt : previous.anchor.sequence < next.start.journalHead.sequence
  recordedAt_le : previous.anchor.recordedAt ≤ next.start.journalHead.recordedAt
  fence_follows : next.start.fence.Follows previous.start.fence
  permitted : previous.Permits next.start.fence next.start.journalHead.recordedAt

end NodeAttempt

theorem validateRetry_eq_ok {previous : NodeAttempt E} {nextFence : RunFence}
    {startedAt : Timestamp} {u : Unit} :
    validateRetry previous nextFence startedAt = .ok u ↔ previous.Permits nextFence startedAt := by
  unfold validateRetry NodeAttempt.Permits
  cases previous.completion with
  | none => simp only [reject_eq_ok, not_le]
  | some completion =>
    dsimp only
    cases completion.outcome with
    | succeeded result => simp only [reduceCtorEq]
    | failed failure =>
      dsimp only
      cases failure.retryAdvice with
      | never => simp only [reduceCtorEq]
      | reconcileFirst => simp only [reduceCtorEq]
      | safeAfter delay => simp only [reject_eq_ok, not_lt]

theorem validateHistorySuccessor_eq_ok {previous next : NodeAttempt E} {u : Unit} :
    validateHistorySuccessor previous next = .ok u ↔ previous.Precedes next := by
  simp only [validateHistorySuccessor, bind_eq_ok, reject_eq_ok, exists_const,
    validateRetry_eq_ok, not_not, not_le]
  constructor
  · rintro ⟨hactivation, hsequence, hclock, hepoch, hchanged, hreused, hpermitted⟩
    exact ⟨hactivation, hsequence, not_lt.mp hclock,
      RunFence.follows_iff.mpr ⟨hepoch, hchanged, hreused⟩, hpermitted⟩
  · rintro ⟨hactivation, hsequence, hclock, hfence, hpermitted⟩
    obtain ⟨hepoch, hchanged, hreused⟩ := RunFence.follows_iff.mp hfence
    exact ⟨hactivation, hsequence, not_lt.mpr hclock, hepoch, hchanged, hreused, hpermitted⟩

theorem NodeAttemptHistoryVerifier.verifyNext_eq_ok
    {history next : NodeAttemptHistoryVerifier E} {attempt : NodeAttempt E} :
    history.verifyNext attempt = .ok next ↔
      attempt.start.attemptId ∉ history.attemptIds ∧
      (∀ previous, history.last = some previous → previous.Precedes attempt) ∧
      next = ⟨some attempt, attempt.start.attemptId :: history.attemptIds⟩ := by
  simp only [verifyNext, bind_eq_ok, reject_eq_ok, exists_const]
  cases hlast : history.last with
  | none =>
    simp only [reduceCtorEq, false_implies, implies_true, true_and, pure_eq_ok, exists_const, eq_comm (b := next)]
  | some previous =>
    simp only [validateHistorySuccessor_eq_ok, Option.some.injEq, forall_eq', exists_const, pure_eq_ok, eq_comm (b := next)]

end StateKnot
