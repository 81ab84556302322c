import StateKnot.NodeResult
import StateKnot.Tool.Descriptor
import StateKnot.Tool.Outcome

/-!
# Tool invocations

A tool call is one durable invocation: an intent that pins what is called with which
arguments, and a chain of records.  Every record after the first is the effect of
one transition on its predecessor: an attempt starts, its result or error is
recorded, or an outcome that stayed unknown is reconciled.
-/

namespace StateKnot

open Lib

variable {E : Encoding}

/-! ## Errors -/

inductive ToolInvocationIntegrityError where
  | canonicalSerialization

inductive ToolInvocationLimit where
  | timeout | maxConcurrency | maxInputBytes | maxInlineResultBytes | maxArtifacts
  | maxTotalArtifactBytes

inductive ToolInvocationIntentError where
  | inputSchemaMismatch
  | effectiveLimitWidened (limit : ToolInvocationLimit)
  | inputLimitExceeded (maximum actual : Count)
  | integrity (source : ToolInvocationIntegrityError)

inductive ToolInvocationStatus where
  | prepared | executing | committed | failed | unknown
deriving DecidableEq

inductive ToolInvocationTransitionKind where
  | startAttempt | recordResult | recordError | reconcileResult | reconcileError

inductive ToolArtifactBinding where
  | tenant | run | principal | capability

abbrev ToolInvocationRevision := Ordinal 0

def ToolInvocationRevision.initial : ToolInvocationRevision := (.ofNat 0)

inductive ToolInvocationError where
  | integrity (source : ToolInvocationIntegrityError)
  | journalTenantMismatch
  | journalRunMismatch
  | journalDidNotAdvance (previous actual : JournalSequence)
  | clockRegression (previous actual : Timestamp)
  | revisionOverflow
  | invalidTransition (status : ToolInvocationStatus) (transition : ToolInvocationTransitionKind)
  | reusedAttemptId
  | retryNotAuthorized
  | retryDelayOutOfRange
  | retryDelayNotElapsed (notBefore actual : Timestamp)
  | retryUnsafe
  | resultInvocationMismatch
  | resultAttemptMismatch
  | resultToolMismatch
  | resultSchemaMismatch
  | resultInlineLimitExceeded (maximum actual : Count)
  | resultArtifactCountExceeded (maximum actual : Count)
  | resultArtifactBytesExceeded (maximum actual : Count)
  | resultArtifactBinding (index : Nat) (binding : ToolArtifactBinding)
  | errorInvocationMismatch
  | errorAttemptMismatch
  | errorToolMismatch
  | errorEffectRiskMismatch (risk : ToolRisk) (effect : ToolExternalEffect)
  | unsafeRetryAfterAppliedNonIdempotentWrite
  | failedStateHasUnknownEffect
  | unknownStateRequiresUnknownEffect

inductive ToolInvocationHeadError where
  | journalTenantMismatch
  | journalRunMismatch
  | preparedHasAttempt
  | attemptMissing
  | initialStatusMismatch
  | preparedRevisionMismatch

/-! ## Intents -/

/-- Which effective limits lie above the descriptor's, in the order they are checked. -/
def widenedLimits (descriptor effective : ToolExecutionLimits) :
    List (Bool × ToolInvocationLimit) :=
  [(effective.timeout.millis > descriptor.timeout.millis, .timeout),
    (effective.maxConcurrency > descriptor.maxConcurrency, .maxConcurrency),
    (effective.maxInputBytes > descriptor.maxInputBytes, .maxInputBytes),
    (effective.maxInlineResultBytes > descriptor.maxInlineResultBytes, .maxInlineResultBytes),
    (effective.maxArtifacts > descriptor.maxArtifacts, .maxArtifacts),
    (effective.maxTotalArtifactBytes > descriptor.maxTotalArtifactBytes, .maxTotalArtifactBytes)]

def validateIntentShape (descriptor : ToolDescriptor) (input : ToolInput)
    (effective : ToolExecutionLimits) : Except ToolInvocationIntentError Unit := do
  reject (input.schema ≠ descriptor.inputSchema) .inputSchemaMismatch
  forM (widenedLimits descriptor.limits effective) fun check =>
    reject check.1 (.effectiveLimitWidened check.2)
  let actual := Count.ofUsize input.value.stats.compactBytes
  reject (actual > effective.maxInputBytes) (.inputLimitExceeded effective.maxInputBytes actual)

/-- The members of an intent that its digest covers. -/
def intentDigestMembers (E : Encoding) (activation : NodeActivation) (invocationId : InvocationId)
    (descriptor : ToolDescriptor) (input : ToolInput) (effectiveLimits : ToolExecutionLimits) :
    List (String × Json) :=
  [("activation", activation.toJson E), ("invocation_id", invocationId.toJson),
    ("descriptor", descriptor.toJson E), ("input", input.toJson),
    ("effective_limits", effectiveLimits.toJson)]

def ToolInvocation.computeIntentDigest (E : Encoding) (activation : NodeActivation) (invocationId : InvocationId)
    (descriptor : ToolDescriptor) (input : ToolInput) (effectiveLimits : ToolExecutionLimits) :
    Except ToolInvocationIntegrityError Digest :=
  okOr (E.domainSeparatedDigest (domainBytes "stateknot-tool-invocation-intent-v1")
    (.obj (intentDigestMembers E activation invocationId descriptor input effectiveLimits)))
    .canonicalSerialization

/-- What is called, with which arguments, under which limits. -/
structure ToolInvocationIntent (E : Encoding) where
  activation : NodeActivation
  invocationId : InvocationId
  descriptor : ToolDescriptor
  input : ToolInput
  effectiveLimits : ToolExecutionLimits
  intentDigest : Digest
  shape_ok : validateIntentShape descriptor input effectiveLimits = .ok ()
  digest_eq : ToolInvocation.computeIntentDigest E activation invocationId descriptor input effectiveLimits =
    .ok intentDigest
deriving DecidableEq

namespace ToolInvocationIntent

def new (activation : NodeActivation) (invocationId : InvocationId) (descriptor : ToolDescriptor)
    (input : ToolInput) (effectiveLimits : ToolExecutionLimits) :
    Except ToolInvocationIntentError (ToolInvocationIntent E) :=
  attach (validateIntentShape descriptor input effectiveLimits) fun _ hshape =>
    match hdigest : ToolInvocation.computeIntentDigest E activation invocationId descriptor input
        effectiveLimits with
    | .error source => .error (.integrity source)
    | .ok intentDigest =>
      .ok ⟨activation, invocationId, descriptor, input, effectiveLimits, intentDigest, hshape,
        hdigest⟩

def tenantId (intent : ToolInvocationIntent E) : TenantId := intent.activation.tenantId

def runId (intent : ToolInvocationIntent E) : RunId := intent.activation.runId

def risk (intent : ToolInvocationIntent E) : ToolRisk := intent.descriptor.semantics.risk

def toJson (intent : ToolInvocationIntent E) : Json :=
  .obj (intentDigestMembers E intent.activation intent.invocationId intent.descriptor intent.input
    intent.effectiveLimits ++ [("intent_digest", intent.intentDigest.toJson)])

end ToolInvocationIntent

/-! ## States and transitions -/

def ToolInvocationStatus.text : ToolInvocationStatus → String
  | .prepared => "prepared"
  | .executing => "executing"
  | .committed => "committed"
  | .failed => "failed"
  | .unknown => "unknown"

inductive ToolInvocationState (E : Encoding) where
  | prepared
  | executing (attemptId : AttemptId)
  | committed (result : ToolResult E)
  | failed (error : ToolError)
  | unknown (error : ToolError)

namespace ToolInvocationState

def status : ToolInvocationState E → ToolInvocationStatus
  | .prepared => .prepared
  | .executing _ => .executing
  | .committed _ => .committed
  | .failed _ => .failed
  | .unknown _ => .unknown

def attemptId : ToolInvocationState E → Option AttemptId
  | .prepared => none
  | .executing attemptId => some attemptId
  | .committed result => some result.provenance.attemptId
  | .failed error => some error.provenance.attemptId
  | .unknown error => some error.provenance.attemptId

/-- The fields of a state next to its tag. -/
def payload : ToolInvocationState E → List (String × Json)
  | .prepared => []
  | .executing attemptId => [("attempt_id", attemptId.toJson)]
  | .committed result => [("result", result.toJson)]
  | .failed error => [("error", error.toJson)]
  | .unknown error => [("error", error.toJson)]

def toJson (state : ToolInvocationState E) : Json :=
  .obj (("status", .str state.status.text) :: state.payload)

end ToolInvocationState

inductive ToolInvocationTransition (E : Encoding) where
  | startAttempt (attemptId : AttemptId)
  | recordResult (result : ToolResult E)
  | recordError (error : ToolError)
  | reconcileResult (result : ToolResult E)
  | reconcileError (error : ToolError)

namespace ToolInvocationTransition

def kind : ToolInvocationTransition E → ToolInvocationTransitionKind
  | .startAttempt _ => .startAttempt
  | .recordResult _ => .recordResult
  | .recordError _ => .recordError
  | .reconcileResult _ => .reconcileResult
  | .reconcileError _ => .reconcileError

def toJson : ToolInvocationTransition E → Json
  | .startAttempt attemptId =>
    .obj [("kind", .str "start_attempt"), ("attempt_id", attemptId.toJson)]
  | .recordResult result => .obj [("kind", .str "record_result"), ("result", result.toJson)]
  | .recordError error => .obj [("kind", .str "record_error"), ("error", error.toJson)]
  | .reconcileResult result =>
    .obj [("kind", .str "reconcile_result"), ("result", result.toJson)]
  | .reconcileError error => .obj [("kind", .str "reconcile_error"), ("error", error.toJson)]

end ToolInvocationTransition

/-! ## Journal checks -/

inductive InvocationScopeError where
  | tenant | run

def validateJournalScope (tenantId : TenantId) (runId : RunId) (head : JournalHead) :
    Except InvocationScopeError Unit := do
  reject (head.tenantId ≠ tenantId) .tenant
  reject (head.runId ≠ runId) .run

def mapScopeError : InvocationScopeError → ToolInvocationError
  | .tenant => .journalTenantMismatch
  | .run => .journalRunMismatch

def ToolInvocationHeadError.fromScope : InvocationScopeError → ToolInvocationHeadError
  | .tenant => .journalTenantMismatch
  | .run => .journalRunMismatch

def validateJournalAdvances (previous actual : JournalHead) : Except ToolInvocationError Unit := do
  reject (actual.sequence ≤ previous.sequence)
    (.journalDidNotAdvance previous.sequence actual.sequence)
  reject (actual.recordedAt < previous.recordedAt)
    (.clockRegression previous.recordedAt actual.recordedAt)

/-- The journal checks of a record: its scope, and that it lies after `previous`.  With the
base checkpoint as `previous` this is `validate_preparation_journal`, with the predecessor's
position it is `validate_successor_journal`. -/
def validateJournal (intent : ToolInvocationIntent E)
    (previous journalHead : JournalHead) : Except ToolInvocationError Unit := do
  (validateJournalScope intent.tenantId intent.runId journalHead).mapError mapScopeError
  validateJournalAdvances previous journalHead

def validatePreparationJournal (intent : ToolInvocationIntent E)
    (journalHead : JournalHead) : Except ToolInvocationError Unit :=
  validateJournal intent intent.activation.baseCheckpoint.journalHead journalHead

/-! ## Binding of outcomes -/

/-- What is wrong with the origin of an artifact, if anything. -/
def artifactBinding (intent : ToolInvocationIntent E) (artifact : ArtifactRef E) :
    Option ToolArtifactBinding :=
  if artifact.identity.tenantId ≠ intent.tenantId then some .tenant
  else if artifact.provenance.runId ≠ intent.runId then some .run
  else if artifact.provenance.principal ≠ intent.descriptor.metadata.identity.owner then
    some .principal
  else if artifact.provenance.capability ≠
      some intent.descriptor.metadata.identity.capability then some .capability
  else none

def validateArtifactBinding (intent : ToolInvocationIntent E)
    (artifact : ArtifactRef E × Nat) : Except ToolInvocationError Unit :=
  match artifactBinding intent artifact.1 with
  | some binding => .error (.resultArtifactBinding artifact.2 binding)
  | none => .ok ()

def validateResultBinding (intent : ToolInvocationIntent E)
    (expectedAttempt : AttemptId) (result : ToolResult E) : Except ToolInvocationError Unit := do
  let provenance := result.provenance
  reject (provenance.invocationId ≠ intent.invocationId) .resultInvocationMismatch
  reject (provenance.attemptId ≠ expectedAttempt) .resultAttemptMismatch
  reject (provenance.tool ≠ intent.descriptor.metadata.identity) .resultToolMismatch
  reject (result.outputSchema ≠ intent.descriptor.outputSchema) .resultSchemaMismatch
  let limits := intent.effectiveLimits
  let outputBytes := Count.ofUsize result.output.stats.compactBytes
  reject (outputBytes > limits.maxInlineResultBytes)
    (.resultInlineLimitExceeded limits.maxInlineResultBytes outputBytes)
  let artifactCount := Count.ofUsize result.artifacts.values.length
  reject (artifactCount > limits.maxArtifacts)
    (.resultArtifactCountExceeded limits.maxArtifacts artifactCount)
  let artifactBytes := result.artifacts.totalBytes
  reject (artifactBytes > limits.maxTotalArtifactBytes)
    (.resultArtifactBytesExceeded limits.maxTotalArtifactBytes artifactBytes)
  forM result.artifacts.values.zipIdx (validateArtifactBinding intent)

/-- The effects that an error of a tool of a risk can report. -/
def effectRiskValid : ToolRisk → ToolExternalEffect → Bool
  | .readOnly, effect => effect = .notApplicable
  | .idempotentWrite, effect => effect ≠ .notApplicable
  | .nonIdempotentWrite, effect => effect ≠ .notApplicable

def RetryAdvice.safeAfterDelay : RetryAdvice → Option DurationMillis
  | .never => none
  | .safeAfter delay => some delay
  | .reconcileFirst => none

def validateErrorBinding (intent : ToolInvocationIntent E)
    (expectedAttempt : AttemptId) (error : ToolError) : Except ToolInvocationError Unit := do
  let provenance := error.provenance
  reject (provenance.invocationId ≠ intent.invocationId) .errorInvocationMismatch
  reject (provenance.attemptId ≠ expectedAttempt) .errorAttemptMismatch
  reject (provenance.tool ≠ intent.descriptor.metadata.identity) .errorToolMismatch
  let effect := error.externalEffect
  reject (!effectRiskValid intent.risk effect) (.errorEffectRiskMismatch intent.risk effect)
  reject (intent.risk = .nonIdempotentWrite ∧ effect = .applied ∧
    error.failure.retryAdvice.safeAfterDelay.isSome) .unsafeRetryAfterAppliedNonIdempotentWrite

def validateStateBinding (intent : ToolInvocationIntent E) :
    ToolInvocationState E → Except ToolInvocationError Unit
  | .prepared => .ok ()
  | .executing _ => .ok ()
  | .committed result => validateResultBinding intent result.provenance.attemptId result
  | .failed error => do
    validateErrorBinding intent error.provenance.attemptId error
    reject (error.externalEffect = .unknown) .failedStateHasUnknownEffect
  | .unknown error => do
    validateErrorBinding intent error.provenance.attemptId error
    reject (error.externalEffect ≠ .unknown) .unknownStateRequiresUnknownEffect

/-! ## Heads -/

def validateStatusAttempt :
    ToolInvocationStatus → Option AttemptId → Except ToolInvocationHeadError Unit
  | .prepared, none => .ok ()
  | .prepared, some _ => .error .preparedHasAttempt
  | _, some _ => .ok ()
  | _, none => .error .attemptMissing

def validateRevisionStatus (revision : ToolInvocationRevision) (status : ToolInvocationStatus) :
    Except ToolInvocationHeadError Unit := do
  reject (revision = .initial ∧ status ≠ .prepared) .initialStatusMismatch
  reject (revision ≠ .initial ∧ status = .prepared) .preparedRevisionMismatch

/-- The checks of `ToolInvocationHead::new`. -/
def validateHead (tenantId : TenantId) (runId : RunId) (revision : ToolInvocationRevision)
    (status : ToolInvocationStatus) (attemptId : Option AttemptId) (journalHead : JournalHead) :
    Except ToolInvocationHeadError Unit := do
  (validateJournalScope tenantId runId journalHead).mapError .fromScope
  validateStatusAttempt status attemptId
  validateRevisionStatus revision status

/-- A record reduced to what its successor binds. -/
structure ToolInvocationHead where
  tenantId : TenantId
  runId : RunId
  invocationId : InvocationId
  revision : ToolInvocationRevision
  status : ToolInvocationStatus
  attemptId : Option AttemptId
  journalHead : JournalHead
  digest : Digest
  head_ok : validateHead tenantId runId revision status attemptId journalHead = .ok ()
deriving DecidableEq

def ToolInvocationHead.toJson (E : Encoding) (head : ToolInvocationHead) : Json :=
  .obj ([("tenant_id", head.tenantId.toJson), ("run_id", head.runId.toJson),
    ("invocation_id", head.invocationId.toJson), ("revision", head.revision.toJson),
    ("status", .str head.status.text)] ++
    Json.optionalMember "attempt_id" Ident.toJson head.attemptId ++
    [("journal_head", head.journalHead.toJson E), ("digest", head.digest.toJson)])

/-! ## Digests -/

def computeTransitionDigest (transition : ToolInvocationTransition E) :
    Except ToolInvocationIntegrityError Digest :=
  okOr (E.domainSeparatedDigest (domainBytes "stateknot-tool-invocation-transition-v1")
    transition.toJson) .canonicalSerialization

def computeRecordDigest (intentDigest : Digest) (revision : ToolInvocationRevision)
    (state : ToolInvocationState E) (previous : Option ToolInvocationHead)
    (journalHead : JournalHead) (transitionDigest : Option Digest) :
    Except ToolInvocationIntegrityError Digest :=
  okOr (E.domainSeparatedDigest (domainBytes "stateknot-tool-invocation-record-v1")
    (.obj ([("intent_digest", intentDigest.toJson), ("revision", revision.toJson),
      ("state", state.toJson)] ++
      Json.optionalMember "previous" (ToolInvocationHead.toJson E) previous ++
      [("journal_head", journalHead.toJson E)] ++
      Json.optionalMember "transition_digest" Digest.toJson transitionDigest)))
    .canonicalSerialization

/-- Equality of canonical bytes. -/
def canonicalEqual (E : Encoding) (left right : Json) :
    Except ToolInvocationIntegrityError Bool := do
  let leftBytes ← okOr (E.toVec left) .canonicalSerialization
  let rightBytes ← okOr (E.toVec right) .canonicalSerialization
  return leftBytes = rightBytes

/-! ## Records -/

/-- One record of an invocation. -/
structure ToolInvocation (E : Encoding) where
  intent : ToolInvocationIntent E
  revision : ToolInvocationRevision
  state : ToolInvocationState E
  previous : Option ToolInvocationHead
  journalHead : JournalHead
  transition : Option (ToolInvocationTransition E)
  transitionDigest : Option Digest
  digest : Digest
  scope_ok : validateJournalScope intent.tenantId intent.runId journalHead = .ok ()
  state_ok : validateStateBinding intent state = .ok ()
  revision_ok : validateRevisionStatus revision state.status = .ok ()
  initial_ok : revision = .initial → previous = none ∧ transition = none ∧ transitionDigest = none
  digest_eq : computeRecordDigest intent.intentDigest revision state previous journalHead
    transitionDigest = .ok digest

variable {u : Unit} {expectedAttempt : AttemptId} {error : ToolError}

theorem validateStatusAttempt_attemptId (state : ToolInvocationState E) :
    validateStatusAttempt state.status state.attemptId = .ok () := by
  cases state <;> rfl

namespace ToolInvocation

def status (record : ToolInvocation E) : ToolInvocationStatus := record.state.status

def attemptId (record : ToolInvocation E) : Option AttemptId := record.state.attemptId

def head (record : ToolInvocation E) : ToolInvocationHead where
  tenantId := record.intent.tenantId
  runId := record.intent.runId
  invocationId := record.intent.invocationId
  revision := record.revision
  status := record.status
  attemptId := record.attemptId
  journalHead := record.journalHead
  digest := record.digest
  head_ok := by
    simp only [validateHead, bind_eq_ok, mapError_eq_ok]
    exact ⟨(), record.scope_ok, (), validateStatusAttempt_attemptId record.state,
      record.revision_ok⟩

def members (record : ToolInvocation E) : List (String × Json) :=
  [("intent", record.intent.toJson), ("revision", record.revision.toJson),
    ("state", record.state.toJson)] ++
    Json.optionalMember "previous" (ToolInvocationHead.toJson E) record.previous ++
    [("journal_head", record.journalHead.toJson E)] ++
    Json.optionalMember "transition" ToolInvocationTransition.toJson record.transition ++
    Json.optionalMember "transition_digest" Digest.toJson record.transitionDigest ++
    [("digest", record.digest.toJson)]

def toJson (record : ToolInvocation E) : Json := .obj record.members

end ToolInvocation

/-! ## Transitions on records -/

/-- The risks and effects after which trying again does no harm. -/
def retryIsSafe : ToolRisk → ToolExternalEffect → Bool
  | .readOnly, effect => effect = .notApplicable
  | .idempotentWrite, effect => effect = .notStarted || effect = .notApplied || effect = .applied
  | .nonIdempotentWrite, effect => effect = .notStarted || effect = .notApplied

def ToolInvocation.validateRetry (invocation : ToolInvocation E) (error : ToolError)
    (recordedAt : Timestamp) : Except ToolInvocationError Unit := do
  let delay ← okOr error.failure.retryAdvice.safeAfterDelay .retryNotAuthorized
  reject (!retryIsSafe invocation.intent.risk error.externalEffect) .retryUnsafe
  -- the source adds in 128 bits, which hold every value here
  let notBeforeMicros := invocation.journalHead.recordedAt.micros + delay.millis * 1000
  let notBefore ← okOr (Timestamp.fromUnixMicros? notBeforeMicros) .retryDelayOutOfRange
  reject (recordedAt < notBefore) (.retryDelayNotElapsed notBefore recordedAt)

def stateFromError (error : ToolError) : ToolInvocationState E :=
  if error.externalEffect = .unknown then .unknown error else .failed error

def applyTransition (invocation : ToolInvocation E)
    (transition : ToolInvocationTransition E) (recordedAt : Timestamp) :
    Except ToolInvocationError (ToolInvocationState E) :=
  match invocation.state, transition with
  | .prepared, .startAttempt attemptId => .ok (.executing attemptId)
  | .failed error, .startAttempt attemptId => do
    reject (error.provenance.attemptId = attemptId) .reusedAttemptId
    invocation.validateRetry error recordedAt
    return .executing attemptId
  | .executing attemptId, .recordResult result => do
    validateResultBinding invocation.intent attemptId result
    return .committed result
  | .executing attemptId, .recordError error => do
    validateErrorBinding invocation.intent attemptId error
    return stateFromError error
  | .unknown previous, .reconcileResult result => do
    validateResultBinding invocation.intent previous.provenance.attemptId result
    return .committed result
  | .unknown previous, .reconcileError error => do
    validateErrorBinding invocation.intent previous.provenance.attemptId error
    return stateFromError error
  | _, _ => .error (.invalidTransition invocation.status transition.kind)

/-! ## What the checks say -/

variable {intent : ToolInvocationIntent E}

theorem validateJournal_eq_ok {previous journalHead : JournalHead} :
    validateJournal intent previous journalHead = .ok u ↔
      validateJournalScope intent.tenantId intent.runId journalHead = .ok () ∧
      previous.sequence < journalHead.sequence ∧ previous.recordedAt ≤ journalHead.recordedAt := by
  simp only [validateJournal, validateJournalAdvances, bind_eq_ok, reject_eq_ok, exists_const,
    mapError_eq_ok, not_le, not_lt]
  constructor
  · rintro ⟨_, hscope, hadvances⟩
    exact ⟨hscope, hadvances⟩
  · rintro ⟨hscope, hadvances⟩
    exact ⟨(), hscope, hadvances⟩

theorem validateRevisionStatus_eq_ok {revision : ToolInvocationRevision}
    {status : ToolInvocationStatus} :
    validateRevisionStatus revision status = .ok u ↔
      (revision = .initial ↔ status = .prepared) := by
  simp only [validateRevisionStatus, bind_eq_ok, reject_eq_ok, exists_const]
  tauto

theorem ToolInvocationRevision.checkedNext_ne_initial {revision next : ToolInvocationRevision}
    (h : revision.checkedNext = some next) : next ≠ .initial := by
  intro hinitial
  have hvalue := Ordinal.checkedNext_eq_some.mp h
  rw [hinitial] at hvalue
  exact Nat.succ_ne_zero _ hvalue.symm

theorem RetryAdvice.safeAfterDelay_eq_some {advice : RetryAdvice} {delay : DurationMillis} :
    advice.safeAfterDelay = some delay ↔ advice = .safeAfter delay := by
  cases advice <;> simp [safeAfterDelay]

theorem validateResultBinding_attemptId {result : ToolResult E}
    (h : validateResultBinding intent expectedAttempt result = .ok u) :
    result.provenance.attemptId = expectedAttempt := by
  simp only [validateResultBinding, bind_eq_ok, reject_eq_ok, exists_const, not_not] at h
  exact h.2.1

theorem validateErrorBinding_attemptId
    (h : validateErrorBinding intent expectedAttempt error = .ok u) :
    error.provenance.attemptId = expectedAttempt := by
  simp only [validateErrorBinding, bind_eq_ok, reject_eq_ok, exists_const, not_not] at h
  exact h.2.1

/-- A retry is allowed when the error says it is safe after a delay, the effect it reports
does no harm when repeated, and the delay has passed. -/
theorem ToolInvocation.validateRetry_eq_ok {invocation : ToolInvocation E} {recordedAt : Timestamp} :
    invocation.validateRetry error recordedAt = .ok u ↔
      ∃ delay, error.failure.retryAdvice = .safeAfter delay ∧
        retryIsSafe invocation.intent.risk error.externalEffect ∧
        invocation.journalHead.recordedAt.micros + delay.millis * 1000 ≤ recordedAt.micros := by
  simp only [validateRetry, bind_eq_ok, okOr_eq_ok, reject_eq_ok, exists_const,
    RetryAdvice.safeAfterDelay_eq_some, Bool.not_eq_true, Bool.not_eq_false',
    Timestamp.fromUnixMicros?_eq_some, Timestamp.lt_iff, not_lt]
  constructor
  · rintro ⟨delay, hadvice, hsafe, notBefore, hmicros, helapsed⟩
    exact ⟨delay, hadvice, hsafe, by omega⟩
  · rintro ⟨delay, hadvice, hsafe, helapsed⟩
    have hlower := invocation.journalHead.recordedAt.lower
    have hupper := recordedAt.upper
    exact ⟨delay, hadvice, hsafe,
      ⟨invocation.journalHead.recordedAt.micros + delay.millis * 1000, by omega, by omega⟩,
      rfl, helapsed⟩

/-- The moves of an invocation: what a transition at an instant makes of a record's state. -/
inductive ToolInvocation.Applies {E : Encoding} (invocation : ToolInvocation E)
    (recordedAt : Timestamp) : ToolInvocationTransition E → ToolInvocationState E → Prop
  | start {attemptId : AttemptId} (hstate : invocation.state = .prepared) :
    Applies invocation recordedAt (.startAttempt attemptId) (.executing attemptId)
  | retry {error : ToolError} {attemptId : AttemptId} (hstate : invocation.state = .failed error)
    (hfresh : error.provenance.attemptId ≠ attemptId)
    (hretry : invocation.validateRetry error recordedAt = .ok ()) :
    Applies invocation recordedAt (.startAttempt attemptId) (.executing attemptId)
  | recordResult {attemptId : AttemptId} {result : ToolResult E}
    (hstate : invocation.state = .executing attemptId)
    (hbinding : validateResultBinding invocation.intent attemptId result = .ok ()) :
    Applies invocation recordedAt (.recordResult result) (.committed result)
  | recordError {attemptId : AttemptId} {error : ToolError}
    (hstate : invocation.state = .executing attemptId)
    (hbinding : validateErrorBinding invocation.intent attemptId error = .ok ()) :
    Applies invocation recordedAt (.recordError error) (stateFromError error)
  | reconcileResult {previous : ToolError} {result : ToolResult E}
    (hstate : invocation.state = .unknown previous)
    (hbinding : validateResultBinding invocation.intent previous.provenance.attemptId result =
      .ok ()) :
    Applies invocation recordedAt (.reconcileResult result) (.committed result)
  | reconcileError {previous error : ToolError} (hstate : invocation.state = .unknown previous)
    (hbinding : validateErrorBinding invocation.intent previous.provenance.attemptId error =
      .ok ()) :
    Applies invocation recordedAt (.reconcileError error) (stateFromError error)

theorem applies_of_applyTransition {invocation : ToolInvocation E}
    {transition : ToolInvocationTransition E} {recordedAt : Timestamp}
    {state : ToolInvocationState E}
    (h : applyTransition invocation transition recordedAt = .ok state) :
    invocation.Applies recordedAt transition state := by
  unfold applyTransition at h
  split at h
  next attemptId hstate =>
    cases h
    exact .start hstate
  next error attemptId hstate =>
    simp only [bind_eq_ok, reject_eq_ok, exists_const] at h
    obtain ⟨hfresh, _, hretry, hreturn⟩ := h
    cases hreturn
    exact .retry hstate hfresh hretry
  next attemptId result hstate =>
    obtain ⟨_, hbinding, hreturn⟩ := bind_eq_ok.mp h
    cases hreturn
    exact .recordResult hstate hbinding
  next attemptId error hstate =>
    obtain ⟨_, hbinding, hreturn⟩ := bind_eq_ok.mp h
    cases hreturn
    exact .recordError hstate hbinding
  next previous result hstate =>
    obtain ⟨_, hbinding, hreturn⟩ := bind_eq_ok.mp h
    cases hreturn
    exact .reconcileResult hstate hbinding
  next previous error hstate =>
    obtain ⟨_, hbinding, hreturn⟩ := bind_eq_ok.mp h
    cases hreturn
    exact .reconcileError hstate hbinding
  next => cases h

/-- An error bound to its own attempt is bound as the state it leads to. -/
theorem validateStateBinding_stateFromError
    (h : validateErrorBinding intent expectedAttempt error = .ok ()) :
    validateStateBinding intent (stateFromError error) = .ok () := by
  have hattempt := validateErrorBinding_attemptId h
  rw [← hattempt] at h
  unfold stateFromError
  by_cases heffect : error.externalEffect = .unknown
  · rw [if_pos heffect, validateStateBinding, h]
    simp [reject, heffect]
  · rw [if_neg heffect, validateStateBinding, h]
    simp [reject, heffect]

namespace ToolInvocation.Applies

variable {invocation : ToolInvocation E} {recordedAt : Timestamp}
  {transition : ToolInvocationTransition E} {state : ToolInvocationState E}

theorem status_ne_prepared (h : invocation.Applies recordedAt transition state) :
    state.status ≠ .prepared := by
  have hfrom : ∀ error : ToolError, (stateFromError error : ToolInvocationState E).status ≠
      .prepared := by
    intro error
    unfold stateFromError
    split <;> simp [ToolInvocationState.status]
  cases h with
  | start | retry | recordResult | reconcileResult => simp [ToolInvocationState.status]
  | recordError | reconcileError => exact hfrom _

theorem state_ok (h : invocation.Applies recordedAt transition state) :
    validateStateBinding invocation.intent state = .ok () := by
  cases h with
  | start | retry => rfl
  | recordResult _ hbinding | reconcileResult _ hbinding =>
    have hattempt := validateResultBinding_attemptId hbinding
    rw [← hattempt] at hbinding
    exact hbinding
  | recordError _ hbinding | reconcileError _ hbinding =>
    exact validateStateBinding_stateFromError hbinding

end ToolInvocation.Applies

/-! ## Building records -/

namespace ToolInvocation

def prepare (intent : ToolInvocationIntent E) (journalHead : JournalHead) :
    Except ToolInvocationError (ToolInvocation E) :=
  attach (validatePreparationJournal intent journalHead) fun _ hjournal =>
    match hdigest : computeRecordDigest intent.intentDigest .initial
        (.prepared : ToolInvocationState E) none journalHead none with
    | .error source => .error (.integrity source)
    | .ok digest => .ok {
        intent := intent
        revision := .initial
        state := .prepared
        previous := none
        journalHead := journalHead
        transition := none
        transitionDigest := none
        digest := digest
        scope_ok := (validateJournal_eq_ok.mp hjournal).1
        state_ok := rfl
        revision_ok := rfl
        initial_ok := fun _ => ⟨rfl, rfl, rfl⟩
        digest_eq := hdigest }

def advance (invocation : ToolInvocation E) (transition : ToolInvocationTransition E)
    (journalHead : JournalHead) : Except ToolInvocationError (ToolInvocation E) :=
  attach (validateJournal invocation.intent invocation.journalHead journalHead) fun _ hjournal =>
    match hrevision : invocation.revision.checkedNext with
    | none => .error .revisionOverflow
    | some revision =>
      attach (applyTransition invocation transition journalHead.recordedAt) fun state hstate =>
        match computeTransitionDigest transition with
        | .error source => .error (.integrity source)
        | .ok transitionDigest =>
          match hdigest : computeRecordDigest invocation.intent.intentDigest revision state
              (some invocation.head) journalHead (some transitionDigest) with
          | .error source => .error (.integrity source)
          | .ok digest => .ok {
              intent := invocation.intent
              revision := revision
              state := state
              previous := some invocation.head
              journalHead := journalHead
              transition := some transition
              transitionDigest := some transitionDigest
              digest := digest
              scope_ok := (validateJournal_eq_ok.mp hjournal).1
              state_ok := (applies_of_applyTransition hstate).state_ok
              revision_ok := validateRevisionStatus_eq_ok.mpr
                (iff_of_false (ToolInvocationRevision.checkedNext_ne_initial hrevision)
                  (applies_of_applyTransition hstate).status_ne_prepared)
              initial_ok := fun h =>
                absurd h (ToolInvocationRevision.checkedNext_ne_initial hrevision)
              digest_eq := hdigest }

/-- What a successful step of an invocation leads to. -/
structure Advances (invocation : ToolInvocation E) (transition : ToolInvocationTransition E)
    (journalHead : JournalHead) (next : ToolInvocation E) : Prop where
  intent_eq : next.intent = invocation.intent
  revision_eq : next.revision.value = invocation.revision.value + 1
  previous_eq : next.previous = some invocation.head
  transition_eq : next.transition = some transition
  journalHead_eq : next.journalHead = journalHead
  sequence_lt : invocation.journalHead.sequence < journalHead.sequence
  recordedAt_le : invocation.journalHead.recordedAt ≤ journalHead.recordedAt
  applies : invocation.Applies journalHead.recordedAt transition next.state

theorem advances_of_advance {invocation next : ToolInvocation E}
    {transition : ToolInvocationTransition E} {journalHead : JournalHead}
    (h : invocation.advance transition journalHead = .ok next) :
    invocation.Advances transition journalHead next := by
  obtain ⟨_, hjournal, h⟩ := attach_eq_ok.mp h
  obtain ⟨_, hsequence, hclock⟩ := validateJournal_eq_ok.mp hjournal
  split at h
  · cases h
  · rename_i revision hrevision
    obtain ⟨state, hstate, h⟩ := attach_eq_ok.mp h
    split at h
    · cases h
    · split at h
      · cases h
      · cases h
        exact ⟨rfl, Ordinal.checkedNext_eq_some.mp hrevision, rfl, rfl, rfl, hsequence, hclock,
          applies_of_applyTransition hstate⟩

end ToolInvocation

end StateKnot
