import StateKnot.Failure
import StateKnot.Journal.Event

/-!
# Outbox deliveries

A delivery is a payload that an event of a run asks to send to a destination until a
deadline.  It is attempted under leases of bounded length; an attempt may end with
an acknowledgement or a failure.  The history of a delivery is verified attempt by
attempt, and its status is read off the last attempt and the clock.
-/

namespace StateKnot

open Lib

variable {E : Encoding}

abbrev DeliveryId := Ident .delivery
abbrev DestinationId := Ident .destination

/-! ## Deliveries -/

structure OutboxDestinationRef where
  tenantId : TenantId
  destinationId : DestinationId
  snapshotDigest : Digest

def OutboxDestinationRef.toJson (destination : OutboxDestinationRef) : Json :=
  .obj [("tenant_id", destination.tenantId.toJson),
    ("destination_id", destination.destinationId.toJson),
    ("snapshot_digest", destination.snapshotDigest.toJson)]

inductive OutboxDeliveryIntegrityError where
  | canonicalSerialization

inductive OutboxDeliveryError where
  | destinationTenantMismatch
  | originTenantMismatch
  | originRunMismatch
  | originEventMismatch
  | deadlineNotAfterOrigin
  | integrity (source : OutboxDeliveryIntegrityError)

def deliveryDigest (E : Encoding) (domain : String) (value : Json) :
    Except OutboxDeliveryIntegrityError Digest :=
  okOr (E.domainSeparatedDigest (domainBytes domain) value) .canonicalSerialization

/-- `compute_intent_digest` over the fields of an intent. -/
def computeOutboxIntentDigest (E : Encoding) (tenantId : TenantId) (runId : RunId)
    (deliveryId : DeliveryId) (originEventId : EventId) (destination : OutboxDestinationRef)
    (payloadDigest : Digest) (expiresAt : Timestamp) :
    Except OutboxDeliveryIntegrityError Digest :=
  deliveryDigest E "stateknot-outbox-intent-v1"
    (.obj [("tenant_id", tenantId.toJson), ("run_id", runId.toJson),
      ("delivery_id", deliveryId.toJson), ("origin_event_id", originEventId.toJson),
      ("destination", destination.toJson), ("payload_digest", payloadDigest.toJson),
      ("expires_at", E.timestampJson expiresAt)])

/-- What is to be sent, where to and until when. -/
structure OutboxDeliveryIntent (E : Encoding) where
  tenantId : TenantId
  runId : RunId
  deliveryId : DeliveryId
  originEventId : EventId
  destination : OutboxDestinationRef
  payload : JournalPayload E
  expiresAt : Timestamp
  intentDigest : Digest
  destination_ok : destination.tenantId = tenantId
  digest_eq : computeOutboxIntentDigest E tenantId runId deliveryId originEventId destination
    payload.digest expiresAt = .ok intentDigest

namespace OutboxDeliveryIntent

def new (tenantId : TenantId) (runId : RunId) (deliveryId : DeliveryId) (originEventId : EventId)
    (destination : OutboxDestinationRef) (payload : JournalPayload E) (expiresAt : Timestamp) :
    Except OutboxDeliveryError (OutboxDeliveryIntent E) :=
  if hdestination : destination.tenantId = tenantId then
    match hdigest : computeOutboxIntentDigest E tenantId runId deliveryId originEventId destination
        payload.digest expiresAt with
    | .error source => .error (.integrity source)
    | .ok intentDigest =>
      .ok ⟨tenantId, runId, deliveryId, originEventId, destination, payload, expiresAt,
        intentDigest, hdestination, hdigest⟩
  else .error .destinationTenantMismatch

end OutboxDeliveryIntent

def validateDeliveryHeadScope (tenantId : TenantId) (runId : RunId) (origin : JournalHead)
    (expiresAt : Timestamp) : Except OutboxDeliveryError Unit := do
  reject (origin.tenantId ≠ tenantId) .originTenantMismatch
  reject (origin.runId ≠ runId) .originRunMismatch
  reject (expiresAt ≤ origin.recordedAt) .deadlineNotAfterOrigin

def validateDeliveryShape (intent : OutboxDeliveryIntent E) (origin : JournalHead) :
    Except OutboxDeliveryError Unit := do
  validateDeliveryHeadScope intent.tenantId intent.runId origin intent.expiresAt
  reject (origin.eventId ≠ intent.originEventId) .originEventMismatch

def computeDeliveryDigest (E : Encoding) (tenantId : TenantId) (runId : RunId)
    (deliveryId : DeliveryId) (intentDigest : Digest) (origin : JournalHead)
    (expiresAt : Timestamp) : Except OutboxDeliveryIntegrityError Digest :=
  deliveryDigest E "stateknot-outbox-delivery-v1"
    (.obj [("tenant_id", tenantId.toJson), ("run_id", runId.toJson),
      ("delivery_id", deliveryId.toJson), ("intent_digest", intentDigest.toJson),
      ("origin", origin.toJson E), ("expires_at", E.timestampJson expiresAt)])

/-- An intent bound to the event that asked for it. -/
structure OutboxDelivery (E : Encoding) where
  intent : OutboxDeliveryIntent E
  origin : JournalHead
  digest : Digest
  shape_ok : validateDeliveryShape intent origin = .ok ()
  digest_eq : computeDeliveryDigest E intent.tenantId intent.runId intent.deliveryId
    intent.intentDigest origin intent.expiresAt = .ok digest

/-- The fields of a delivery that its attempts bind. -/
structure OutboxDeliveryHead (E : Encoding) where
  tenantId : TenantId
  runId : RunId
  deliveryId : DeliveryId
  origin : JournalHead
  intentDigest : Digest
  expiresAt : Timestamp
  digest : Digest
  scope_ok : validateDeliveryHeadScope tenantId runId origin expiresAt = .ok ()
  digest_eq : computeDeliveryDigest E tenantId runId deliveryId intentDigest origin expiresAt =
    .ok digest
deriving DecidableEq

namespace OutboxDelivery

def commit (intent : OutboxDeliveryIntent E) (origin : JournalHead) :
    Except OutboxDeliveryError (OutboxDelivery E) :=
  attach (validateDeliveryShape intent origin) fun _ hshape =>
    match hdigest : computeDeliveryDigest E intent.tenantId intent.runId intent.deliveryId
        intent.intentDigest origin intent.expiresAt with
    | .error source => .error (.integrity source)
    | .ok digest => .ok ⟨intent, origin, digest, hshape, hdigest⟩

def head (delivery : OutboxDelivery E) : OutboxDeliveryHead E where
  tenantId := delivery.intent.tenantId
  runId := delivery.intent.runId
  deliveryId := delivery.intent.deliveryId
  origin := delivery.origin
  intentDigest := delivery.intent.intentDigest
  expiresAt := delivery.intent.expiresAt
  digest := delivery.digest
  scope_ok := by
    have hshape := delivery.shape_ok
    simp only [validateDeliveryShape, bind_eq_ok] at hshape
    obtain ⟨_, hscope, _⟩ := hshape
    exact hscope
  digest_eq := delivery.digest_eq

end OutboxDelivery

def OutboxDeliveryHead.toJson (head : OutboxDeliveryHead E) : Json :=
  .obj [("tenant_id", head.tenantId.toJson), ("run_id", head.runId.toJson),
    ("delivery_id", head.deliveryId.toJson), ("origin", head.origin.toJson E),
    ("intent_digest", head.intentDigest.toJson), ("expires_at", E.timestampJson head.expiresAt),
    ("digest", head.digest.toJson)]

/-! ## Attempts -/

/-- The token of one attempt to deliver. -/
structure DeliveryFence where
  tenantId : TenantId
  runId : RunId
  deliveryId : DeliveryId
  attemptId : AttemptId
  epoch : FencingEpoch

def DeliveryFence.toJson (fence : DeliveryFence) : Json :=
  .obj [("tenant_id", fence.tenantId.toJson), ("run_id", fence.runId.toJson),
    ("delivery_id", fence.deliveryId.toJson), ("attempt_id", fence.attemptId.toJson),
    ("epoch", fence.epoch.toJson)]

inductive OutboxAttemptIntegrityError where
  | canonicalSerialization

inductive OutboxAttemptError where
  | fenceTenantMismatch
  | fenceRunMismatch
  | fenceDeliveryMismatch
  | startBeforeOrigin
  | startOutsideDeliveryWindow
  | expiryNotAfterStart
  | expiryAfterDeliveryDeadline
  | leaseTooLong (maximumMillis actualMillis : Int)
  | completionBeforeStart
  | completionOutsideFence
  | reconciliationUnsupported
  | retryDelayOutOfRange
  | integrity (source : OutboxAttemptIntegrityError)

def maxOutboxAttempts : Nat := 64

def maxOutboxAttemptLeaseMillis : Int := 300000

/-- The lease of an attempt lies inside the delivery window and is not too long.  The source
computes its length in 128-bit integers, which hold every value here. -/
def validateAttemptStart (delivery : OutboxDeliveryHead E) (fence : DeliveryFence)
    (startedAt expiresAt : Timestamp) : Except OutboxAttemptError Unit := do
  reject (fence.tenantId ≠ delivery.tenantId) .fenceTenantMismatch
  reject (fence.runId ≠ delivery.runId) .fenceRunMismatch
  reject (fence.deliveryId ≠ delivery.deliveryId) .fenceDeliveryMismatch
  reject (startedAt < delivery.origin.recordedAt) .startBeforeOrigin
  reject (startedAt ≥ delivery.expiresAt) .startOutsideDeliveryWindow
  reject (expiresAt ≤ startedAt) .expiryNotAfterStart
  reject (expiresAt > delivery.expiresAt) .expiryAfterDeliveryDeadline
  let durationMicros := expiresAt.micros - startedAt.micros
  let maximumMicros := maxOutboxAttemptLeaseMillis * 1000
  reject (durationMicros > maximumMicros)
    (.leaseTooLong maxOutboxAttemptLeaseMillis ((durationMicros + 999) / 1000))

def attemptDigest (E : Encoding) (domain : String) (value : Json) :
    Except OutboxAttemptIntegrityError Digest :=
  okOr (E.domainSeparatedDigest (domainBytes domain) value) .canonicalSerialization

def computeAttemptStartDigest (delivery : OutboxDeliveryHead E)
    (fence : DeliveryFence) (startedAt expiresAt : Timestamp) :
    Except OutboxAttemptIntegrityError Digest :=
  attemptDigest E "stateknot-outbox-attempt-start-v1"
    (.obj [("delivery", delivery.toJson), ("fence", fence.toJson),
      ("started_at", E.timestampJson startedAt), ("expires_at", E.timestampJson expiresAt)])

/-- The start of an attempt: a lease on the delivery. -/
structure OutboxAttemptStart (E : Encoding) where
  delivery : OutboxDeliveryHead E
  fence : DeliveryFence
  startedAt : Timestamp
  expiresAt : Timestamp
  digest : Digest
  start_ok : validateAttemptStart delivery fence startedAt expiresAt = .ok ()
  digest_eq : computeAttemptStartDigest delivery fence startedAt expiresAt = .ok digest

/-- The head of a start has all its fields. -/
abbrev OutboxAttemptStartHead := OutboxAttemptStart

namespace OutboxAttemptStart

def materialize (delivery : OutboxDeliveryHead E) (fence : DeliveryFence)
    (startedAt expiresAt : Timestamp) : Except OutboxAttemptError (OutboxAttemptStart E) :=
  attach (validateAttemptStart delivery fence startedAt expiresAt) fun _ hstart =>
    match hdigest : computeAttemptStartDigest delivery fence startedAt expiresAt with
    | .error source => .error (.integrity source)
    | .ok digest => .ok ⟨delivery, fence, startedAt, expiresAt, digest, hstart, hdigest⟩

def new (delivery : OutboxDelivery E) (fence : DeliveryFence) (startedAt expiresAt : Timestamp) :
    Except OutboxAttemptError (OutboxAttemptStart E) :=
  materialize delivery.head fence startedAt expiresAt

def head (start : OutboxAttemptStart E) : OutboxAttemptStartHead E := start

def toJson (start : OutboxAttemptStart E) : Json :=
  .obj [("delivery", start.delivery.toJson), ("fence", start.fence.toJson),
    ("started_at", E.timestampJson start.startedAt),
    ("expires_at", E.timestampJson start.expiresAt), ("digest", start.digest.toJson)]

end OutboxAttemptStart

/-- How an attempt ended. -/
inductive OutboxAttemptOutcome where
  | acknowledged (evidenceDigest : Option Digest)
  | failed (failure : Failure)

def OutboxAttemptOutcome.toJson : OutboxAttemptOutcome → Json
  | .acknowledged evidenceDigest => .obj (("kind", .str "acknowledged") ::
      Json.optionalMember "evidence_digest" Digest.toJson evidenceDigest)
  | .failed failure => .obj [("kind", .str "failed"), ("failure", failure.toJson)]

/-- The instant of a retry; a sum outside the calendar is rejected. -/
def retryEligibleAt (completedAt : Timestamp) (delay : DurationMillis) :
    Except OutboxAttemptError Timestamp :=
  okOr (Timestamp.fromUnixMicros? (retryEligibleMicros completedAt delay)) .retryDelayOutOfRange

def validateAttemptCompletion (start : OutboxAttemptStartHead E)
    (outcome : OutboxAttemptOutcome) (completedAt : Timestamp) : Except OutboxAttemptError Unit := do
  reject (completedAt < start.startedAt) .completionBeforeStart
  reject (completedAt ≥ start.expiresAt) .completionOutsideFence
  match outcome with
  | .acknowledged _ => return ()
  | .failed failure =>
    match failure.retryAdvice with
    | .reconcileFirst => .error .reconciliationUnsupported
    | .safeAfter delay =>
      let _ ← retryEligibleAt completedAt delay
      return ()
    | .never => return ()

def computeAttemptCompletionDigest (start : OutboxAttemptStartHead E)
    (outcome : OutboxAttemptOutcome) (completedAt : Timestamp) :
    Except OutboxAttemptIntegrityError Digest :=
  attemptDigest E "stateknot-outbox-attempt-completion-v1"
    (.obj [("start", start.toJson), ("outcome", outcome.toJson),
      ("completed_at", E.timestampJson completedAt)])

structure OutboxAttemptCompletion (E : Encoding) where
  start : OutboxAttemptStartHead E
  outcome : OutboxAttemptOutcome
  completedAt : Timestamp
  digest : Digest
  completion_ok : validateAttemptCompletion start outcome completedAt = .ok ()
  digest_eq : computeAttemptCompletionDigest start outcome completedAt = .ok digest

namespace OutboxAttemptCompletion

end OutboxAttemptCompletion

/-- A start with its completion, if it has ended. -/
structure OutboxAttempt (E : Encoding) where
  start : OutboxAttemptStart E
  completion : Option (OutboxAttemptCompletion E)
  completes_start : ∀ record, completion = some record → record.start = start.head

namespace OutboxAttempt

def delivering (start : OutboxAttemptStart E) : OutboxAttempt E := ⟨start, none, by simp⟩

end OutboxAttempt

/-! ## Histories -/

inductive OutboxDeliveryStatus where
  | pending | delivering | retryScheduled | acknowledged | deadLetter | expired
deriving DecidableEq

inductive OutboxAttemptHistoryError where
  | attemptLimitExceeded
  | deliveryMismatch
  | attemptIdReused (attemptId : AttemptId)
  | firstEpochInvalid (actual : FencingEpoch)
  | epochNotSuccessor
  | clockRegression
  | liveAttemptSuperseded
  | previousAttemptAcknowledged
  | retryNotAuthorized
  | retryDelayNotElapsed (eligibleAt startedAt : Timestamp)
  | retryDelayOutOfRange
  | observationClockRegression (latestAt observedAt : Timestamp)
deriving DecidableEq

/-- The last part of `validate_attempt_successor`: what the end of an attempt allows. -/
def validateOutboxRetry (completion : OutboxAttemptCompletion E)
    (startedAt : Timestamp) : Except OutboxAttemptHistoryError Unit :=
  match completion.outcome with
  | .acknowledged _ => .error .previousAttemptAcknowledged
  | .failed failure =>
    match failure.retryAdvice with
    | .safeAfter delay => do
      let eligibleAt ← (retryEligibleAt completion.completedAt delay).mapError
        fun _ => .retryDelayOutOfRange
      reject (startedAt < eligibleAt) (.retryDelayNotElapsed eligibleAt startedAt)
    | .never => .error .retryNotAuthorized
    | .reconcileFirst => .error .retryNotAuthorized

def validateAttemptSuccessor (previous next : OutboxAttempt E) :
    Except OutboxAttemptHistoryError Unit := do
  let epoch ← okOr previous.start.fence.epoch.checkedNext .attemptLimitExceeded
  reject (next.start.fence.epoch ≠ epoch) .epochNotSuccessor
  match previous.completion with
  | none => reject (next.start.startedAt < previous.start.expiresAt) .liveAttemptSuperseded
  | some completion =>
    reject (next.start.startedAt < completion.completedAt) .clockRegression
    validateOutboxRetry completion next.start.startedAt

/-- The history of one delivery so far. -/
structure OutboxAttemptHistoryVerifier (E : Encoding) where
  delivery : OutboxDeliveryHead E
  last : Option (OutboxAttempt E)
  attemptIds : List AttemptId
  count : Nat

namespace OutboxAttemptHistoryVerifier

def new (delivery : OutboxDelivery E) : OutboxAttemptHistoryVerifier E :=
  ⟨delivery.head, none, [], 0⟩

def verifyNext (history : OutboxAttemptHistoryVerifier E) (attempt : OutboxAttempt E) :
    Except OutboxAttemptHistoryError (OutboxAttemptHistoryVerifier E) := do
  reject (history.count = maxOutboxAttempts) .attemptLimitExceeded
  reject (attempt.start.delivery ≠ history.delivery) .deliveryMismatch
  let attemptId := attempt.start.fence.attemptId
  reject (attemptId ∈ history.attemptIds) (.attemptIdReused attemptId)
  (match history.last with
    | some previous => validateAttemptSuccessor previous attempt
    | none => reject (attempt.start.fence.epoch ≠ .first)
        (.firstEpochInvalid attempt.start.fence.epoch))
  return ⟨history.delivery, some attempt, attemptId :: history.attemptIds, history.count + 1⟩

/-- The instant of the latest evidence. -/
def latestAt (history : OutboxAttemptHistoryVerifier E) : Timestamp :=
  match history.last with
  | none => history.delivery.origin.recordedAt
  | some attempt =>
    match attempt.completion with
    | none => attempt.start.startedAt
    | some completion => completion.completedAt

/-- The status that the end of the last attempt settles, whatever the clock says. -/
def settledStatus (history : OutboxAttemptHistoryVerifier E) : Option OutboxDeliveryStatus := do
  let last ← history.last
  let completion ← last.completion
  match completion.outcome with
  | .acknowledged _ => some .acknowledged
  | .failed failure =>
    if failure.retryAdvice = .never then some .deadLetter
    else if history.count = maxOutboxAttempts then some .deadLetter
    else none

/-- The last allowed attempt lapsed without an end. -/
def lapsedStatus (history : OutboxAttemptHistoryVerifier E) (observedAt : Timestamp) :
    Option OutboxDeliveryStatus := do
  let last ← history.last
  if last.completion = none ∧ history.count = maxOutboxAttempts ∧
      observedAt ≥ last.start.expiresAt then
    if last.start.expiresAt < history.delivery.expiresAt then some .deadLetter else some .expired
  else none

/-- The status before the deadline of a delivery that may still be attempted. -/
def openStatus (history : OutboxAttemptHistoryVerifier E) (observedAt : Timestamp) :
    Except OutboxAttemptHistoryError OutboxDeliveryStatus :=
  match history.last with
  | none => return .pending
  | some last =>
    match last.completion with
    | none => if observedAt < last.start.expiresAt then return .delivering else return .pending
    | some completion =>
      match completion.outcome with
      | .acknowledged _ => return .acknowledged
      | .failed failure =>
        match failure.retryAdvice with
        | .safeAfter delay => do
          let eligibleAt ← (retryEligibleAt completion.completedAt delay).mapError
            fun _ => .retryDelayOutOfRange
          if observedAt < eligibleAt then return .retryScheduled else return .pending
        | .never => return .deadLetter
        | .reconcileFirst => return .deadLetter

def statusAt (history : OutboxAttemptHistoryVerifier E) (observedAt : Timestamp) :
    Except OutboxAttemptHistoryError OutboxDeliveryStatus := do
  reject (observedAt < history.latestAt)
    (.observationClockRegression history.latestAt observedAt)
  match history.settledStatus with
  | some status => return status
  | none =>
    match history.lapsedStatus observedAt with
    | some status => return status
    | none =>
      if observedAt ≥ history.delivery.expiresAt then return .expired
      else history.openStatus observedAt

end OutboxAttemptHistoryVerifier

end StateKnot
