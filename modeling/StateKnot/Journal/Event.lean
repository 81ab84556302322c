import StateKnot.Lease

/-!
# Journal events

The append-only journal of a run: payload envelopes, append intents, committed
events and the checksums that bind them.  A payload checksum covers the
envelope, an intent checksum covers the payload checksum, and an event checksum
covers the intent checksum and the checksum of the previous event.

Payloads and intents cannot be built with a wrong checksum, so their types carry
it as an invariant.  An event is plain data: `JournalEvent.validate` decides
whether its layers fit together.
-/

namespace StateKnot

open Lib

variable {E : Encoding}

/-! ## Payloads -/

/-- Semantic kind of an event. -/
abbrev JournalEventKind := Ident .eventKind

inductive JournalPayloadError where
  | envelopeBounds (source : BoundedJsonError)
  | canonical (source : CanonicalJsonError)

/-- The stable payload envelope. -/
def payloadEnvelope (schema : SchemaReference) (kind : JournalEventKind) (data : BoundedJson) :
    Json :=
  .obj [("schema", schema.toJson), ("kind", kind.toJson), ("data", data.value)]

/-- Bound the complete envelope and canonicalize it. -/
def canonicalPayload (E : Encoding) (schema : SchemaReference) (kind : JournalEventKind)
    (data : BoundedJson) : Except JournalPayloadError CanonicalJson := do
  let bounded ←
    (BoundedJson.tryFromValueWithLimits (payloadEnvelope schema kind data) .maximum).mapError
      .envelopeBounds
  (CanonicalJson.new E bounded).mapError .canonical

/-- A schema-bound payload with the checksum of its envelope. -/
structure JournalPayload (E : Encoding) where
  schema : SchemaReference
  kind : JournalEventKind
  data : BoundedJson
  digest : Digest
  digest_eq : ∃ canonical, canonicalPayload E schema kind data = .ok canonical ∧
    canonical.digest = digest

namespace JournalPayload

def new (schema : SchemaReference) (kind : JournalEventKind) (data : BoundedJson) :
    Except JournalPayloadError (JournalPayload E) :=
  match h : canonicalPayload E schema kind data with
  | .error error => .error error
  | .ok canonical => .ok ⟨schema, kind, data, canonical.digest, canonical, h, rfl⟩

/-- Payloads with the same schema and kind and canonically equal data. -/
structure CanonicallyEqual (a b : JournalPayload E) : Prop where
  schema : a.schema = b.schema
  kind : a.kind = b.kind
  data : a.data.value.canonical = b.data.value.canonical

end JournalPayload

/-! ## Append intents -/

/-- Trusted runtime origin of an append. -/
inductive JournalEventSource where
  | controlPlane
  | worker (fence : RunFence)

def JournalEventSource.toJson : JournalEventSource → Json
  | .controlPlane => .obj [("kind", .str "control_plane")]
  | .worker fence => .obj [("kind", .str "worker"), ("fence", fence.toJson)]

inductive JournalIntentError where
  | fenceTenantMismatch
  | fenceRunMismatch
  | integrity

/-- A worker fence must name the tenant and run of the event. -/
def validateSourceScope (tenantId : TenantId) (runId : RunId) :
    JournalEventSource → Except JournalIntentError Unit
  | .controlPlane => return ()
  | .worker fence => do
    reject (fence.tenantId ≠ tenantId) .fenceTenantMismatch
    reject (fence.runId ≠ runId) .fenceRunMismatch

/-- Checksum preimage of an append intent. -/
def intentDigestWire (tenantId : TenantId) (runId : RunId) (eventId : EventId)
    (source : JournalEventSource) (payloadDigest : Digest) : Json :=
  .obj [("tenant_id", tenantId.toJson), ("run_id", runId.toJson), ("event_id", eventId.toJson),
    ("source", source.toJson), ("payload_digest", payloadDigest.toJson)]

def computeIntentDigest (E : Encoding) (tenantId : TenantId) (runId : RunId)
    (eventId : EventId) (source : JournalEventSource) (payloadDigest : Digest) : Option Digest :=
  E.domainSeparatedDigest (domainBytes "stateknot-journal-intent-v1")
    (intentDigestWire tenantId runId eventId source payloadDigest)

/-- Stable idempotent request to append one event. -/
structure JournalEventIntent (E : Encoding) where
  tenantId : TenantId
  runId : RunId
  eventId : EventId
  source : JournalEventSource
  payload : JournalPayload E
  intentDigest : Digest
  scope_ok : validateSourceScope tenantId runId source = .ok ()
  digest_eq : computeIntentDigest E tenantId runId eventId source payload.digest =
    some intentDigest

/-- `from_parts`, the constructor behind `control_plane` and `worker`. -/
def JournalEventIntent.fromParts (tenantId : TenantId) (runId : RunId)
    (eventId : EventId) (source : JournalEventSource) (payload : JournalPayload E) :
    Except JournalIntentError (JournalEventIntent E) :=
  match hscope : validateSourceScope tenantId runId source with
  | .error error => .error error
  | .ok () =>
    match hdigest : computeIntentDigest E tenantId runId eventId source payload.digest with
    | none => .error .integrity
    | some digest =>
      .ok ⟨tenantId, runId, eventId, source, payload, digest, hscope, hdigest⟩

/-! ## Heads and append requests -/

/-- Exact committed journal head. -/
structure JournalHead where
  tenantId : TenantId
  runId : RunId
  sequence : JournalSequence
  eventId : EventId
  recordedAt : Timestamp
  digest : Digest
deriving DecidableEq

def JournalHead.toJson (E : Encoding) (head : JournalHead) : Json :=
  .obj [("tenant_id", head.tenantId.toJson), ("run_id", head.runId.toJson),
    ("sequence", head.sequence.toJson), ("event_id", head.eventId.toJson),
    ("recorded_at", E.timestampJson head.recordedAt), ("digest", head.digest.toJson)]

/-- Optimistic precondition of an append. -/
inductive JournalExpectation where
  | empty
  | exact (head : JournalHead)

/-- The expectation that the journal ends at a given head. -/
def JournalExpectation.ofHead : Option JournalHead → JournalExpectation
  | none => .empty
  | some head => .exact head

def JournalExpectation.head : JournalExpectation → Option JournalHead
  | .empty => none
  | .exact head => some head

inductive JournalAppendError where
  | headTenantMismatch
  | headRunMismatch

/-- An intent with the head it is to follow; an exact head lies in the intent's scope. -/
structure JournalAppend (E : Encoding) where
  expectation : JournalExpectation
  intent : JournalEventIntent E
  scope_ok : ∀ head ∈ expectation.head, head.tenantId = intent.tenantId ∧
    head.runId = intent.runId

namespace JournalAppend

def new (expectation : JournalExpectation) (intent : JournalEventIntent E) :
    Except JournalAppendError (JournalAppend E) :=
  match hhead : expectation.head with
  | none => .ok ⟨expectation, intent, by simp [hhead]⟩
  | some head =>
    if htenant : head.tenantId ≠ intent.tenantId then .error .headTenantMismatch
    else if hrun : head.runId ≠ intent.runId then .error .headRunMismatch
    else .ok ⟨expectation, intent, by simpa [hhead] using ⟨not_not.mp htenant, not_not.mp hrun⟩⟩

theorem new_eq_ok {expectation : JournalExpectation} {intent : JournalEventIntent E}
    {append : JournalAppend E} (h : new expectation intent = .ok append) :
    append.expectation = expectation ∧ append.intent = intent := by
  unfold new at h
  split at h
  · cases h
    exact ⟨rfl, rfl⟩
  · split at h
    · cases h
    · split at h
      · cases h
      · cases h
        exact ⟨rfl, rfl⟩

end JournalAppend

/-! ## Committed events -/

/-- One record of a run journal. -/
structure JournalEvent (E : Encoding) where
  tenantId : TenantId
  runId : RunId
  sequence : JournalSequence
  eventId : EventId
  recordedAt : Timestamp
  source : JournalEventSource
  payload : JournalPayload E
  payloadDigest : Digest
  intentDigest : Digest
  previousDigest : Option Digest
  digest : Digest

inductive JournalEventError where
  | sequenceOverflow
  | clockRegression (previous actual : Timestamp)
  | unexpectedPreviousDigest
  | missingPreviousDigest
  | payloadDigestMismatch
  | intentDigestMismatch
  | eventDigestMismatch
  | intent (source : JournalIntentError)
  | integrity

/-- Checksum preimage of an event. -/
def eventDigestWire (E : Encoding) (tenantId : TenantId) (runId : RunId)
    (sequence : JournalSequence) (eventId : EventId) (recordedAt : Timestamp)
    (payloadDigest intentDigest : Digest) (previousDigest : Option Digest) : Json :=
  .obj [("tenant_id", tenantId.toJson), ("run_id", runId.toJson),
    ("sequence", sequence.toJson), ("event_id", eventId.toJson),
    ("recorded_at", E.timestampJson recordedAt), ("payload_digest", payloadDigest.toJson),
    ("intent_digest", intentDigest.toJson),
    ("previous_digest", Json.ofOption Digest.toJson previousDigest)]

def computeEventDigest (E : Encoding) (tenantId : TenantId) (runId : RunId)
    (sequence : JournalSequence) (eventId : EventId) (recordedAt : Timestamp)
    (payloadDigest intentDigest : Digest) (previousDigest : Option Digest) : Option Digest :=
  E.domainSeparatedDigest (domainBytes "stateknot-journal-event-v1")
    (eventDigestWire E tenantId runId sequence eventId recordedAt payloadDigest intentDigest
      previousDigest)

namespace JournalEvent

/-- Position and predecessor checksum that an expectation assigns to the next event. -/
def position (recordedAt : Timestamp) :
    JournalExpectation → Except JournalEventError (JournalSequence × Option Digest)
  | .empty => return (.first, none)
  | .exact head => do
    reject (recordedAt < head.recordedAt) (.clockRegression head.recordedAt recordedAt)
    let sequence ← okOr head.sequence.checkedNext .sequenceOverflow
    return (sequence, some head.digest)

/-- Materialize a validated append after the store has won its transaction. -/
def commit (append : JournalAppend E) (recordedAt : Timestamp) :
    Except JournalEventError (JournalEvent E) := do
  let (sequence, previousDigest) ← position recordedAt append.expectation
  let intent := append.intent
  let payloadDigest := intent.payload.digest
  let digest ← okOr (computeEventDigest E intent.tenantId intent.runId sequence intent.eventId
    recordedAt payloadDigest intent.intentDigest previousDigest) .integrity
  return ⟨intent.tenantId, intent.runId, sequence, intent.eventId, recordedAt, intent.source,
    intent.payload, payloadDigest, intent.intentDigest, previousDigest, digest⟩

def head (event : JournalEvent E) : JournalHead :=
  ⟨event.tenantId, event.runId, event.sequence, event.eventId, event.recordedAt, event.digest⟩

/-- Structural and checksum validation of one record. -/
def validate (event : JournalEvent E) : Except JournalEventError Unit := do
  reject (event.sequence = .first ∧ event.previousDigest.isSome) .unexpectedPreviousDigest
  reject (event.sequence ≠ .first ∧ event.previousDigest.isNone) .missingPreviousDigest
  reject (event.payload.digest ≠ event.payloadDigest) .payloadDigestMismatch
  (validateSourceScope event.tenantId event.runId event.source).mapError .intent
  let expectedIntent ← okOr (computeIntentDigest E event.tenantId event.runId event.eventId
    event.source event.payloadDigest) .integrity
  reject (expectedIntent ≠ event.intentDigest) .intentDigestMismatch
  let expectedEvent ← okOr (computeEventDigest E event.tenantId event.runId event.sequence
    event.eventId event.recordedAt event.payloadDigest event.intentDigest event.previousDigest)
    .integrity
  reject (expectedEvent ≠ event.digest) .eventDigestMismatch

/-- Restore and verify an event from durable storage columns. -/
def restore (intent : JournalEventIntent E) (sequence : JournalSequence) (recordedAt : Timestamp)
    (previousDigest : Option Digest) (digest : Digest) :
    Except JournalEventError (JournalEvent E) := do
  let event : JournalEvent E := ⟨intent.tenantId, intent.runId, sequence, intent.eventId,
    recordedAt, intent.source, intent.payload, intent.payload.digest, intent.intentDigest,
    previousDigest, digest⟩
  event.validate
  return event

end JournalEvent

end StateKnot
