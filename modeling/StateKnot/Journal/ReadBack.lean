import StateKnot.Durable
import StateKnot.Journal.Chain

/-!
# Reading journal records back

A payload is built under the maximum limits: its whole envelope has to fit them.  It is
read back through the generic reader of JSON values, which applies the default limits to
the data alone.  So a payload comes back exactly when its data fits the default limits,
and the intents and events around it come back exactly when the payload does.
-/

namespace StateKnot

open Lib

variable {E : Encoding}

/-! ## Payloads -/

namespace JournalPayload

variable {payload payload' : JournalPayload E} {schema : SchemaReference}
  {kind : JournalEventKind} {data : BoundedJson}

theorem new_eq_ok (h : new schema kind data = .ok payload) :
    payload.schema = schema ∧ payload.kind = kind ∧ payload.data = data := by
  unfold new at h
  split at h
  · cases h
  · cases h
    exact ⟨rfl, rfl, rfl⟩

theorem new_self (payload : JournalPayload E) :
    new payload.schema payload.kind payload.data = .ok payload := by
  obtain ⟨schema, kind, data, digest, canonical, hcanonical, hdigest⟩ := payload
  unfold new
  split
  · rename_i error herror
    cases herror.symm.trans hcanonical
  · rename_i found hfound
    cases hfound.symm.trans hcanonical
    cases hdigest
    rfl

/-- `JournalPayload::deserialize`, of what `serialize` wrote. -/
def reread (payload : JournalPayload E) : Option (JournalPayload E) := do
  let data ← payload.data.reread E
  (new payload.schema payload.kind data).toOption

theorem reread_eq_some (hE : E.KeepsTrees) {tree : Json} {limits : JsonLimits}
    (hread : BoundedJson.tryFromValueWithLimits tree limits = .ok payload.data) :
    payload.reread = some payload' ↔
      payload.data.value.FitsLimits .default ∧ payload' = payload := by
  simp only [reread, Option.bind_eq_bind, Option.bind_eq_some_iff,
    BoundedJson.reread_eq_some hE hread]
  constructor
  · intro h
    obtain ⟨data, ⟨hfits, rfl⟩, hnew⟩ := h
    rw [new_self, toOption_eq_some, Except.ok.injEq] at hnew
    exact ⟨hfits, hnew.symm⟩
  · intro h
    obtain ⟨hfits, rfl⟩ := h
    exact ⟨_, ⟨hfits, rfl⟩, toOption_eq_some.mpr (new_self _)⟩

end JournalPayload

/-! ## Intents -/

namespace JournalEventIntent

variable {intent intent' : JournalEventIntent E}

theorem fromParts_payload {tenantId : TenantId} {runId : RunId} {eventId : EventId}
    {source : JournalEventSource} {payload : JournalPayload E}
    (h : fromParts tenantId runId eventId source payload = .ok intent) :
    intent.payload = payload := by
  unfold fromParts at h
  split at h
  · cases h
  · split at h
    · cases h
    · cases h
      rfl

theorem fromParts_self (intent : JournalEventIntent E) :
    fromParts intent.tenantId intent.runId intent.eventId intent.source intent.payload =
      .ok intent := by
  obtain ⟨tenantId, runId, eventId, source, payload, intentDigest, hscope, hdigest⟩ := intent
  unfold fromParts
  split
  · rename_i error herror
    cases herror.symm.trans hscope
  · split
    · rename_i hnone
      cases hnone.symm.trans hdigest
    · rename_i digest hsome
      cases hsome.symm.trans hdigest
      rfl

/-- `JournalEventIntent::deserialize`, of what `serialize` wrote. -/
def reread (intent : JournalEventIntent E) : Option (JournalEventIntent E) := do
  let payload ← intent.payload.reread
  let read ← (fromParts intent.tenantId intent.runId intent.eventId intent.source
    payload).toOption
  if read.intentDigest = intent.intentDigest then some read else none

theorem reread_eq_some (hE : E.KeepsTrees) {tree : Json} {limits : JsonLimits}
    (hread : BoundedJson.tryFromValueWithLimits tree limits = .ok intent.payload.data) :
    intent.reread = some intent' ↔
      intent.payload.data.value.FitsLimits .default ∧ intent' = intent := by
  simp only [reread, Option.bind_eq_bind, Option.bind_eq_some_iff,
    JournalPayload.reread_eq_some hE hread]
  constructor
  · intro h
    obtain ⟨payload, ⟨hfits, rfl⟩, read, hparts, hdigest⟩ := h
    rw [fromParts_self, toOption_eq_some, Except.ok.injEq] at hparts
    rw [← hparts, if_pos rfl, Option.some.injEq] at hdigest
    exact ⟨hfits, hdigest.symm⟩
  · intro h
    obtain ⟨hfits, rfl⟩ := h
    exact ⟨_, ⟨hfits, rfl⟩, _, toOption_eq_some.mpr (fromParts_self _), if_pos rfl⟩

end JournalEventIntent

/-! ## Events -/

namespace JournalEvent

variable {event event' : JournalEvent E}

/-- `JournalEvent::deserialize`, of what `serialize` wrote. -/
def reread (event : JournalEvent E) : Option (JournalEvent E) := do
  let payload ← event.payload.reread
  let read : JournalEvent E := { event with payload := payload }
  if read.validate.isOk then some read else none

theorem reread_eq_some (hE : E.KeepsTrees) {tree : Json} {limits : JsonLimits}
    (hread : BoundedJson.tryFromValueWithLimits tree limits = .ok event.payload.data)
    (hvalid : event.validate = .ok ()) :
    event.reread = some event' ↔
      event.payload.data.value.FitsLimits .default ∧ event' = event := by
  simp only [reread, Option.bind_eq_bind, Option.bind_eq_some_iff,
    JournalPayload.reread_eq_some hE hread]
  constructor
  · intro h
    obtain ⟨payload, ⟨hfits, rfl⟩, hchecked⟩ := h
    rw [if_pos (by rw [hvalid]; rfl), Option.some.injEq] at hchecked
    exact ⟨hfits, hchecked.symm⟩
  · intro h
    obtain ⟨hfits, rfl⟩ := h
    exact ⟨_, ⟨hfits, rfl⟩, if_pos (by rw [hvalid]; rfl)⟩

theorem commit_payload {append : JournalAppend E} {recordedAt : Timestamp}
    (h : commit append recordedAt = .ok event) :
    event.payload = append.intent.payload ∧ event.validate = .ok () := by
  have hhead : append.expectation = .ofHead append.expectation.head := by
    cases append.expectation <;> rfl
  refine ⟨?_, validate_eq_ok.mpr (follows_of_commit hhead h).valid⟩
  unfold commit at h
  simp only [bind_eq_ok, okOr_eq_ok] at h
  obtain ⟨_, _, _, _, hevent⟩ := h
  cases hevent
  rfl

theorem restore_payload {intent : JournalEventIntent E} {sequence : JournalSequence}
    {recordedAt : Timestamp} {previousDigest : Option Digest} {digest : Digest}
    (h : restore intent sequence recordedAt previousDigest digest = .ok event) :
    event.payload = intent.payload ∧ event.validate = .ok () := by
  simp only [restore, bind_eq_ok, pure_eq_ok] at h
  obtain ⟨_, hvalid, rfl⟩ := h
  exact ⟨rfl, hvalid⟩

end JournalEvent

/-- Where the stored text keeps the trees, a payload that was built, and every intent and event
built from it, is read back from what it was written as exactly when its data fits the default
limits. -/
theorem journal_payload_read_back (hE : E.KeepsTrees) {tree : Json} {limits : JsonLimits}
    {data : BoundedJson}
    (hread : BoundedJson.tryFromValueWithLimits tree limits = .ok data) {schema : SchemaReference}
    {kind : JournalEventKind} {payload : JournalPayload E}
    (hnew : JournalPayload.new schema kind data = .ok payload) :
    (payload.reread = some payload ↔ data.value.FitsLimits .default) ∧
    (∀ tenantId runId eventId source intent,
      JournalEventIntent.fromParts tenantId runId eventId source payload = .ok intent →
      (intent.reread = some intent ↔ data.value.FitsLimits .default)) ∧
    (∀ (append : JournalAppend E) recordedAt event, append.intent.payload = payload →
      JournalEvent.commit append recordedAt = .ok event →
      (event.reread = some event ↔ data.value.FitsLimits .default)) ∧
    ∀ (intent : JournalEventIntent E) sequence recordedAt previousDigest digest event,
      intent.payload = payload →
      JournalEvent.restore intent sequence recordedAt previousDigest digest = .ok event →
      (event.reread = some event ↔ data.value.FitsLimits .default) := by
  obtain ⟨_, _, rfl⟩ := JournalPayload.new_eq_ok hnew
  refine ⟨?_, fun tenantId runId eventId source intent hparts => ?_,
    fun append recordedAt event hpayload hcommit => ?_,
    fun intent sequence recordedAt previousDigest digest event hpayload hrestore => ?_⟩
  · rw [JournalPayload.reread_eq_some hE hread]
    exact and_iff_left rfl
  · have hpayload := JournalEventIntent.fromParts_payload hparts
    rw [← hpayload] at hread ⊢
    rw [JournalEventIntent.reread_eq_some hE hread]
    exact and_iff_left rfl
  · obtain ⟨hsame, hvalid⟩ := JournalEvent.commit_payload hcommit
    rw [← hpayload, ← hsame] at hread ⊢
    rw [JournalEvent.reread_eq_some hE hread hvalid]
    exact and_iff_left rfl
  · obtain ⟨hsame, hvalid⟩ := JournalEvent.restore_payload hrestore
    rw [← hpayload, ← hsame] at hread ⊢
    rw [JournalEvent.reread_eq_some hE hread hvalid]
    exact and_iff_left rfl

namespace Journal.Sample

def payload (tree : Json) : Option (BoundedJson × JournalPayload .reference) := do
  let data ← (BoundedJson.tryFromValueWithLimits tree .maximum).toOption
  let payload ← (JournalPayload.new ⟨⟨"schema"⟩, ⟨"1.0.0"⟩, ⟨[]⟩⟩ ⟨"node-completed"⟩
    data).toOption
  return (data, payload)

end Journal.Sample

/-- A payload of a small value comes back. -/
theorem journal_payload_read_back_small : ∃ payload : JournalPayload .reference,
    payload.data.value = .arr [.null] ∧ payload.reread = some payload := by
  have hsome : (Journal.Sample.payload (.arr [.null])).any (fun sample =>
      sample.1.value = .arr [.null] ∧ (sample.1.reread .reference).isSome) = true := by decide +kernel
  obtain ⟨⟨data, payload⟩, hsample, hchecked⟩ := (Option.any_eq_true _ _).mp hsome
  obtain ⟨hvalue, hreread⟩ := of_decide_eq_true hchecked
  simp only [Journal.Sample.payload, Option.bind_eq_bind, Option.bind_eq_some_iff,
    toOption_eq_some, pure, Option.some.injEq, Prod.mk.injEq] at hsample
  obtain ⟨_, hread, _, hnew, rfl, rfl⟩ := hsample
  obtain ⟨_, _, hdata⟩ := JournalPayload.new_eq_ok hnew
  refine ⟨_, hdata ▸ hvalue, (journal_payload_read_back (fun _ => rfl) hread hnew).1.mpr ?_⟩
  obtain ⟨back, hback⟩ := Option.isSome_iff_exists.mp hreread
  exact ((BoundedJson.reread_eq_some (fun _ => rfl) hread).mp hback).1

/-- A payload whose data is nested 33 levels deep is built, but does not come back. -/
theorem journal_payload_nested_refused : ∃ (data : BoundedJson) (payload : JournalPayload .reference),
    BoundedJson.tryFromValueWithLimits (.nested 32) .maximum = .ok data ∧
      JournalPayload.new ⟨⟨"schema"⟩, ⟨"1.0.0"⟩, ⟨[]⟩⟩ ⟨"node-completed"⟩ data = .ok payload ∧
      payload.reread = none := by
  have hsome : (Journal.Sample.payload (.nested 32)).any (fun sample =>
      sample.2.reread.isNone) = true := by decide +kernel
  obtain ⟨⟨data, payload⟩, hsample, hchecked⟩ := (Option.any_eq_true _ _).mp hsome
  simp only [Journal.Sample.payload, Option.bind_eq_bind, Option.bind_eq_some_iff,
    toOption_eq_some, pure, Option.some.injEq, Prod.mk.injEq] at hsample
  obtain ⟨_, hread, _, hnew, rfl, rfl⟩ := hsample
  exact ⟨_, _, hread, hnew, Option.isNone_iff_eq_none.mp hchecked⟩

end StateKnot
