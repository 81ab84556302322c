import StateKnot.Journal.Event
import StateKnot.JsonReading
import StateKnot.Lib.HashChain
import StateKnot.Reference

/-!
# Journal chain verification

`JournalChainVerifier` replays a journal, or a suffix of one after a trusted
head, without buffering it.  The module shows that the committing side and the
verifier agree, what an accepted sequence looks like, and that under faithful
encodings the head of an accepted sequence determines every event of it.
-/

namespace StateKnot

open Lib

variable {E : Encoding}

/-! ## Self-validating events -/

namespace JournalEvent

/-- The layers of an event fit together. -/
structure Valid (event : JournalEvent E) : Prop where
  previous : event.previousDigest = none ↔ event.sequence = .first
  payloadDigest : event.payload.digest = event.payloadDigest
  source : validateSourceScope event.tenantId event.runId event.source = .ok ()
  intentDigest : computeIntentDigest E event.tenantId event.runId event.eventId event.source
    event.payloadDigest = some event.intentDigest
  digest : computeEventDigest E event.tenantId event.runId event.sequence event.eventId
    event.recordedAt event.payloadDigest event.intentDigest event.previousDigest =
    some event.digest

theorem validate_eq_ok {event : JournalEvent E} {u : Unit} :
    event.validate = .ok u ↔ event.Valid := by
  unfold validate
  simp only [bind_eq_ok, reject_eq_ok, okOr_eq_ok, mapError_eq_ok, ne_eq, not_not]
  constructor
  · rintro ⟨_, hfirst, _, hother, _, hpayload, _, hsource, _, hintent, _, rfl, _, hdigest, rfl⟩
    refine ⟨?_, hpayload, hsource, hintent, hdigest⟩
    cases hprevious : event.previousDigest <;> simp_all
  · rintro ⟨hprevious, hpayload, hsource, hintent, hdigest⟩
    refine ⟨(), ?_, (), ?_, (), hpayload, (), hsource, _, hintent, (), rfl, _, hdigest, rfl⟩
    · cases h : event.previousDigest <;> simp_all
    · cases h : event.previousDigest <;> simp_all

/-- Events equal in every field, payload data up to its canonical form. -/
structure CanonicallyEqual (a b : JournalEvent E) : Prop where
  tenantId : a.tenantId = b.tenantId
  runId : a.runId = b.runId
  sequence : a.sequence = b.sequence
  eventId : a.eventId = b.eventId
  recordedAt : a.recordedAt = b.recordedAt
  source : a.source = b.source
  payload : a.payload.CanonicallyEqual b.payload
  payloadDigest : a.payloadDigest = b.payloadDigest
  intentDigest : a.intentDigest = b.intentDigest
  previousDigest : a.previousDigest = b.previousDigest
  digest : a.digest = b.digest

end JournalEvent

/-! ## Checksums determine what they cover -/

theorem JournalEventSource.rfc8785_inj {a b : JournalEventSource} :
    a.toJson.rfc8785 = b.toJson.rfc8785 ↔ a = b := by
  refine ⟨fun h => ?_, fun h => by rw [h]⟩
  have hkind := congrArg (Json.member "kind") h
  have hfence := congrArg (Json.member "fence") h
  clear h
  cases a <;> cases b <;> simp_all [toJson, Json.member_rfc8785, List.lookup]

section Integrity

theorem JournalPayload.canonicallyEqual_of_digest_eq (hE : E.Faithful) {a b : JournalPayload E}
    (hdigest : a.digest = b.digest) : a.CanonicallyEqual b := by
  -- The envelope is read before it is hashed; reading keeps the tree and its numbers.
  have henvelope : ∀ p : JournalPayload E, ∃ bytes json, E.toVec json = some bytes ∧
      E.sha256 bytes = p.digest ∧ json.rfc8785 = (payloadEnvelope p.schema p.kind p.data).rfc8785 ∧
      CanonicalJson.ijsonNumbers p.data.value = true := by
    intro p
    obtain ⟨canonical, hcanonical, hp⟩ := p.digest_eq
    simp only [canonicalPayload, CanonicalJson.new, bind_eq_ok, mapError_eq_ok, reject_eq_ok,
      okOr_eq_ok, BoundedJson.tryFromValueWithLimits_eq_ok] at hcanonical
    obtain ⟨_, ⟨hfits, rfl⟩, _, hnumbers, bytes, hbytes, hreturn⟩ := hcanonical
    cases hreturn
    rw [Json.ijsonNumbers_materialized] at hnumbers
    refine ⟨bytes, _, hbytes, hp, Json.rfc8785_materialized hfits.1, ?_⟩
    simp_all [payloadEnvelope, CanonicalJson.ijsonNumbers, CanonicalJson.ijsonMembers]
  obtain ⟨bytes, json, hbytes, hsha, hjson, hnumbers⟩ := henvelope a
  obtain ⟨bytes', json', hbytes', hsha', hjson', hnumbers'⟩ := henvelope b
  obtain rfl : bytes = bytes' := hE.sha256_injective (by rw [hsha, hsha', hdigest])
  have hsame := hE.determinesTrees hbytes hbytes'
  rw [hjson, hjson'] at hsame
  replace hsame := Json.values_of_rfc8785_eq hsame rfl (by simp)
  simp only [List.map_cons, List.map_nil, List.cons.injEq, SchemaReference.rfc8785_inj,
    Ident.rfc8785_inj, and_true] at hsame
  exact ⟨hsame.1, hsame.2.1, CanonicalJson.canonical_eq_of_rfc8785_eq hnumbers hnumbers' hsame.2.2⟩

/-- Equal intent checksums come from the same source and payload checksum. -/
theorem source_eq_of_intentDigest_eq (hE : E.Faithful) {a b : JournalEvent E}
    (ha : a.Valid) (hb : b.Valid) (hdigest : a.intentDigest = b.intentDigest) :
    a.source = b.source := by
  have htree := hE.rfc8785_of_digest_eq ha.intentDigest (hdigest ▸ hb.intentDigest)
  have hvalues := Json.values_of_rfc8785_eq htree rfl (by simp)
  simp only [List.map_cons, List.map_nil, List.cons.injEq,
    JournalEventSource.rfc8785_inj] at hvalues
  exact hvalues.2.2.2.1

theorem JournalEvent.canonicallyEqual_of_digest_eq (hE : E.Faithful) {a b : JournalEvent E}
    (ha : a.Valid) (hb : b.Valid) (hdigest : a.digest = b.digest) : a.CanonicallyEqual b := by
  have htree := hE.rfc8785_of_digest_eq ha.digest (hdigest ▸ hb.digest)
  have hvalues := Json.values_of_rfc8785_eq htree rfl (by simp)
  simp only [List.map_cons, List.map_nil, List.cons.injEq, Ident.rfc8785_inj,
    Ordinal.rfc8785_inj, Digest.rfc8785_inj,
    hE.timestampJson_rfc8785_inj, and_true] at hvalues
  obtain ⟨htenant, hrun, hsequence, hevent, hrecorded, hpayload, hintent, hprevious⟩ := hvalues
  exact {
    tenantId := htenant
    runId := hrun
    sequence := hsequence
    eventId := hevent
    recordedAt := hrecorded
    source := source_eq_of_intentDigest_eq hE ha hb hintent
    payload := JournalPayload.canonicallyEqual_of_digest_eq hE
      (ha.payloadDigest.trans (hpayload.trans hb.payloadDigest.symm))
    payloadDigest := hpayload
    intentDigest := hintent
    previousDigest := (Json.ofOption_str_rfc8785_inj Digest.text_injective).mp hprevious
    digest := hdigest }

end Integrity

/-! ## The verifier -/

/-- Streaming verifier: the most recently accepted head, if any. -/
structure JournalChainVerifier where
  head : Option JournalHead

inductive JournalChainError where
  | event (source : JournalEventError)
  | firstSequence (actual : JournalSequence)
  | tenantMismatch
  | runMismatch
  | sequenceOverflow
  | sequenceGap (expected actual : JournalSequence)
  | previousDigestMismatch
  | clockRegression (previous actual : Timestamp)

namespace JournalChainVerifier

/-- A verifier expecting the first event. -/
def new : JournalChainVerifier := ⟨none⟩

/-- A suffix verifier after a trusted head. -/
def after (head : JournalHead) : JournalChainVerifier := ⟨some head⟩

/-- The checks an event has to pass against the current head. -/
def accept (verifier : JournalChainVerifier) (event : JournalEvent E) :
    Except JournalChainError Unit := do
  event.validate.mapError .event
  match verifier.head with
  | none => reject (event.sequence ≠ .first) (.firstSequence event.sequence)
  | some head => do
    reject (event.tenantId ≠ head.tenantId) .tenantMismatch
    reject (event.runId ≠ head.runId) .runMismatch
    let expected ← okOr head.sequence.checkedNext .sequenceOverflow
    reject (event.sequence ≠ expected) (.sequenceGap expected event.sequence)
    reject (event.previousDigest ≠ some head.digest) .previousDigestMismatch
    reject (event.recordedAt < head.recordedAt)
      (.clockRegression head.recordedAt event.recordedAt)

/-- Verify the next event; the verifier moves only when the event is accepted. -/
def verifyNext (verifier : JournalChainVerifier) (event : JournalEvent E) :
    Except JournalChainError Unit × JournalChainVerifier :=
  match verifier.accept event with
  | .error error => (.error error, verifier)
  | .ok () => (.ok (), ⟨some event.head⟩)

/-- Feed events one by one, stopping at the first rejection. -/
def verifyAll (verifier : JournalChainVerifier) :
    List (JournalEvent E) → Except JournalChainError Unit × JournalChainVerifier
  | [] => (.ok (), verifier)
  | event :: events =>
    match verifier.verifyNext event with
    | (.error error, verifier) => (.error error, verifier)
    | (.ok (), verifier) => verifyAll verifier events

/-- Every event of the sequence is accepted in turn. -/
def Accepts (verifier : JournalChainVerifier) (events : List (JournalEvent E)) : Prop :=
  (verifier.verifyAll events).1 = .ok ()

end JournalChainVerifier

/-! ## What one accepted event looks like -/

/-- `event` is a valid successor of `head`, or a valid first event. -/
structure JournalEvent.Follows (event : JournalEvent E) (head : Option JournalHead) : Prop where
  valid : event.Valid
  sequence : event.sequence.value = head.elim 1 (fun h => h.sequence.value + 1)
  previous : event.previousDigest = head.map JournalHead.digest
  scope : ∀ h ∈ head, event.tenantId = h.tenantId ∧ event.runId = h.runId
  recordedAt : ∀ h ∈ head, h.recordedAt ≤ event.recordedAt

namespace JournalChainVerifier

theorem accept_eq_ok {verifier : JournalChainVerifier} {event : JournalEvent E} :
    verifier.accept event = .ok () ↔ event.Follows verifier.head := by
  unfold accept
  rw [bind_eq_ok]
  simp only [mapError_eq_ok, JournalEvent.validate_eq_ok]
  cases hhead : verifier.head with
  | none =>
    simp only [reject_eq_ok, ne_eq, not_not]
    constructor
    · rintro ⟨_, hvalid, hsequence⟩
      refine ⟨hvalid, by rw [hsequence]; rfl, hvalid.previous.mpr hsequence, ?_, ?_⟩ <;> simp
    · intro h
      exact ⟨(), h.valid, Ordinal.value_injective (by rw [h.sequence]; rfl)⟩
  | some head =>
    simp only [bind_eq_ok, reject_eq_ok, okOr_eq_ok, ne_eq, not_not, not_lt]
    constructor
    · rintro ⟨_, hvalid, _, htenant, _, hrun, expected, hexpected, _, rfl, _, hprevious, hclock⟩
      refine ⟨hvalid, Ordinal.checkedNext_eq_some.mp hexpected, hprevious, ?_, ?_⟩ <;>
        simp_all
    · intro h
      have hscope := h.scope head rfl
      exact ⟨(), h.valid, (), hscope.1, (), hscope.2, event.sequence,
        Ordinal.checkedNext_eq_some.mpr h.sequence, (), rfl, (), h.previous,
        h.recordedAt head rfl⟩

theorem verifyNext_error {verifier : JournalChainVerifier} {event : JournalEvent E}
    {error : JournalChainError} (h : (verifier.verifyNext event).1 = .error error) :
    (verifier.verifyNext event).2 = verifier := by
  unfold verifyNext at h ⊢
  split
  · rfl
  · simp_all

theorem accepts_nil (verifier : JournalChainVerifier) :
    verifier.Accepts ([] : List (JournalEvent E)) := rfl

theorem accepts_cons {verifier : JournalChainVerifier} {event : JournalEvent E}
    {events : List (JournalEvent E)} :
    verifier.Accepts (event :: events) ↔
      event.Follows verifier.head ∧ (after event.head).Accepts events := by
  rw [← accept_eq_ok]
  unfold Accepts
  rw [verifyAll, verifyNext]
  cases h : verifier.accept event with
  | error error => simp
  | ok u => simp [after]

end JournalChainVerifier

/-! ## Whole sequences -/

/-- The head after `events` were appended to a journal ending at `head`. -/
def headAfter (head : Option JournalHead) (events : List (JournalEvent E)) : Option JournalHead :=
  events.getLast?.elim head (fun event => some event.head)

@[simp] theorem headAfter_nil (head : Option JournalHead) :
    headAfter head ([] : List (JournalEvent E)) = head := rfl

@[simp] theorem headAfter_cons (head : Option JournalHead) (event : JournalEvent E)
    (events : List (JournalEvent E)) :
    headAfter head (event :: events) = headAfter (some event.head) events := by
  cases events with
  | nil => rfl
  | cons next events =>
    simp [headAfter, List.getLast?_eq_some_getLast]

namespace JournalChainVerifier

/-- Acceptance of a concatenation splits at any point: the suffix is checked by a
verifier started after the head of the prefix. -/
theorem accepts_append {verifier : JournalChainVerifier} {xs ys : List (JournalEvent E)} :
    verifier.Accepts (xs ++ ys) ↔
      verifier.Accepts xs ∧ (⟨headAfter verifier.head xs⟩ : JournalChainVerifier).Accepts ys := by
  induction xs generalizing verifier with
  | nil => simp [accepts_nil]
  | cons x xs ih =>
    rw [List.cons_append, accepts_cons, accepts_cons, ih, headAfter_cons, and_assoc]
    rfl

end JournalChainVerifier

/-- Shape of a sequence of events that extends a journal ending at `head`: contiguous
positions, one scope, a clock that does not go back, and digest links. -/
structure Contiguous (head : Option JournalHead) (events : List (JournalEvent E)) : Prop where
  sequences : events.map (fun e => e.sequence.value) =
    List.range' (head.elim 1 (fun h => h.sequence.value + 1)) events.length
  scope : ∀ h ∈ head, ∀ e ∈ events, e.tenantId = h.tenantId ∧ e.runId = h.runId
  oneScope : ∀ a ∈ events, ∀ b ∈ events, a.tenantId = b.tenantId ∧ a.runId = b.runId
  clock : events.Pairwise (fun a b => a.recordedAt ≤ b.recordedAt)
  clockAfter : ∀ h ∈ head, ∀ e ∈ events, h.recordedAt ≤ e.recordedAt
  links : events.IsChain (fun a b => b.previousDigest = some a.digest)
  valid : ∀ e ∈ events, e.Valid

/-- The shape of an accepted sequence, by induction over the sequence: each accepted
event is the head that the rest is contiguous after. -/
theorem contiguous_of_accepts {verifier : JournalChainVerifier} {events : List (JournalEvent E)}
    (h : verifier.Accepts events) : Contiguous verifier.head events := by
  induction events generalizing verifier with
  | nil => constructor <;> simp
  | cons event events ih =>
    obtain ⟨hfollows, hrest⟩ := JournalChainVerifier.accepts_cons.mp h
    have htail := ih hrest
    have hscope := htail.scope event.head rfl
    refine ⟨?_, ?_, ?_, ?_, ?_, ?_, ?_⟩
    · rw [List.map_cons, List.length_cons, List.range'_succ, hfollows.sequence, htail.sequences]
      simp [JournalChainVerifier.after, JournalEvent.head, hfollows.sequence]
    · intro head hhead e he
      rcases List.mem_cons.mp he with rfl | he
      · exact hfollows.scope head hhead
      · have hevent := hfollows.scope head hhead
        exact ⟨(hscope e he).1.trans hevent.1, (hscope e he).2.trans hevent.2⟩
    · intro a ha b hb
      have hsame : ∀ e ∈ event :: events, e.tenantId = event.tenantId ∧ e.runId = event.runId := by
        intro e he
        rcases List.mem_cons.mp he with rfl | he
        · exact ⟨rfl, rfl⟩
        · exact hscope e he
      exact ⟨(hsame a ha).1.trans (hsame b hb).1.symm, (hsame a ha).2.trans (hsame b hb).2.symm⟩
    · exact List.pairwise_cons.mpr ⟨htail.clockAfter event.head rfl, htail.clock⟩
    · intro head hhead e he
      rcases List.mem_cons.mp he with rfl | he
      · exact hfollows.recordedAt head hhead
      · exact (hfollows.recordedAt head hhead).trans (htail.clockAfter event.head rfl e he)
    · cases events with
      | nil => simp
      | cons next events =>
        have hnext := (JournalChainVerifier.accepts_cons.mp hrest).1
        exact List.isChain_cons_cons.mpr ⟨hnext.previous, htail.links⟩
    · intro e he
      rcases List.mem_cons.mp he with rfl | he
      · exact hfollows.valid
      · exact htail.valid e he

/-! ## Committed sequences are accepted -/

/-- `events` were committed one after another onto a journal ending at `head`. -/
inductive Committed : Option JournalHead → List (JournalEvent E) → Prop where
  | nil {head} : Committed head []
  | cons {head append recordedAt event events}
      (expectation : append.expectation = .ofHead head)
      (commit : JournalEvent.commit append recordedAt = .ok event)
      (rest : Committed (some event.head) events) : Committed head (event :: events)

theorem follows_of_commit {head : Option JournalHead} {append : JournalAppend E}
    {recordedAt : Timestamp} {event : JournalEvent E}
    (hexpectation : append.expectation = .ofHead head)
    (hcommit : JournalEvent.commit append recordedAt = .ok event) : event.Follows head := by
  have hscope := append.scope_ok
  unfold JournalEvent.commit at hcommit
  simp only [bind_eq_ok, okOr_eq_ok] at hcommit
  obtain ⟨⟨sequence, previous⟩, hposition, digest, hdigest, hevent⟩ := hcommit
  cases hevent
  rw [hexpectation] at hposition hscope
  cases head with
  | none =>
    cases hposition
    refine ⟨⟨by simp, rfl, append.intent.scope_ok, append.intent.digest_eq, hdigest⟩, rfl, rfl,
      by simp, by simp⟩
  | some head =>
    simp only [JournalExpectation.ofHead, JournalEvent.position, bind_eq_ok, reject_eq_ok,
      okOr_eq_ok, not_lt] at hposition
    obtain ⟨_, hclock, next, hnext, hreturn⟩ := hposition
    cases hreturn
    have hvalue := Ordinal.checkedNext_eq_some.mp hnext
    have hnotFirst : sequence ≠ .first := by
      rintro rfl
      have := head.sequence.lower
      simp only [JournalSequence.first] at hvalue
      omega
    have hscope := hscope head (by simp [JournalExpectation.ofHead, JournalExpectation.head])
    refine ⟨⟨by simpa using hnotFirst, rfl, append.intent.scope_ok, append.intent.digest_eq,
      hdigest⟩, hvalue, rfl, ?_, ?_⟩
    · simpa using ⟨hscope.1.symm, hscope.2.symm⟩
    · simpa using hclock

theorem Committed.accepts {head : Option JournalHead} {events : List (JournalEvent E)}
    (h : Committed head events) : (⟨head⟩ : JournalChainVerifier).Accepts events := by
  induction h with
  | nil => exact JournalChainVerifier.accepts_nil _
  | cons hexpectation hcommit _ ih =>
    exact JournalChainVerifier.accepts_cons.mpr ⟨follows_of_commit hexpectation hcommit, ih⟩

/-! ## The head determines the sequence -/

/-- Read newest first, an accepted journal is a hash chain down to its first event. -/
theorem linkedToRoot_reverse {events : List (JournalEvent E)}
    (h : JournalChainVerifier.new.Accepts events) :
    LinkedToRoot JournalEvent.digest JournalEvent.previousDigest events.reverse := by
  induction events using List.reverseRecOn with
  | nil => trivial
  | append_singleton events event ih =>
    obtain ⟨hevents, hevent⟩ := JournalChainVerifier.accepts_append.mp h
    have hfollows := (JournalChainVerifier.accepts_cons.mp hevent).1
    rw [List.reverse_append]
    refine ⟨?_, ih hevents⟩
    rw [hfollows.previous]
    cases hlast : events.getLast? with
    | none => simp [headAfter, hlast, JournalChainVerifier.new]
    | some last => simp [headAfter, hlast, JournalEvent.head]

/-- Under faithful encodings two accepted journals with one head agree event by event. -/
theorem forall₂_of_head_eq (hE : E.Faithful) {xs ys : List (JournalEvent E)}
    (hxs : JournalChainVerifier.new.Accepts xs) (hys : JournalChainVerifier.new.Accepts ys)
    (hhead : headAfter none xs = headAfter none ys) :
    List.Forall₂ JournalEvent.CanonicallyEqual xs ys := by
  have htip : xs.reverse.head?.map JournalEvent.digest = ys.reverse.head?.map JournalEvent.digest := by
    simp only [List.head?_reverse]
    simp only [headAfter] at hhead
    cases hx : xs.getLast? <;> cases hy : ys.getLast? <;>
      simp_all [JournalEvent.head]
  have hreverse := (linkedToRoot_reverse hxs).forall₂_of_tip_eq
    (fun (ha : JournalEvent.Valid _) (hb : JournalEvent.Valid _) =>
      JournalEvent.canonicallyEqual_of_digest_eq hE ha hb)
    (fun hsame => hsame.previousDigest) (linkedToRoot_reverse hys)
    (fun a ha => (contiguous_of_accepts hxs).valid a (List.mem_reverse.mp ha))
    (fun a ha => (contiguous_of_accepts hys).valid a (List.mem_reverse.mp ha)) htip
  simpa using List.forall₂_reverse_iff.mpr hreverse

/-- Journal chain integrity: commits are accepted, accepted sequences are contiguous
hash-linked journals, rejection changes nothing, a head determines its journal, and
verification can be resumed at any accepted head. -/
theorem journal_chain_integrity :
    (∀ events : List (JournalEvent E), Committed none events →
      JournalChainVerifier.new.Accepts events) ∧
    (∀ events : List (JournalEvent E), JournalChainVerifier.new.Accepts events →
      events.map (fun e => e.sequence.value) = List.range' 1 events.length ∧
      (∀ a ∈ events, ∀ b ∈ events, a.tenantId = b.tenantId ∧ a.runId = b.runId) ∧
      events.Pairwise (fun a b => a.recordedAt ≤ b.recordedAt) ∧
      events.IsChain (fun a b => b.previousDigest = some a.digest)) ∧
    (∀ (verifier : JournalChainVerifier) (event : JournalEvent E) (error : JournalChainError),
      (verifier.verifyNext event).1 = .error error → (verifier.verifyNext event).2 = verifier) ∧
    (E.Faithful → ∀ xs ys : List (JournalEvent E), JournalChainVerifier.new.Accepts xs →
      JournalChainVerifier.new.Accepts ys →
      xs.getLast?.map JournalEvent.head = ys.getLast?.map JournalEvent.head →
      List.Forall₂ JournalEvent.CanonicallyEqual xs ys) ∧
    (∀ (xs ys : List (JournalEvent E)) (last : JournalEvent E), xs.getLast? = some last →
      JournalChainVerifier.new.Accepts xs →
      ((JournalChainVerifier.after last.head).Accepts ys ↔
        JournalChainVerifier.new.Accepts (xs ++ ys))) := by
  refine ⟨fun events h => h.accepts, fun events h => ?_,
    fun verifier event error h => JournalChainVerifier.verifyNext_error h,
    fun hE xs ys hxs hys hhead => ?_, fun xs ys last hlast hxs => ?_⟩
  · have hcontiguous := contiguous_of_accepts h
    exact ⟨hcontiguous.sequences, hcontiguous.oneScope, hcontiguous.clock, hcontiguous.links⟩
  · refine forall₂_of_head_eq hE hxs hys ?_
    unfold headAfter
    cases hx : xs.getLast? <;> cases hy : ys.getLast? <;> simp_all
  · rw [JournalChainVerifier.accepts_append]
    simp [hxs, headAfter, hlast, JournalChainVerifier.after]

/-- An append of a small control-plane event under the reference encoding. -/
def sampleAppend (head : Option JournalHead) (eventId : EventId) :
    Option (JournalAppend .reference) := do
  let payload ← (JournalPayload.new ⟨⟨"schema"⟩, ⟨"1.0.0"⟩, ⟨[]⟩⟩ ⟨"run-admitted"⟩
    ⟨.null, ⟨4, 0, 1⟩⟩).toOption
  let intent ←
    (JournalEventIntent.fromParts ⟨"tenant"⟩ ⟨"run"⟩ eventId .controlPlane payload).toOption
  (JournalAppend.new (.ofHead head) intent).toOption

/-- Two events committed one after the other. -/
def sampleJournal : Option (List (JournalEvent .reference)) := do
  let append ← sampleAppend none ⟨"first"⟩
  let event ← (JournalEvent.commit append (.ofMicros 0)).toOption
  let append ← sampleAppend (some event.head) ⟨"second"⟩
  let next ← (JournalEvent.commit append (.ofMicros 1)).toOption
  return [event, next]

private theorem sampleAppend_expectation {head : Option JournalHead} {eventId : EventId}
    {append : JournalAppend .reference} (h : sampleAppend head eventId = some append) :
    append.expectation = .ofHead head := by
  unfold sampleAppend at h
  simp only [Option.bind_eq_bind, Option.bind_eq_some_iff, toOption_eq_some] at h
  obtain ⟨_, _, _, _, happend⟩ := h
  exact (JournalAppend.new_eq_ok happend).1

private theorem sampleJournal_committed {events : List (JournalEvent .reference)}
    (h : sampleJournal = some events) : events.length = 2 ∧ Committed none events := by
  unfold sampleJournal at h
  simp only [Option.bind_eq_bind, Option.bind_eq_some_iff, toOption_eq_some, pure] at h
  obtain ⟨append, happend, event, hevent, append', happend', next, hnext, hreturn⟩ := h
  cases hreturn
  exact ⟨rfl, .cons (sampleAppend_expectation happend) hevent
    (.cons (sampleAppend_expectation happend') hnext .nil)⟩

/-- The reference encoding is faithful, two events can be committed under it, and the
head of that journal admits no other journal. -/
theorem journal_chain_integrity_reference :
    Encoding.reference.Faithful ∧ ∃ events : List (JournalEvent .reference),
      events.length = 2 ∧ Committed none events ∧ JournalChainVerifier.new.Accepts events ∧
      ∀ ys, JournalChainVerifier.new.Accepts ys →
        events.getLast?.map JournalEvent.head = ys.getLast?.map JournalEvent.head →
        List.Forall₂ JournalEvent.CanonicallyEqual events ys := by
  have hsome : sampleJournal.isSome = true := by decide +kernel
  obtain ⟨events, hevents⟩ := Option.isSome_iff_exists.mp hsome
  obtain ⟨hlength, hcommitted⟩ := sampleJournal_committed hevents
  obtain ⟨haccepts, _, _, hunique, _⟩ := journal_chain_integrity (E := .reference)
  exact ⟨Encoding.reference_faithful, events, hlength, hcommitted, haccepts events hcommitted,
    fun ys hys hhead => hunique Encoding.reference_faithful events ys (haccepts events hcommitted)
      hys hhead⟩

end StateKnot
