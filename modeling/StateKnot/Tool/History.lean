import StateKnot.Lib.Spans
import StateKnot.Reference
import StateKnot.Tool.Invocation

/-!
# Histories of tool invocations

The verifier reads the records of an invocation one after another and accepts each
only as the exact successor of the one before.  Every check looks at one
predecessor.  What holds over a whole accepted history comes from an abstract
machine: `EffectState` keeps of a state what decides about effects, `EffectStep`
says how it moves, and an accepted record is one step of it.
-/

namespace StateKnot

open Lib

variable {E : Encoding}

/-! ## The verifier -/

inductive ToolInvocationHistoryError where
  | firstRecordNotInitial (actual : ToolInvocationRevision)
  | intentMismatch
  | previousHeadMismatch
  | transitionMissing
  | transition (source : ToolInvocationError)
  | recordMismatch
  | integrity (source : ToolInvocationIntegrityError)

structure ToolInvocationHistoryVerifier (E : Encoding) where
  last : Option (ToolInvocation E)

/-- The checks of `verify_next` on a record after the first. -/
def validateSuccessorRecord (previous record : ToolInvocation E) :
    Except ToolInvocationHistoryError Unit := do
  reject (record.intent ≠ previous.intent) .intentMismatch
  reject (record.previous ≠ some previous.head) .previousHeadMismatch
  let transition ← okOr record.transition .transitionMissing
  let expected ← (previous.advance transition record.journalHead).mapError .transition
  let equal ← (canonicalEqual E expected.toJson record.toJson).mapError .integrity
  reject (!equal) .recordMismatch

namespace ToolInvocationHistoryVerifier

def new : ToolInvocationHistoryVerifier E := ⟨none⟩

/-- The outcome of `verify_next` and the verifier it leaves behind. -/
def verifyNext (verifier : ToolInvocationHistoryVerifier E) (record : ToolInvocation E) :
    Except ToolInvocationHistoryError Unit × ToolInvocationHistoryVerifier E :=
  match verifier.last with
  | none =>
    if record.revision ≠ .initial then (.error (.firstRecordNotInitial record.revision), verifier)
    else (.ok (), ⟨some record⟩)
  | some previous =>
    match validateSuccessorRecord previous record with
    | .error error => (.error error, verifier)
    | .ok () => (.ok (), ⟨some record⟩)

/-- Records verified one after another, up to the first rejection. -/
def verifyAll (verifier : ToolInvocationHistoryVerifier E) :
    List (ToolInvocation E) →
      Except ToolInvocationHistoryError Unit × ToolInvocationHistoryVerifier E
  | [] => (.ok (), verifier)
  | record :: records =>
    match verifier.verifyNext record with
    | (.error error, verifier) => (.error error, verifier)
    | (.ok (), verifier) => verifier.verifyAll records

end ToolInvocationHistoryVerifier

/-! ## The abstract machine -/

/-- What an invocation's state says about attempts and their effects. -/
inductive EffectState where
  | prepared
  | executing (attemptId : AttemptId)
  | committed (attemptId : AttemptId)
  | failed (attemptId : AttemptId) (effect : ToolExternalEffect) (advice : RetryAdvice)
  | unknown (attemptId : AttemptId)

/-- The moves of the machine for a tool of a risk, `elapsed` microseconds after the last one. -/
inductive EffectStep (risk : ToolRisk) (elapsed : Int) :
    ToolInvocationTransitionKind → EffectState → EffectState → Prop
  | start {attemptId : AttemptId} :
    EffectStep risk elapsed .startAttempt .prepared (.executing attemptId)
  | retry {failedId attemptId : AttemptId} {effect : ToolExternalEffect} {delay : DurationMillis}
    (hfresh : failedId ≠ attemptId) (hsafe : retryIsSafe risk effect)
    (helapsed : delay.millis * 1000 ≤ elapsed) :
    EffectStep risk elapsed .startAttempt (.failed failedId effect (.safeAfter delay))
      (.executing attemptId)
  | recordResult {attemptId : AttemptId} :
    EffectStep risk elapsed .recordResult (.executing attemptId) (.committed attemptId)
  | recordFailure {attemptId : AttemptId} {effect : ToolExternalEffect} {advice : RetryAdvice} :
    EffectStep risk elapsed .recordError (.executing attemptId) (.failed attemptId effect advice)
  | recordUnknown {attemptId : AttemptId} :
    EffectStep risk elapsed .recordError (.executing attemptId) (.unknown attemptId)
  | reconcileResult {attemptId : AttemptId} :
    EffectStep risk elapsed .reconcileResult (.unknown attemptId) (.committed attemptId)
  | reconcileFailure {attemptId : AttemptId} {effect : ToolExternalEffect} {advice : RetryAdvice} :
    EffectStep risk elapsed .reconcileError (.unknown attemptId) (.failed attemptId effect advice)
  | reconcileUnknown {attemptId : AttemptId} :
    EffectStep risk elapsed .reconcileError (.unknown attemptId) (.unknown attemptId)

namespace EffectState

def status : EffectState → ToolInvocationStatus
  | .prepared => .prepared
  | .executing _ => .executing
  | .committed _ => .committed
  | .failed _ _ _ => .failed
  | .unknown _ => .unknown

def attemptId : EffectState → Option AttemptId
  | .prepared => none
  | .executing attemptId => some attemptId
  | .committed attemptId => some attemptId
  | .failed attemptId _ _ => some attemptId
  | .unknown attemptId => some attemptId

end EffectState

namespace EffectStep

variable {risk : ToolRisk} {elapsed : Int} {kind : ToolInvocationTransitionKind}
  {before next : EffectState}

variable (h : EffectStep risk elapsed kind before next)

include h

theorem status_ne_committed :
    before.status ≠ .committed := by
  cases h <;> simp [EffectState.status]

/-- An attempt starts from the prepared state or from a failure that allows it. -/
theorem of_executing (hnext : next.status = .executing) :
    before = .prepared ∨ ∃ failedId effect delay,
      before = .failed failedId effect (.safeAfter delay) ∧ retryIsSafe risk effect ∧
      delay.millis * 1000 ≤ elapsed := by
  cases h with
  | start => exact .inl rfl
  | retry _ hsafe helapsed => exact .inr ⟨_, _, _, rfl, hsafe, helapsed⟩
  | recordResult | recordFailure | recordUnknown => cases hnext
  | reconcileResult | reconcileFailure | reconcileUnknown => cases hnext

theorem executing_iff :
    next.status = .executing ↔ kind = .startAttempt := by
  cases h <;> simp [EffectState.status]

/-- An unknown outcome is left by reconciling the same attempt. -/
theorem of_unknown (hbefore : before.status = .unknown) :
    next.attemptId = before.attemptId ∧ (kind = .reconcileResult ∨ kind = .reconcileError) := by
  cases h with
  | start | retry | recordResult | recordFailure | recordUnknown => cases hbefore
  | reconcileResult => exact ⟨rfl, .inl rfl⟩
  | reconcileFailure | reconcileUnknown => exact ⟨rfl, .inr rfl⟩

end EffectStep

/-- What a state says about attempts and effects. -/
def ToolInvocationState.effectState : ToolInvocationState E → EffectState
  | .prepared => .prepared
  | .executing attemptId => .executing attemptId
  | .committed result => .committed result.provenance.attemptId
  | .failed error =>
    .failed error.provenance.attemptId error.externalEffect error.failure.retryAdvice
  | .unknown error => .unknown error.provenance.attemptId

namespace ToolInvocationState

@[simp] theorem status_effectState (state : ToolInvocationState E) :
    state.effectState.status = state.status := by
  cases state <;> rfl

@[simp] theorem attemptId_effectState (state : ToolInvocationState E) :
    state.effectState.attemptId = state.attemptId := by
  cases state <;> rfl

theorem eq_failed_of_effectState {state : ToolInvocationState E} {attemptId : AttemptId}
    {effect : ToolExternalEffect} {advice : RetryAdvice}
    (h : state.effectState = .failed attemptId effect advice) :
    ∃ error, state = .failed error ∧ error.externalEffect = effect ∧
      error.failure.retryAdvice = advice := by
  cases state with
  | failed error =>
    cases h
    exact ⟨error, rfl, rfl, rfl⟩
  | _ => cases h

end ToolInvocationState

/-- The steps that an error can take, recorded or found by reconciliation. -/
theorem EffectStep.of_stateFromError {risk : ToolRisk} {elapsed : Int}
    {kind : ToolInvocationTransitionKind} {state : EffectState} {attemptId : AttemptId}
    {error : ToolError} (hattempt : error.provenance.attemptId = attemptId)
    (hfailed : ∀ effect advice, EffectStep risk elapsed kind state
      (.failed attemptId effect advice))
    (hunknown : EffectStep risk elapsed kind state (.unknown attemptId)) :
    EffectStep risk elapsed kind state (stateFromError error : ToolInvocationState E).effectState := by
  unfold stateFromError
  by_cases heffect : error.externalEffect = .unknown
  · rw [if_pos heffect, ToolInvocationState.effectState, hattempt]
    exact hunknown
  · rw [if_neg heffect, ToolInvocationState.effectState, hattempt]
    exact hfailed _ _

theorem ToolInvocation.Applies.effectStep {invocation : ToolInvocation E}
    {recordedAt : Timestamp} {transition : ToolInvocationTransition E}
    {state : ToolInvocationState E} (h : invocation.Applies recordedAt transition state) :
    EffectStep invocation.intent.risk
      (recordedAt.micros - invocation.journalHead.recordedAt.micros) transition.kind
      invocation.state.effectState state.effectState := by
  cases h with
  | start hstate =>
    rw [hstate]
    exact .start
  | retry hstate hfresh hretry =>
    obtain ⟨delay, hadvice, hsafe, helapsed⟩ := ToolInvocation.validateRetry_eq_ok.mp hretry
    rw [hstate]
    simp only [ToolInvocationState.effectState, hadvice]
    exact .retry hfresh hsafe (by omega)
  | recordResult hstate hbinding =>
    rw [hstate, ToolInvocationState.effectState, ToolInvocationState.effectState,
      validateResultBinding_attemptId hbinding]
    exact .recordResult
  | recordError hstate hbinding =>
    rw [hstate]
    exact .of_stateFromError (validateErrorBinding_attemptId hbinding)
      (fun _ _ => .recordFailure) .recordUnknown
  | reconcileResult hstate hbinding =>
    rw [hstate, ToolInvocationState.effectState, ToolInvocationState.effectState,
      validateResultBinding_attemptId hbinding]
    exact .reconcileResult
  | reconcileError hstate hbinding =>
    rw [hstate]
    exact .of_stateFromError (validateErrorBinding_attemptId hbinding)
      (fun _ _ => .reconcileFailure) .reconcileUnknown

/-! ## What canonical bytes say about a state

The verifier compares a record with the successor it computes by canonical bytes, so
the recorded state may differ from the computed one in numbers that print alike.
It has the same attempt, effect and advice. -/

theorem DurationMillis.rfc8785_inj {a b : DurationMillis} :
    a.toJson.rfc8785 = b.toJson.rfc8785 ↔ a = b := by
  cases a
  cases b
  simp [toJson, Nat.repr_inj]

theorem RetryAdvice.eq_of_rfc8785_eq {a b : RetryAdvice}
    (h : a.toJson.rfc8785 = b.toJson.rfc8785) : a = b := by
  have hkind := congrArg (Json.member "kind") h
  have hdelay := congrArg (Json.member "delay") h
  cases a <;> cases b <;>
    simp [toJson, Json.member_rfc8785, List.lookup, DurationMillis.rfc8785_inj] at hkind hdelay ⊢
  exact hdelay

theorem Failure.member_retryAdvice (failure : Failure) :
    failure.toJson.rfc8785.member "retry_advice" = some failure.retryAdvice.toJson.rfc8785 := by
  unfold toJson
  cases failure.details <;> cases failure.causedByEventId <;>
    simp [Json.optionalMember, Json.member_rfc8785, List.lookup]

theorem ToolProvenance.member_attemptId (provenance : ToolProvenance) :
    provenance.toJson.rfc8785.member "attempt_id" = some provenance.attemptId.toJson.rfc8785 := by
  simp [toJson, Json.member_rfc8785, List.lookup]

theorem ToolResult.member_provenance (result : ToolResult E) :
    result.toJson.rfc8785.member "provenance" = some result.provenance.toJson.rfc8785 := by
  simp [toJson, Json.member_rfc8785, List.lookup]

theorem ToolError.members (error : ToolError) :
    error.toJson.rfc8785.member "provenance" = some error.provenance.toJson.rfc8785 ∧
      error.toJson.rfc8785.member "external_effect" = some (.str error.externalEffect.text) ∧
      error.toJson.rfc8785.member "failure" = some error.failure.toJson.rfc8785 := by
  unfold toJson
  cases error.recoveryHandle <;> simp [Json.optionalMember, Json.member_rfc8785, List.lookup]

theorem ToolProvenance.attemptId_eq_of_rfc8785_eq {a b : ToolProvenance}
    (h : a.toJson.rfc8785 = b.toJson.rfc8785) : a.attemptId = b.attemptId := by
  have hmember := congrArg (Json.member "attempt_id") h
  rw [member_attemptId, member_attemptId, Option.some.injEq, Ident.rfc8785_inj] at hmember
  exact hmember

theorem ToolResult.attemptId_eq_of_rfc8785_eq {a b : ToolResult E}
    (h : a.toJson.rfc8785 = b.toJson.rfc8785) :
    a.provenance.attemptId = b.provenance.attemptId := by
  have hmember := congrArg (Json.member "provenance") h
  rw [member_provenance, member_provenance, Option.some.injEq] at hmember
  exact ToolProvenance.attemptId_eq_of_rfc8785_eq hmember

theorem ToolError.effect_eq_of_rfc8785_eq {a b : ToolError}
    (h : a.toJson.rfc8785 = b.toJson.rfc8785) :
    a.provenance.attemptId = b.provenance.attemptId ∧ a.externalEffect = b.externalEffect ∧
      a.failure.retryAdvice = b.failure.retryAdvice := by
  obtain ⟨hprovenance, heffect, hfailure⟩ := members a
  obtain ⟨hprovenance', heffect', hfailure'⟩ := members b
  rw [h] at hprovenance heffect hfailure
  have hadvice := congrArg (Json.member "retry_advice")
    (Option.some.inj (hfailure.symm.trans hfailure'))
  rw [Failure.member_retryAdvice, Failure.member_retryAdvice, Option.some.injEq] at hadvice
  refine ⟨ToolProvenance.attemptId_eq_of_rfc8785_eq
    (Option.some.inj (hprovenance.symm.trans hprovenance')), ?_,
    RetryAdvice.eq_of_rfc8785_eq hadvice⟩
  exact ToolExternalEffect.text_injective
    (Json.str.inj (Option.some.inj (heffect.symm.trans heffect')))

namespace ToolInvocationState

theorem member_toJson (state : ToolInvocationState E) (key : String) :
    state.toJson.rfc8785.member key =
      ((("status", Json.str state.status.text) :: state.payload).lookup key).map Json.rfc8785 := by
  apply Json.member_rfc8785
  cases state <;> simp [payload]

theorem status_eq_of_rfc8785_eq {a b : ToolInvocationState E}
    (h : a.toJson.rfc8785 = b.toJson.rfc8785) : a.status = b.status := by
  have hmember := congrArg (Json.member "status") h
  rw [member_toJson, member_toJson] at hmember
  simp only [List.lookup_cons, beq_self_eq_true, Option.map_some, Json.rfc8785_str,
    Option.some.injEq, Json.str.injEq] at hmember
  generalize a.status = s at hmember
  generalize b.status = t at hmember
  cases s <;> cases t <;> first | rfl | (revert hmember; decide)

/-- States with the same canonical bytes say the same about attempts and effects. -/
theorem effectState_eq_of_rfc8785_eq {a b : ToolInvocationState E}
    (h : a.toJson.rfc8785 = b.toJson.rfc8785) : a.effectState = b.effectState := by
  have hstatus := status_eq_of_rfc8785_eq h
  -- the one field next to the tag; its name depends on the state
  have hfield : ∀ key, _ := fun key => congrArg (Json.member key) h
  simp only [member_toJson] at hfield
  cases a with
  | prepared =>
    cases b with
    | prepared => rfl
    | _ => cases hstatus
  | executing attemptId =>
    cases b with
    | executing attemptId' =>
      have hattempt : attemptId = attemptId' := by
        simpa [payload, List.lookup, Ident.rfc8785_inj] using hfield "attempt_id"
      rw [hattempt]
    | _ => cases hstatus
  | committed result =>
    cases b with
    | committed result' =>
      have hresult : result.toJson.rfc8785 = result'.toJson.rfc8785 := by
        simpa [payload, List.lookup] using hfield "result"
      rw [effectState, effectState, ToolResult.attemptId_eq_of_rfc8785_eq hresult]
    | _ => cases hstatus
  | failed error =>
    cases b with
    | failed error' =>
      have herror : error.toJson.rfc8785 = error'.toJson.rfc8785 := by
        simpa [payload, List.lookup] using hfield "error"
      obtain ⟨hattempt, heffect, hadvice⟩ := ToolError.effect_eq_of_rfc8785_eq herror
      rw [effectState, effectState, hattempt, heffect, hadvice]
    | _ => cases hstatus
  | unknown error =>
    cases b with
    | unknown error' =>
      have herror : error.toJson.rfc8785 = error'.toJson.rfc8785 := by
        simpa [payload, List.lookup] using hfield "error"
      rw [effectState, effectState, (ToolError.effect_eq_of_rfc8785_eq herror).1]
    | _ => cases hstatus

end ToolInvocationState

/-! ## One accepted record -/

theorem ToolInvocation.member_toJson (record : ToolInvocation E) (key : String) :
    record.toJson.rfc8785.member key = (record.members.lookup key).map Json.rfc8785 := by
  apply Json.member_rfc8785
  unfold members
  cases record.previous <;> cases record.transition <;> cases record.transitionDigest <;>
    simp [Json.optionalMember]

theorem canonicalEqual_eq_ok (hE : E.DeterminesTrees) {left right : Json}
    (h : canonicalEqual E left right = .ok true) : left.rfc8785 = right.rfc8785 := by
  simp only [canonicalEqual, bind_eq_ok, okOr_eq_ok, pure_eq_ok,
    decide_eq_true_eq] at h
  obtain ⟨leftBytes, hleft, rightBytes, hright, heq⟩ := h
  rw [← heq] at hright
  exact hE hleft hright

namespace ToolInvocation

/-- `next` may come right after `previous` in a history. -/
structure Precedes (previous next : ToolInvocation E) : Prop where
  intent_eq : next.intent = previous.intent
  revision_eq : next.revision.value = previous.revision.value + 1
  sequence_lt : previous.journalHead.sequence < next.journalHead.sequence
  recordedAt_le : previous.journalHead.recordedAt ≤ next.journalHead.recordedAt
  step : ∃ transition, next.transition = some transition ∧
    EffectStep next.intent.risk
      (next.journalHead.recordedAt.micros - previous.journalHead.recordedAt.micros)
      transition.kind previous.state.effectState next.state.effectState

/-- An accepted record is a step of the machine after its predecessor. -/
theorem precedes_of_validateSuccessorRecord (hE : E.DeterminesTrees)
    {previous next : ToolInvocation E} {u : Unit}
    (h : validateSuccessorRecord previous next = .ok u) : previous.Precedes next := by
  simp only [validateSuccessorRecord, bind_eq_ok, reject_eq_ok, okOr_eq_ok, mapError_eq_ok,
    exists_const, not_not, Bool.not_eq_true, Bool.not_eq_false'] at h
  obtain ⟨hintent, _, transition, htransition, expected, hexpected, _, hequal, rfl⟩ := h
  obtain ⟨_, hrevision, _, _, _, hsequence, hclock, happlies⟩ := advances_of_advance hexpected
  have htree := canonicalEqual_eq_ok hE hequal
  have hstate : expected.state.toJson.rfc8785 = next.state.toJson.rfc8785 := by
    have hmember := congrArg (Json.member "state") htree
    rw [member_toJson, member_toJson] at hmember
    simpa [members, List.lookup] using hmember
  have hvalue : expected.revision = next.revision := by
    have hmember := congrArg (Json.member "revision") htree
    rw [member_toJson, member_toJson] at hmember
    simpa [members, List.lookup, Ordinal.toJson, Nat.repr_inj,
      Ordinal.value_injective.eq_iff] using hmember
  refine ⟨hintent, hvalue ▸ hrevision, hsequence, hclock, transition, htransition, ?_⟩
  rw [hintent, ← ToolInvocationState.effectState_eq_of_rfc8785_eq hstate]
  exact happlies.effectStep

end ToolInvocation

namespace ToolInvocationHistoryVerifier

theorem verifyNext_error {verifier next : ToolInvocationHistoryVerifier E}
    {record : ToolInvocation E} {error : ToolInvocationHistoryError}
    (h : verifier.verifyNext record = (.error error, next)) : next = verifier := by
  unfold verifyNext at h
  split at h
  · split at h
    · exact (Prod.mk.inj h).2.symm
    · cases (Prod.mk.inj h).1
  · split at h
    · exact (Prod.mk.inj h).2.symm
    · cases (Prod.mk.inj h).1

/-- An accepted record becomes the last one; it is the initial record or follows the last. -/
theorem verifyNext_ok (hE : E.DeterminesTrees) {verifier next : ToolInvocationHistoryVerifier E}
    {record : ToolInvocation E} {u : Unit} (h : verifier.verifyNext record = (.ok u, next)) :
    next = ⟨some record⟩ ∧ (verifier.last = none → record.revision = .initial) ∧
      ∀ previous, verifier.last = some previous → previous.Precedes record := by
  unfold verifyNext at h
  split at h
  next hlast =>
    split at h
    · cases (Prod.mk.inj h).1
    · rename_i hinitial
      rw [hlast]
      exact ⟨(Prod.mk.inj h).2.symm, fun _ => not_not.mp hinitial, fun _ h => (nomatch h)⟩
  next previous hlast =>
    split at h
    · cases (Prod.mk.inj h).1
    · rename_i hchecked
      rw [hlast]
      refine ⟨(Prod.mk.inj h).2.symm, fun h => (nomatch h), ?_⟩
      intro last hsame
      cases hsame
      exact ToolInvocation.precedes_of_validateSuccessorRecord hE hchecked

/-- Over a run, the accepted records form a chain after the verifier's last record. -/
theorem isChain_of_verifyAll (hE : E.DeterminesTrees) {records : List (ToolInvocation E)} :
    ∀ {verifier next : ToolInvocationHistoryVerifier E} {u : Unit},
      verifier.verifyAll records = (.ok u, next) →
      (verifier.last.toList ++ records).IsChain ToolInvocation.Precedes ∧
        (verifier.last = none → ∀ first ∈ records.head?, first.revision = .initial) := by
  induction records with
  | nil =>
    intro verifier next u _
    refine ⟨?_, fun _ first h => by cases h⟩
    cases verifier.last <;> simp
  | cons record records ih =>
    intro verifier next u h
    rw [verifyAll] at h
    split at h
    · cases (Prod.mk.inj h).1
    next following hnext =>
      obtain ⟨rfl, hinitial, hprecedes⟩ := verifyNext_ok hE hnext
      obtain ⟨hchain, _⟩ := ih h
      constructor
      · cases hlast : verifier.last with
        | none => exact hchain
        | some previous => exact .cons_cons (hprecedes previous hlast) hchain
      · intro hlast first hfirst
        cases hfirst
        exact hinitial hlast

end ToolInvocationHistoryVerifier

/-! ## Recorded histories are accepted -/

theorem validateSuccessorRecord_of_advance
    (htotal : ∀ json, (E.toVec json).isSome) {previous next : ToolInvocation E}
    {transition : ToolInvocationTransition E} {journalHead : JournalHead}
    (h : previous.advance transition journalHead = .ok next) :
    validateSuccessorRecord previous next = .ok () := by
  have hadvances := ToolInvocation.advances_of_advance h
  obtain ⟨bytes, hbytes⟩ := Option.isSome_iff_exists.mp (htotal next.toJson)
  have hequal : canonicalEqual E next.toJson next.toJson = .ok true := by
    simp [canonicalEqual, hbytes, okOr, pure, Except.pure]
  simp only [validateSuccessorRecord, bind_eq_ok, reject_eq_ok, okOr_eq_ok, mapError_eq_ok,
    exists_const, not_not]
  refine ⟨hadvances.intent_eq, hadvances.previous_eq, transition, hadvances.transition_eq, next,
    ?_, true, hequal, by simp⟩
  rw [hadvances.journalHead_eq]
  exact h

/-- A history that was recorded step by step from an initial record is accepted. -/
theorem ToolInvocationHistoryVerifier.verifyAll_of_isChain
    (htotal : ∀ json, (E.toVec json).isSome) {records : List (ToolInvocation E)} :
    ∀ {verifier : ToolInvocationHistoryVerifier E},
      (verifier.last.toList ++ records).IsChain (fun previous next =>
        ∃ transition journalHead, previous.advance transition journalHead = .ok next) →
      (verifier.last = none → ∀ first ∈ records.head?, first.revision = .initial) →
      ∃ next, verifier.verifyAll records = (.ok (), next) := by
  induction records with
  | nil => exact fun _ _ => ⟨_, rfl⟩
  | cons record records ih =>
    intro verifier hchain hfirst
    have haccepted : verifier.verifyNext record = (.ok (), ⟨some record⟩) := by
      unfold verifyNext
      split
      next hlast => rw [if_neg (not_not.mpr (hfirst hlast record rfl))]
      next previous hlast =>
        rw [hlast] at hchain
        obtain ⟨transition, journalHead, hadvance⟩ := (List.isChain_cons_cons.mp hchain).1
        rw [validateSuccessorRecord_of_advance htotal hadvance]
    rw [verifyAll, haccepted]
    apply ih
    · cases hlast : verifier.last with
      | none =>
        rw [hlast] at hchain
        exact hchain
      | some previous =>
        rw [hlast] at hchain
        exact (List.isChain_cons_cons.mp hchain).2
    · intro hlast
      cases hlast

/-! ## Accepted histories -/

namespace ToolInvocation

/-- The record opens an attempt. -/
def StartsAttempt (record : ToolInvocation E) : Prop := record.status = .executing

/-- The record says that its attempt changed the world. -/
def TookEffect (record : ToolInvocation E) : Prop :=
  record.status = .committed ∨
    ∃ error, record.state = .failed error ∧ error.externalEffect = .applied

/-- What holds of a whole accepted history.  An attempt is the span from the record that opens
it to the last one before the next attempt. -/
structure SafeHistory (records : List (ToolInvocation E)) : Prop where
  revisions : records.map (·.revision.value) = List.range records.length
  one_intent : ∀ a ∈ records, ∀ b ∈ records, a.intent = b.intent
  sequences_increase : records.Pairwise (fun a b => a.journalHead.sequence < b.journalHead.sequence)
  clock_monotone : records.Pairwise
    (fun a b => a.journalHead.recordedAt ≤ b.journalHead.recordedAt)
  committed_final : ∀ (k : Nat) (record next : ToolInvocation E), records[k]? = some record →
    records[k + 1]? = some next → record.status ≠ .committed
  /-- The records that open attempts are those of a start transition. -/
  startsAttempt_iff : ∀ record ∈ records,
    record.StartsAttempt ↔ ∃ attemptId, record.transition = some (.startAttempt attemptId)
  started_from : ∀ (k : Nat) (record next : ToolInvocation E), records[k]? = some record →
    records[k + 1]? = some next → next.StartsAttempt →
    record.status = .prepared ∨ record.status = .failed
  unknown_reconciled : ∀ (k : Nat) (record next : ToolInvocation E), records[k]? = some record →
    records[k + 1]? = some next → record.status = .unknown →
    next.attemptId = record.attemptId ∧ ∃ transition, next.transition = some transition ∧
      (transition.kind = .reconcileResult ∨ transition.kind = .reconcileError)
  retry_authorized : ∀ (i j : Nat) (earlier later : ToolInvocation E), i < j + 1 →
    records[i]? = some earlier → earlier.StartsAttempt →
    records[j + 1]? = some later → later.StartsAttempt →
    ∃ (record : ToolInvocation E) (error : ToolError) (delay : DurationMillis),
      records[j]? = some record ∧ record.state = .failed error ∧
      error.failure.retryAdvice = .safeAfter delay ∧
      record.journalHead.recordedAt.micros + (delay.millis : Int) * 1000 ≤
        later.journalHead.recordedAt.micros
  followed_harmless : ∀ (first last : Nat) (record next : ToolInvocation E),
    Span StartsAttempt records first last →
    records[last]? = some record → records[last + 1]? = some next →
    record.intent.risk = .nonIdempotentWrite →
    ∃ error, record.state = .failed error ∧
      (error.externalEffect = .notStarted ∨ error.externalEffect = .notApplied)
  at_most_once : (∀ record ∈ records, record.intent.risk = .nonIdempotentWrite) →
    ∀ (first last first' last' : Nat), Span StartsAttempt records first last →
    Span StartsAttempt records first' last' →
    (∀ record : ToolInvocation E, records[last]? = some record → record.TookEffect) →
    (∀ record : ToolInvocation E, records[last']? = some record → record.TookEffect) →
    first = first'

namespace Precedes

variable {previous next : ToolInvocation E}

/-- What comes before a record that opens an attempt. -/
theorem of_startsAttempt (h : previous.Precedes next) (hstarts : next.StartsAttempt) :
    previous.status = .prepared ∨ ∃ error delay, previous.state = .failed error ∧
      error.failure.retryAdvice = .safeAfter delay ∧
      retryIsSafe previous.intent.risk error.externalEffect ∧
      previous.journalHead.recordedAt.micros + (delay.millis : Int) * 1000 ≤
        next.journalHead.recordedAt.micros := by
  obtain ⟨transition, _, hstep⟩ := h.step
  rw [h.intent_eq] at hstep
  rcases hstep.of_executing (by rw [ToolInvocationState.status_effectState]; exact hstarts) with
    hprepared | ⟨failedId, effect, delay, hfailed, hsafe, helapsed⟩
  · left
    rw [status, ← ToolInvocationState.status_effectState, hprepared]
    rfl
  · right
    obtain ⟨error, hstate, rfl, hadvice⟩ := ToolInvocationState.eq_failed_of_effectState hfailed
    exact ⟨error, delay, hstate, hadvice, hsafe, by omega⟩

theorem status_ne_committed (h : previous.Precedes next) : previous.status ≠ .committed := by
  obtain ⟨transition, _, hstep⟩ := h.step
  have hne := hstep.status_ne_committed
  rwa [ToolInvocationState.status_effectState] at hne

/-- A record after the first opens an attempt exactly when its transition starts one. -/
theorem startsAttempt_iff (h : previous.Precedes next) :
    next.StartsAttempt ↔ ∃ attemptId, next.transition = some (.startAttempt attemptId) := by
  obtain ⟨transition, htransition, hstep⟩ := h.step
  have hkind := hstep.executing_iff
  rw [ToolInvocationState.status_effectState] at hkind
  rw [htransition]
  refine hkind.trans ?_
  cases transition <;> simp [ToolInvocationTransition.kind]

theorem of_unknown (h : previous.Precedes next) (hunknown : previous.status = .unknown) :
    next.attemptId = previous.attemptId ∧ ∃ transition, next.transition = some transition ∧
      (transition.kind = .reconcileResult ∨ transition.kind = .reconcileError) := by
  obtain ⟨transition, htransition, hstep⟩ := h.step
  obtain ⟨hattempt, hkind⟩ := hstep.of_unknown
    (by rw [ToolInvocationState.status_effectState]; exact hunknown)
  rw [ToolInvocationState.attemptId_effectState, ToolInvocationState.attemptId_effectState]
    at hattempt
  exact ⟨hattempt, transition, htransition, hkind⟩

end Precedes

theorem startsAttempt_iff_of_initial {record : ToolInvocation E}
    (h : record.revision = .initial) :
    record.StartsAttempt ↔ ∃ attemptId, record.transition = some (.startAttempt attemptId) := by
  have hprepared : record.status = .prepared :=
    (validateRevisionStatus_eq_ok.mp record.revision_ok).mp h
  rw [StartsAttempt, hprepared, (record.initial_ok h).2.1]
  simp

section Chain

variable {records : List (ToolInvocation E)} (hchain : records.IsChain Precedes)

include hchain

/-- Once an attempt was started, no later record is the prepared one. -/
theorem status_ne_prepared_of_isChain {i j : Nat} {earlier record : ToolInvocation E}
    (hle : i ≤ j) (hearlier : records[i]? = some earlier) (hstarts : earlier.StartsAttempt)
    (hrecord : records[j]? = some record) : record.status ≠ .prepared := by
  intro hprepared
  rcases Nat.eq_or_lt_of_le hle with rfl | hlt
  · rw [hearlier] at hrecord
    cases hrecord
    rw [StartsAttempt, hprepared] at hstarts
    cases hstarts
  · obtain ⟨k, rfl⟩ : ∃ k, j = k + 1 := ⟨j - 1, by omega⟩
    obtain ⟨hk, _⟩ := List.getElem?_eq_some_iff.mp hrecord
    have hbefore : records[k]? = some (records.get ⟨k, by omega⟩) :=
      List.getElem?_eq_getElem (by omega)
    have hrevision := (rel_of_isChain hchain hbefore hrecord).revision_eq
    have hinitial := (validateRevisionStatus_eq_ok.mp record.revision_ok).mpr hprepared
    rw [hinitial] at hrevision
    exact Nat.succ_ne_zero _ hrevision.symm

/-- An attempt that is not the first comes right after a failure that a retry does not make
worse, once the delay has passed. -/
theorem retry_of_isChain {i j : Nat} {earlier later : ToolInvocation E} (hle : i ≤ j)
    (hearlier : records[i]? = some earlier) (hstarts : earlier.StartsAttempt)
    (hlater : records[j + 1]? = some later) (hagain : later.StartsAttempt) :
    ∃ record error delay, records[j]? = some record ∧ record.state = .failed error ∧
      error.failure.retryAdvice = .safeAfter delay ∧
      retryIsSafe record.intent.risk error.externalEffect ∧
      record.journalHead.recordedAt.micros + (delay.millis : Int) * 1000 ≤
        later.journalHead.recordedAt.micros := by
  obtain ⟨hj, _⟩ := List.getElem?_eq_some_iff.mp hlater
  have hrecord : records[j]? = some (records.get ⟨j, by omega⟩) :=
    List.getElem?_eq_getElem (by omega)
  rcases (rel_of_isChain hchain hrecord hlater).of_startsAttempt hagain with
    hprepared | ⟨error, delay, hfailed⟩
  · exact absurd hprepared
      (status_ne_prepared_of_isChain hchain hle hearlier hstarts hrecord)
  · exact ⟨_, error, delay, hrecord, hfailed⟩

/-- An attempt at a write that is not idempotent ended without effect if another follows. -/
theorem followed_harmless_of_isChain {first last : Nat} {record next : ToolInvocation E}
    (hspan : Span StartsAttempt records first last) (hrecord : records[last]? = some record)
    (hnext : records[last + 1]? = some next) (hrisk : record.intent.risk = .nonIdempotentWrite) :
    ∃ error, record.state = .failed error ∧
      (error.externalEffect = .notStarted ∨ error.externalEffect = .notApplied) := by
  obtain ⟨opening, hopening, hstarts⟩ := hspan.opened
  obtain ⟨failure, error, delay, hfailure, hstate, _, hsafe, _⟩ :=
    retry_of_isChain hchain hspan.first_le hopening hstarts hnext (hspan.closed next hnext)
  obtain rfl : failure = record := Option.some.inj (hfailure.symm.trans hrecord)
  rw [hrisk] at hsafe
  exact ⟨error, hstate, by simpa [retryIsSafe] using hsafe⟩

/-- A record right before a new attempt at a write that is not idempotent took no effect. -/
theorem not_tookEffect_of_isChain
    (hrisk : ∀ record ∈ records, record.intent.risk = .nonIdempotentWrite) {k : Nat}
    {record next : ToolInvocation E} (hrecord : records[k]? = some record)
    (hnext : records[k + 1]? = some next) (hstarts : next.StartsAttempt) :
    ¬ record.TookEffect := by
  intro heffect
  rcases (rel_of_isChain hchain hrecord hnext).of_startsAttempt hstarts with
    hprepared | ⟨error, _, hstate, _, hsafe, _⟩
  · rcases heffect with hcommitted | ⟨error, hstate, _⟩
    · rw [hprepared] at hcommitted
      cases hcommitted
    · rw [status, hstate] at hprepared
      cases hprepared
  · rw [hrisk record (List.mem_of_getElem? hrecord)] at hsafe
    rcases heffect with hcommitted | ⟨error', hstate', happlied⟩
    · rw [status, hstate] at hcommitted
      cases hcommitted
    · rw [hstate] at hstate'
      cases hstate'
      rw [happlied] at hsafe
      cases hsafe

theorem safeHistory_of_isChain (hfirst : ∀ first ∈ records.head?, first.revision = .initial) :
    SafeHistory records where
  revisions := map_eq_range_of_isChain hchain (fun _ _ h => h.revision_eq)
    (fun first h => by rw [hfirst first h]; rfl)
  one_intent := field_eq_of_isChain hchain (fun _ _ h => h.intent_eq)
  sequences_increase := pairwise_of_isChain hchain (fun _ _ h => h.sequence_lt) lt_trans
  clock_monotone := pairwise_of_isChain hchain (fun _ _ h => h.recordedAt_le) le_trans
  committed_final := fun _ _ _ hrecord hnext =>
    (rel_of_isChain hchain hrecord hnext).status_ne_committed
  startsAttempt_iff := by
    intro record hmem
    obtain ⟨k, hk⟩ := List.mem_iff_getElem?.mp hmem
    cases k with
    | zero => exact startsAttempt_iff_of_initial (hfirst record (by rw [List.head?_eq_getElem?]; exact hk))
    | succ k =>
      obtain ⟨hlength, _⟩ := List.getElem?_eq_some_iff.mp hk
      have hbefore : records[k]? = some (records.get ⟨k, by omega⟩) :=
        List.getElem?_eq_getElem (by omega)
      exact (rel_of_isChain hchain hbefore hk).startsAttempt_iff
  started_from := by
    intro k record next hrecord hnext hstarts
    rcases (rel_of_isChain hchain hrecord hnext).of_startsAttempt hstarts with
      hprepared | ⟨error, _, hstate, _⟩
    · exact .inl hprepared
    · exact .inr (by rw [status, hstate]; rfl)
  unknown_reconciled := fun _ _ _ hrecord hnext =>
    (rel_of_isChain hchain hrecord hnext).of_unknown
  retry_authorized := by
    intro i j earlier later hlt hearlier hstarts hlater hagain
    obtain ⟨record, error, delay, hrecord, hstate, hadvice, _, helapsed⟩ :=
      retry_of_isChain hchain (Nat.le_of_lt_succ hlt) hearlier hstarts hlater hagain
    exact ⟨record, error, delay, hrecord, hstate, hadvice, helapsed⟩
  followed_harmless := fun _ _ _ _ => followed_harmless_of_isChain hchain
  at_most_once := fun hrisk _ _ _ _ =>
    Span.first_eq_of_ends (fun _ _ _ => not_tookEffect_of_isChain hchain hrisk)

end Chain

end ToolInvocation

/-- **Effect safety of tool invocations.**  Every sequence of records that a fresh verifier
accepts is a safe history, and a record that a verifier rejects leaves it as it was. -/
theorem tool_history_effect_safety {E : Encoding} (hE : E.DeterminesTrees) :
    (∀ (records : List (ToolInvocation E)) (verifier : ToolInvocationHistoryVerifier E),
      ToolInvocationHistoryVerifier.new.verifyAll records = (.ok (), verifier) →
      ToolInvocation.SafeHistory records) ∧
    (∀ (verifier next : ToolInvocationHistoryVerifier E) (record : ToolInvocation E)
      (error : ToolInvocationHistoryError),
      verifier.verifyNext record = (.error error, next) → next = verifier) := by
  constructor
  · intro records verifier h
    obtain ⟨hchain, hfirst⟩ := ToolInvocationHistoryVerifier.isChain_of_verifyAll hE h
    exact ToolInvocation.safeHistory_of_isChain hchain (hfirst rfl)
  · intro verifier next record error h
    exact ToolInvocationHistoryVerifier.verifyNext_error h

/-! ## A retried write -/

namespace Tool.Sample

/-- Bytes that determine the tree; the digests of this run are all empty. -/
def encoding : Encoding := { Encoding.reference with sha256 := fun _ => ⟨[]⟩ }

def identity : CapabilityIdentity := ⟨⟨"issuer"⟩, ⟨"payments"⟩, ⟨"transfer"⟩, ⟨"1.0.0"⟩⟩

def schema (name : String) : SchemaReference := ⟨⟨name⟩, ⟨"1.0.0"⟩, ⟨[]⟩⟩

def positions (n : Nat) : Option JournalHead := do
  let recordedAt ← Timestamp.fromUnixMicros? (n * 2000000)
  if h : 1 ≤ n ∧ n ≤ maxDatabaseOrdinal then
    some ⟨⟨"tenant"⟩, ⟨"run"⟩, ⟨n, h.1, h.2⟩, ⟨"event"⟩, recordedAt, ⟨[]⟩⟩
  else none

def activation : Option NodeActivation := do
  let journalHead ← positions 1
  if h : journalHead.InScope ⟨"tenant"⟩ ⟨"run"⟩ then
    some ⟨⟨⟨"tenant"⟩, ⟨"run"⟩, ⟨"checkpoint"⟩, .initial,
      ⟨identity, ⟨[]⟩, schema "state"⟩, journalHead, ⟨[]⟩, h⟩, .root, ⟨"pay"⟩, ⟨[]⟩⟩
  else none

def limits : Option ToolExecutionLimits :=
  (ToolExecutionLimits.new ⟨1000, by decide⟩ (.ofNat 1) (.ofNat 1024) (.ofNat 1024) 0 0).toOption

def intent : Option (ToolInvocationIntent encoding) := do
  let activation ← activation
  let limits ← limits
  let metadata ← (CapabilityMetadata.new identity .tool none ⟨"Transfers money"⟩ .active
    ⟨[], ScopeSet.sorted_nil, ScopeSet.bounded_nil⟩ .empty).toOption
  let semantics ← (ToolExecutionSemantics.new .nonIdempotentWrite .unsupported true false).toOption
  let descriptor ← (ToolDescriptor.new metadata (schema "input") (schema "output") semantics
    ⟨.readWrite, .none, true, false⟩ ⟨.unsupported, 0⟩ limits).toOption
  let value ← (BoundedJson.deserialize (.obj [("amount", .num (.int 5))])).toOption
  let input ← (ToolInput.new (schema "input") value).toOption
  (ToolInvocationIntent.new activation ⟨"invocation"⟩ descriptor input limits).toOption

def provenance (attempt : String) : ToolProvenance := ⟨⟨"invocation"⟩, ⟨attempt⟩, identity⟩

/-- The first attempt did not reach the ledger and may be repeated after a second. -/
def refused : Option ToolError := do
  let failure ← (Failure.new ⟨"failure"⟩ .dependencyUnavailable ⟨"unavailable"⟩ ⟨"ledger"⟩
    ⟨"try again"⟩ (.safeAfter ⟨1000, by decide⟩)).toOption
  (ToolError.new failure .execution .notApplied (provenance "first")).toOption

def settled : Option (ToolResult encoding) := do
  let output ← (BoundedJson.deserialize (.obj [("paid", .bool true)])).toOption
  some ⟨provenance "second", schema "output", output, .empty⟩

/-- A write that is not idempotent: a failed attempt, a retry, and its result. -/
def history : Option (List (ToolInvocation encoding)) := do
  let intent ← intent
  let refused ← refused
  let settled ← settled
  let prepared ← (ToolInvocation.prepare intent (← positions 2)).toOption
  let first ← (prepared.advance (.startAttempt ⟨"first"⟩) (← positions 3)).toOption
  let failed ← (first.advance (.recordError refused) (← positions 4)).toOption
  let second ← (failed.advance (.startAttempt ⟨"second"⟩) (← positions 5)).toOption
  let committed ← (second.advance (.recordResult settled) (← positions 6)).toOption
  some [prepared, first, failed, second, committed]

end Tool.Sample

/-- A history with a retry is accepted and therefore safe. -/
theorem tool_history_effect_safety_retried_write :
    ∃ records verifier, Tool.Sample.history = some records ∧
      records.map (·.status) = [.prepared, .executing, .failed, .executing, .committed] ∧
      ToolInvocationHistoryVerifier.new.verifyAll records = (.ok (), verifier) ∧
      ToolInvocation.SafeHistory records := by
  have hsome : (Tool.Sample.history.any (fun records : List (ToolInvocation Tool.Sample.encoding) =>
      records.map (·.status) = [.prepared, .executing, .failed, .executing, .committed] &&
        records.head?.all (·.revision = .initial))) = true := by
    decide +kernel
  obtain ⟨records, hrecords, hchecked⟩ := (Option.any_eq_true _ _).mp hsome
  rw [Bool.and_eq_true, decide_eq_true_eq] at hchecked
  have hchain : records.IsChain (fun previous next =>
      ∃ transition journalHead, previous.advance transition journalHead = .ok next) := by
    simp only [Tool.Sample.history, Option.bind_eq_bind, Option.bind_eq_some_iff,
      toOption_eq_some, Option.some.injEq] at hrecords
    obtain ⟨_, _, _, _, _, _, _, _, prepared, _, _, _, first, hfirst, _, _, failed, hfailed, _, _,
      second, hsecond, _, _, committed, hcommitted, rfl⟩ := hrecords
    exact .cons_cons ⟨_, _, hfirst⟩ (.cons_cons ⟨_, _, hfailed⟩ (.cons_cons ⟨_, _, hsecond⟩
      (.cons_cons ⟨_, _, hcommitted⟩ (.singleton _))))
  have hinitial : ∀ first ∈ records.head?, first.revision = .initial := by
    intro first hfirst
    have hall := hchecked.2
    rw [Option.mem_def.mp hfirst] at hall
    exact of_decide_eq_true hall
  have haccepted : ∃ verifier,
      ToolInvocationHistoryVerifier.new.verifyAll records = (.ok (), verifier) :=
    ToolInvocationHistoryVerifier.verifyAll_of_isChain (fun _ => rfl) hchain (fun _ => hinitial)
  obtain ⟨verifier, haccepted⟩ := haccepted
  exact ⟨records, verifier, hrecords, hchecked.1, haccepted,
    (tool_history_effect_safety (E := Tool.Sample.encoding)
      Encoding.reference_faithful.determinesTrees).1 records verifier
      haccepted⟩

end StateKnot
