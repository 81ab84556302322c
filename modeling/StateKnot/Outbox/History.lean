import StateKnot.Outbox.Status

/-!
# Histories of outbox attempts

The verifier of a delivery compares each attempt with the last one only.  Over a whole
history this orders all attempts: every attempt permits every later one to start, so
their intervals follow each other, an acknowledged attempt has none after it and every
retry keeps the delay of every failure before it.
-/

namespace StateKnot

open Lib

variable {E : Encoding}

/-! ## The interval of an attempt -/

namespace OutboxAttempt

variable {attempt : OutboxAttempt E} {instant later : Timestamp}

/-- The end of an attempt: its completion, or the end of its lease when it has none. -/
def endsAt (attempt : OutboxAttempt E) : Timestamp :=
  match attempt.completion with
  | none => attempt.start.expiresAt
  | some completion => completion.completedAt

/-- The instants at which an attempt delivers. -/
def interval (attempt : OutboxAttempt E) : Set Timestamp :=
  {instant | attempt.start.startedAt ≤ instant ∧ instant < attempt.endsAt}

def Acknowledged (attempt : OutboxAttempt E) : Prop :=
  ∃ completion evidenceDigest, attempt.completion = some completion ∧
    completion.outcome = .acknowledged evidenceDigest

def FailedWith (attempt : OutboxAttempt E) (completion : OutboxAttemptCompletion E)
    (failure : Failure) : Prop :=
  attempt.completion = some completion ∧ completion.outcome = .failed failure

theorem completedAt_mem_lease {completion : OutboxAttemptCompletion E}
    (h : attempt.completion = some completion) :
    attempt.start.startedAt ≤ completion.completedAt ∧
      completion.completedAt < attempt.start.expiresAt := by
  have hok := completion.completion_ok
  have hstart : completion.start = attempt.start := attempt.completes_start completion h
  simp only [validateAttemptCompletion, bind_eq_ok, reject_eq_ok, exists_const, not_lt,
    ge_iff_le, not_le, hstart] at hok
  obtain ⟨hstarted, hlease, _⟩ := hok
  exact ⟨hstarted, hlease⟩

theorem startedAt_le_endsAt (attempt : OutboxAttempt E) :
    attempt.start.startedAt ≤ attempt.endsAt := by
  unfold endsAt
  cases hcompletion : attempt.completion with
  | none => exact attempt.start.window.2.1.le
  | some completion => exact (completedAt_mem_lease hcompletion).1

theorem endsAt_le_expiresAt (attempt : OutboxAttempt E) :
    attempt.endsAt ≤ attempt.start.expiresAt := by
  unfold endsAt
  cases hcompletion : attempt.completion with
  | none => exact le_refl _
  | some completion => exact (completedAt_mem_lease hcompletion).2.le

theorem origin_le_startedAt (start : OutboxAttemptStart E) :
    start.delivery.origin.recordedAt ≤ start.startedAt := by
  have hok := start.start_ok
  simp only [validateAttemptStart, bind_eq_ok, reject_eq_ok, exists_const, not_lt] at hok
  obtain ⟨_, _, _, horigin, _⟩ := hok
  exact horigin

theorem Permits.mono (h : attempt.Permits instant) (hlater : instant ≤ later) :
    attempt.Permits later := by
  cases hcompletion : attempt.completion with
  | none =>
    rw [permits_of_unfinished hcompletion] at h ⊢
    exact h.trans hlater
  | some completion =>
    cases houtcome : completion.outcome with
    | acknowledged evidenceDigest =>
      exact absurd h (not_permits_of_acknowledged hcompletion houtcome instant)
    | failed failure =>
      rw [permits_of_failed hcompletion houtcome] at h ⊢
      obtain ⟨delay, hadvice, heligible⟩ := h
      exact ⟨delay, hadvice, heligible.trans (Timestamp.le_iff.mp hlater)⟩

theorem Permits.endsAt_le (h : attempt.Permits instant) : attempt.endsAt ≤ instant := by
  unfold endsAt
  cases hcompletion : attempt.completion with
  | none => exact (permits_of_unfinished hcompletion).mp h
  | some completion =>
    cases houtcome : completion.outcome with
    | acknowledged evidenceDigest =>
      exact absurd h (not_permits_of_acknowledged hcompletion houtcome instant)
    | failed failure =>
      obtain ⟨delay, _, heligible⟩ := (permits_of_failed hcompletion houtcome).mp h
      exact Timestamp.le_iff.mpr ((le_retryEligibleMicros _ delay).trans heligible)

theorem Permits.not_acknowledged (h : attempt.Permits instant) : ¬ attempt.Acknowledged := by
  intro ⟨completion, evidenceDigest, hcompletion, houtcome⟩
  exact not_permits_of_acknowledged hcompletion houtcome instant h

/-- An attempt that permits the start of another one delivers at other instants. -/
theorem Permits.disjoint_interval {next : OutboxAttempt E}
    (h : attempt.Permits next.start.startedAt) : Disjoint attempt.interval next.interval := by
  rw [Set.disjoint_left]
  intro instant hmem hnext
  exact absurd (h.endsAt_le.trans hnext.1) (not_le.mpr hmem.2)

end OutboxAttempt

/-! ## What a verified history shows -/

namespace OutboxAttemptHistoryVerifier

variable {delivery : OutboxDelivery E} {attempts : List (OutboxAttempt E)}
  {history next : OutboxAttemptHistoryVerifier E} {attempt : OutboxAttempt E}

/-- The attempts of a verified history are numbered from one, distinct and each permits every
later one. -/
structure Succession (attempts : List (OutboxAttempt E)) : Prop where
  epochs : attempts.map (·.start.fence.epoch.value) = List.range' 1 attempts.length
  bounded : attempts.length ≤ maxOutboxAttempts
  distinct : (attempts.map (·.start.fence.attemptId)).Nodup
  permitted : attempts.Pairwise fun earlier later => earlier.Permits later.start.startedAt

namespace Succession

theorem nil : Succession ([] : List (OutboxAttempt E)) :=
  ⟨rfl, Nat.zero_le _, List.nodup_nil, List.Pairwise.nil⟩

theorem epoch_eq (h : Succession attempts) (hverified : Verified delivery attempts history)
    {epoch : FencingEpoch} (hepoch : history.NextEpoch epoch) :
    epoch.value = attempts.length + 1 := by
  unfold NextEpoch at hepoch
  rw [hverified.last_eq] at hepoch
  rcases attempts.eq_nil_or_concat with hnil | ⟨before, last, hconcat⟩
  · subst hnil
    simp only [List.getLast?_nil] at hepoch
    rw [hepoch]
    rfl
  · subst hconcat
    have hepochs := h.epochs
    rw [List.concat_eq_append] at hepoch hepochs ⊢
    simp only [List.getLast?_concat, Ordinal.checkedNext_eq_some] at hepoch
    simp only [List.map_append, List.map_cons, List.map_nil, List.length_append,
      List.length_singleton, List.range'_concat] at hepochs
    have hlast := List.append_inj_right' hepochs rfl
    simp only [List.cons.injEq, and_true] at hlast
    simp only [List.length_append, List.length_singleton]
    omega

/-- The last attempt and all before it permit what the history permits. -/
theorem permits (h : Succession attempts) (hverified : Verified delivery attempts history)
    {instant : Timestamp} (hpermits : history.Permits instant) :
    ∀ earlier ∈ attempts, earlier.Permits instant := by
  unfold OutboxAttemptHistoryVerifier.Permits at hpermits
  rw [hverified.last_eq] at hpermits
  intro earlier hearlier
  rcases attempts.eq_nil_or_concat with hnil | ⟨before, last, hconcat⟩
  · subst hnil
    exact absurd hearlier List.not_mem_nil
  · rw [List.concat_eq_append] at hconcat
    subst hconcat
    have hlast : last.Permits instant := hpermits last List.getLast?_concat
    rcases List.mem_append.mp hearlier with hbefore | hsame
    · have hpair := (List.pairwise_append.mp h.permitted).2.2 earlier hbefore last
        (List.mem_singleton_self last)
      exact hpair.mono (last.startedAt_le_endsAt.trans hlast.endsAt_le)
    · rw [List.mem_singleton.mp hsame]
      exact hlast

theorem verifyNext (h : Succession attempts) (hverified : Verified delivery attempts history)
    (hnext : history.verifyNext attempt = .ok next) : Succession (attempts ++ [attempt]) := by
  obtain ⟨hcount, _, hfresh, hepoch, hpermits, _⟩ := verifyNext_eq_ok.mp hnext
  have hvalue := h.epoch_eq hverified hepoch
  have hearlier := h.permits hverified hpermits
  rw [hverified.count_eq] at hcount
  rw [hverified.ids_eq, List.mem_reverse] at hfresh
  have hbounded := h.bounded
  refine ⟨?_, ?_, ?_, ?_⟩
  · rw [List.map_append, h.epochs, List.length_append, List.length_singleton, List.range'_concat]
    simp only [List.map_cons, List.map_nil, hvalue]
    rw [Nat.one_mul, Nat.add_comm]
  · rw [List.length_append, List.length_singleton]
    omega
  · rw [List.map_append, List.nodup_append]
    refine ⟨h.distinct, List.nodup_singleton _, ?_⟩
    intro id hid other hother
    rw [List.map_singleton, List.mem_singleton] at hother
    intro hsame
    rw [hsame, hother] at hid
    exact hfresh hid
  · rw [List.pairwise_append]
    refine ⟨h.permitted, List.pairwise_singleton _ _, ?_⟩
    intro earlier hmem last hlast
    rw [List.mem_singleton.mp hlast]
    exact hearlier earlier hmem

theorem of_foldlM
    (h : attempts.foldlM OutboxAttemptHistoryVerifier.verifyNext (.new delivery) = .ok history) :
    Verified delivery attempts history ∧ Succession attempts :=
  foldlM_induct (fun seen reached => Verified delivery seen reached ∧ Succession seen)
    ⟨.new delivery, nil⟩
    (fun hseen hstep => ⟨hseen.1.verifyNext hstep, hseen.2.verifyNext hseen.1 hstep⟩) h

end Succession

/-! ## The verifier as a mutable record -/

/-- The statements of `verify_next` on the verifier it borrows: the checks, then the writes. -/
def verifyNextInPlace (attempt : OutboxAttempt E) :
    ExceptT OutboxAttemptHistoryError (StateM (OutboxAttemptHistoryVerifier E)) Unit := do
  let history ← get
  MonadExcept.ofExcept (reject (history.count = maxOutboxAttempts) .attemptLimitExceeded)
  MonadExcept.ofExcept (reject (attempt.start.delivery ≠ history.delivery) .deliveryMismatch)
  let attemptId := attempt.start.fence.attemptId
  MonadExcept.ofExcept
    (reject (attemptId ∈ history.attemptIds) (.attemptIdReused attemptId))
  MonadExcept.ofExcept (match history.last with
    | some previous => validateAttemptSuccessor previous attempt
    | none => reject (attempt.start.fence.epoch ≠ .first)
        (.firstEpochInvalid attempt.start.fence.epoch))
  modify fun history => { history with attemptIds := attemptId :: history.attemptIds }
  modify fun history => { history with last := some attempt }
  modify fun history => { history with count := history.count + 1 }

/-- The result of offering an attempt and the verifier afterwards. -/
def offer (history : OutboxAttemptHistoryVerifier E) (attempt : OutboxAttempt E) :
    Except OutboxAttemptHistoryError Unit × OutboxAttemptHistoryVerifier E :=
  (verifyNextInPlace attempt).run.run history

/-- A check that succeeds lets the rest run on the same verifier; one that fails ends the call
there. -/
theorem run_check {α : Type} (check : Except OutboxAttemptHistoryError Unit)
    (rest : ExceptT OutboxAttemptHistoryError (StateM (OutboxAttemptHistoryVerifier E)) α)
    (history : OutboxAttemptHistoryVerifier E) :
    (MonadExcept.ofExcept check >>= fun _ => rest).run.run history =
      match check with
      | .ok _ => rest.run.run history
      | .error error => (.error error, history) := by
  cases check <;> rfl

/-- The writes come after all checks, so a rejected attempt leaves the verifier as it was. -/
theorem offer_eq (history : OutboxAttemptHistoryVerifier E) (attempt : OutboxAttempt E) :
    history.offer attempt = ((history.verifyNext attempt).map fun _ => (),
      Lib.attempt OutboxAttemptHistoryVerifier.verifyNext history attempt) := by
  unfold offer verifyNextInPlace Lib.attempt OutboxAttemptHistoryVerifier.verifyNext
  show (do
    MonadExcept.ofExcept _; MonadExcept.ofExcept _; MonadExcept.ofExcept _
    MonadExcept.ofExcept _; _ : ExceptT _ (StateM _) Unit).run.run history = _
  rw [run_check]
  cases reject (history.count = maxOutboxAttempts) OutboxAttemptHistoryError.attemptLimitExceeded
  case error error => rfl
  dsimp only
  rw [run_check]
  cases reject (attempt.start.delivery ≠ history.delivery)
    OutboxAttemptHistoryError.deliveryMismatch
  case error error => rfl
  dsimp only
  rw [run_check]
  cases reject (attempt.start.fence.attemptId ∈ history.attemptIds)
    (OutboxAttemptHistoryError.attemptIdReused attempt.start.fence.attemptId)
  case error error => rfl
  dsimp only
  rw [run_check]
  cases history.last with
  | none =>
    dsimp only
    cases reject (attempt.start.fence.epoch ≠ .first)
      (OutboxAttemptHistoryError.firstEpochInvalid attempt.start.fence.epoch) <;> rfl
  | some previous =>
    dsimp only
    cases validateAttemptSuccessor previous attempt <;> rfl

/-- The attempts that one verifier accepts of those offered to it, in order. -/
def acceptedOf (history : OutboxAttemptHistoryVerifier E) :
    List (OutboxAttempt E) → List (OutboxAttempt E)
  | [] => []
  | attempt :: rest =>
    match history.offer attempt with
    | (.ok _, next) => attempt :: next.acceptedOf rest
    | (.error _, next) => next.acceptedOf rest

theorem acceptedOf_eq_admitted (offered : List (OutboxAttempt E)) :
    ∀ history : OutboxAttemptHistoryVerifier E, history.acceptedOf offered =
      admitted OutboxAttemptHistoryVerifier.verifyNext history offered := by
  induction offered with
  | nil => exact fun _ => rfl
  | cons attempt rest ih =>
    intro history
    rw [acceptedOf, admitted, offer_eq]
    cases hstep : history.verifyNext attempt with
    | ok next =>
      simp only [Except.map, Except.isOk, Except.toBool, if_true, ih]
    | error error =>
      simp only [Except.map, Except.isOk, Except.toBool, Bool.false_eq_true, if_false, ih]

end OutboxAttemptHistoryVerifier

/-- The attempts of a delivery: numbered from one, at most as many as the limit, distinct, in
intervals that follow each other inside the window of the delivery, with at most the last one
acknowledged and every failure's delay kept. -/
structure OutboxAttemptHistory (delivery : OutboxDelivery E) (attempts : List (OutboxAttempt E)) :
    Prop where
  epochs : attempts.map (·.start.fence.epoch.value) = List.range' 1 attempts.length
  bounded : attempts.length ≤ 64
  distinct : (attempts.map (·.start.fence.attemptId)).Nodup
  ordered : attempts.Pairwise fun earlier later => earlier.endsAt ≤ later.start.startedAt
  disjoint : attempts.Pairwise fun earlier later => Disjoint earlier.interval later.interval
  inside : ∀ attempt ∈ attempts, delivery.origin.recordedAt ≤ attempt.start.startedAt ∧
    attempt.start.startedAt ≤ attempt.endsAt ∧ attempt.endsAt ≤ delivery.intent.expiresAt
  acknowledged_last : ∀ before attempt after, attempts = before ++ attempt :: after →
    attempt.Acknowledged → after = [] ∧ ∀ other ∈ before, ¬ other.Acknowledged
  delayed : attempts.Pairwise fun earlier later => ∀ completion failure,
    earlier.FailedWith completion failure → ∃ delay, failure.retryAdvice = .safeAfter delay ∧
      completion.completedAt.micros + (delay.millis : Int) * 1000 ≤ later.start.startedAt.micros

namespace OutboxAttemptHistoryVerifier

variable {delivery : OutboxDelivery E} {attempts : List (OutboxAttempt E)}
  {history : OutboxAttemptHistoryVerifier E}

theorem Verified.inside (h : Verified delivery attempts history) :
    ∀ attempt ∈ attempts, delivery.origin.recordedAt ≤ attempt.start.startedAt ∧
      attempt.start.startedAt ≤ attempt.endsAt ∧
      attempt.endsAt ≤ delivery.intent.expiresAt := by
  intro attempt hmem
  have hdelivery := h.of_delivery attempt hmem
  have horigin := OutboxAttempt.origin_le_startedAt attempt.start
  have hexpiry := attempt.start.window.2.2
  rw [hdelivery] at horigin hexpiry
  exact ⟨horigin, attempt.startedAt_le_endsAt, attempt.endsAt_le_expiresAt.trans hexpiry⟩

/-- Nothing follows an acknowledged attempt, and none before it is acknowledged. -/
theorem Succession.acknowledged_last (h : Succession attempts)
    (before : List (OutboxAttempt E)) (attempt : OutboxAttempt E) (after : List (OutboxAttempt E))
    (hsplit : attempts = before ++ attempt :: after) (hacknowledged : attempt.Acknowledged) :
    after = [] ∧ ∀ other ∈ before, ¬ other.Acknowledged := by
  have hpermitted := h.permitted
  rw [hsplit, List.pairwise_append, List.pairwise_cons] at hpermitted
  obtain ⟨_, ⟨hafter, _⟩, hbefore⟩ := hpermitted
  constructor
  · rw [List.eq_nil_iff_forall_not_mem]
    intro later hlater
    exact (hafter later hlater).not_acknowledged hacknowledged
  · intro other hother
    exact (hbefore other hother attempt List.mem_cons_self).not_acknowledged

theorem Succession.toHistory (h : Succession attempts)
    (hverified : Verified delivery attempts history) : OutboxAttemptHistory delivery attempts where
  epochs := h.epochs
  bounded := h.bounded
  distinct := h.distinct
  ordered := h.permitted.imp fun hpermits => hpermits.endsAt_le
  disjoint := h.permitted.imp fun hpermits => hpermits.disjoint_interval
  inside := hverified.inside
  acknowledged_last := h.acknowledged_last
  delayed := by
    apply h.permitted.imp
    intro earlier later hpermits completion failure hfailed
    exact (OutboxAttempt.permits_of_failed hfailed.1 hfailed.2).mp hpermits

end OutboxAttemptHistoryVerifier

/-- Of the attempts offered to one verifier in order, those it accepts are a history of the
delivery, and a rejected one leaves the verifier unchanged. -/
theorem outbox_attempt_history_invariant (delivery : OutboxDelivery E)
    (offered : List (OutboxAttempt E)) :
    OutboxAttemptHistory delivery
      ((OutboxAttemptHistoryVerifier.new delivery).acceptedOf offered) ∧
    ∀ (history : OutboxAttemptHistoryVerifier E) (attempt : OutboxAttempt E) error,
      (history.offer attempt).1 = .error error → (history.offer attempt).2 = history := by
  constructor
  · rw [OutboxAttemptHistoryVerifier.acceptedOf_eq_admitted]
    obtain ⟨hverified, hsuccession⟩ :=
      OutboxAttemptHistoryVerifier.Succession.of_foldlM (foldlM_admitted offered _)
    exact hsuccession.toHistory hverified
  · intro history attempt error herror
    rw [OutboxAttemptHistoryVerifier.offer_eq] at herror ⊢
    cases hstep : history.verifyNext attempt with
    | ok next =>
      rw [hstep] at herror
      cases herror
    | error error => exact attempt_of_error hstep

end StateKnot
