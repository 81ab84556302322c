import StateKnot.Lib.Attempts
import StateKnot.Outbox
import StateKnot.Written

/-!
# Outbox status and admission

The status of a delivery and the check of its next attempt are separate case
analyses.  Both follow from when the last attempt lets another one start: a delivery
is pending exactly when the next attempt would be admitted.  What has been
acknowledged, dead-lettered or has expired stays so.
-/

namespace StateKnot

open Lib

variable {E : Encoding}

/-! ## When an attempt lets another one start -/

namespace OutboxAttempt

/-- Another attempt may start at an instant: after the lease of an attempt that did not end, or
once the delay of a retryable failure has passed. -/
def Permits (attempt : OutboxAttempt E) (instant : Timestamp) : Prop :=
  match attempt.completion with
  | none => attempt.start.expiresAt ≤ instant
  | some completion =>
    match completion.outcome with
    | .acknowledged _ => False
    | .failed failure =>
      match failure.retryAdvice with
      | .safeAfter delay => retryEligibleMicros completion.completedAt delay ≤ instant.micros
      | .never => False
      | .reconcileFirst => False

variable {attempt : OutboxAttempt E}

theorem permits_of_unfinished (h : attempt.completion = none)
    {instant : Timestamp} : attempt.Permits instant ↔ attempt.start.expiresAt ≤ instant := by
  unfold Permits
  rw [h]

theorem not_permits_of_acknowledged
    {completion : OutboxAttemptCompletion E} {evidenceDigest : Option Digest}
    (h : attempt.completion = some completion)
    (houtcome : completion.outcome = .acknowledged evidenceDigest) (instant : Timestamp) :
    ¬ attempt.Permits instant := by
  unfold Permits
  rw [h]
  dsimp only
  rw [houtcome]
  exact id

theorem permits_of_failed {completion : OutboxAttemptCompletion E}
    {failure : Failure} (h : attempt.completion = some completion)
    (houtcome : completion.outcome = .failed failure) {instant : Timestamp} :
    attempt.Permits instant ↔ ∃ delay, failure.retryAdvice = .safeAfter delay ∧
      retryEligibleMicros completion.completedAt delay ≤ instant.micros := by
  unfold Permits
  rw [h]
  dsimp only
  rw [houtcome]
  dsimp only
  cases failure.retryAdvice <;> simp

end OutboxAttempt

theorem le_retryEligibleMicros (completedAt : Timestamp) (delay : DurationMillis) :
    completedAt.micros ≤ retryEligibleMicros completedAt delay := by
  unfold retryEligibleMicros
  omega

theorem retryEligibleAt_eq_ok {completedAt eligibleAt : Timestamp} {delay : DurationMillis} :
    retryEligibleAt completedAt delay = .ok eligibleAt ↔
      eligibleAt.micros = retryEligibleMicros completedAt delay := by
  rw [retryEligibleAt, okOr_eq_ok, Timestamp.fromUnixMicros?_eq_some]

variable {completion : OutboxAttemptCompletion E}

theorem OutboxAttemptCompletion.exists_retryEligibleAt
    {failure : Failure} {delay : DurationMillis} (houtcome : completion.outcome = .failed failure)
    (hadvice : failure.retryAdvice = .safeAfter delay) :
    ∃ eligibleAt, retryEligibleAt completion.completedAt delay = .ok eligibleAt := by
  have hok := completion.completion_ok
  simp only [validateAttemptCompletion, houtcome, hadvice, bind_eq_ok] at hok
  obtain ⟨_, _, _, _, eligibleAt, heligible, _⟩ := hok
  exact ⟨eligibleAt, heligible⟩

theorem OutboxAttemptCompletion.retryAdvice_ne
    {failure : Failure} (houtcome : completion.outcome = .failed failure) :
    failure.retryAdvice ≠ .reconcileFirst := by
  intro hadvice
  have hok := completion.completion_ok
  simp only [validateAttemptCompletion, houtcome, hadvice, bind_eq_ok] at hok
  obtain ⟨_, _, _, _, herror⟩ := hok
  cases herror

theorem OutboxAttemptStart.window (start : OutboxAttemptStart E) :
    start.startedAt < start.delivery.expiresAt ∧ start.startedAt < start.expiresAt ∧
      start.expiresAt ≤ start.delivery.expiresAt := by
  have hok := start.start_ok
  simp only [validateAttemptStart, bind_eq_ok, reject_eq_ok, exists_const, not_le, not_lt,
    ge_iff_le, gt_iff_lt] at hok
  obtain ⟨_, _, _, _, hdeadline, hlease, hwindow, _⟩ := hok
  exact ⟨hdeadline, hlease, hwindow⟩

theorem validateOutboxRetry_eq_ok {startedAt : Timestamp}
    {u : Unit} :
    validateOutboxRetry completion startedAt = .ok u ↔
      ∃ failure delay, completion.outcome = .failed failure ∧
        failure.retryAdvice = .safeAfter delay ∧
        retryEligibleMicros completion.completedAt delay ≤ startedAt.micros := by
  unfold validateOutboxRetry
  cases houtcome : completion.outcome with
  | acknowledged _ => simp
  | failed failure =>
    dsimp only
    cases hadvice : failure.retryAdvice with
    | never => simp [hadvice]
    | reconcileFirst => simp [hadvice]
    | safeAfter delay =>
      obtain ⟨eligibleAt, heligible⟩ := completion.exists_retryEligibleAt houtcome hadvice
      have hmicros := retryEligibleAt_eq_ok.mp heligible
      simp only [heligible, Except.mapError, ok_bind, reject_eq_ok, not_lt, Timestamp.le_iff,
        hmicros, OutboxAttemptOutcome.failed.injEq]
      constructor
      · intro h
        exact ⟨failure, delay, rfl, hadvice, h⟩
      · intro h
        obtain ⟨_, other, rfl, hother, h⟩ := h
        cases hadvice.symm.trans hother
        exact h

/-- A successor has the next epoch and starts when its predecessor permits it. -/
theorem validateAttemptSuccessor_eq_ok {previous next : OutboxAttempt E} {u : Unit} :
    validateAttemptSuccessor previous next = .ok u ↔
      previous.start.fence.epoch.checkedNext = some next.start.fence.epoch ∧
        previous.Permits next.start.startedAt := by
  have hepoch : ∀ {P : Prop}, (∃ epoch, previous.start.fence.epoch.checkedNext = some epoch ∧
      next.start.fence.epoch = epoch ∧ P) ↔
        previous.start.fence.epoch.checkedNext = some next.start.fence.epoch ∧ P := by
    intro P
    constructor
    · rintro ⟨_, hnext, rfl, hP⟩
      exact ⟨hnext, hP⟩
    · intro ⟨hnext, hP⟩
      exact ⟨_, hnext, rfl, hP⟩
  simp only [validateAttemptSuccessor, bind_eq_ok, okOr_eq_ok, reject_eq_ok, exists_const, ne_eq,
    not_not, hepoch]
  refine and_congr_right fun _ => ?_
  cases hcompletion : previous.completion with
  | none =>
    rw [OutboxAttempt.permits_of_unfinished hcompletion]
    simp only [reject_eq_ok, not_lt]
  | some completion =>
    simp only [bind_eq_ok, reject_eq_ok, exists_const, validateOutboxRetry_eq_ok, not_lt,
      Timestamp.le_iff]
    cases houtcome : completion.outcome with
    | acknowledged evidenceDigest =>
      simp [OutboxAttempt.not_permits_of_acknowledged hcompletion houtcome]
    | failed failure =>
      rw [OutboxAttempt.permits_of_failed hcompletion houtcome]
      constructor
      · rintro ⟨_, _, delay, houtcome', hadvice, heligible⟩
        cases houtcome'
        exact ⟨delay, hadvice, heligible⟩
      · rintro ⟨delay, hadvice, heligible⟩
        have hdelay := le_retryEligibleMicros completion.completedAt delay
        exact ⟨hdelay.trans heligible, failure, delay, rfl, hadvice, heligible⟩

namespace OutboxAttemptHistoryVerifier

variable {history next : OutboxAttemptHistoryVerifier E} {attempt : OutboxAttempt E}

/-- The epoch of the next attempt: the first one, or the successor of the last one. -/
def NextEpoch (history : OutboxAttemptHistoryVerifier E) (epoch : FencingEpoch) : Prop :=
  match history.last with
  | none => epoch = .first
  | some last => last.start.fence.epoch.checkedNext = some epoch

/-- The last attempt permits another one. -/
def Permits (history : OutboxAttemptHistoryVerifier E) (instant : Timestamp) : Prop :=
  ∀ last, history.last = some last → last.Permits instant

theorem verifyNext_eq_ok :
    history.verifyNext attempt = .ok next ↔
      history.count ≠ maxOutboxAttempts ∧ attempt.start.delivery = history.delivery ∧
      attempt.start.fence.attemptId ∉ history.attemptIds ∧
      history.NextEpoch attempt.start.fence.epoch ∧ history.Permits attempt.start.startedAt ∧
      next = ⟨history.delivery, some attempt, attempt.start.fence.attemptId :: history.attemptIds,
        history.count + 1⟩ := by
  simp only [verifyNext, bind_eq_ok, reject_eq_ok, exists_const, ne_eq, not_not, NextEpoch, Permits,
    pure_eq_ok]
  cases history.last with
  | none =>
    simp only [reject_eq_ok, not_not, exists_const, reduceCtorEq, false_implies, implies_true,
      true_and, eq_comm (b := next)]
  | some previous =>
    simp only [validateAttemptSuccessor_eq_ok, Option.some.injEq, forall_eq', exists_const,
      and_assoc, eq_comm (b := next)]

/-- The history of accepted attempts at a delivery. -/
structure Verified (delivery : OutboxDelivery E) (attempts : List (OutboxAttempt E))
    (history : OutboxAttemptHistoryVerifier E) : Prop where
  delivery_eq : history.delivery = delivery.head
  last_eq : history.last = attempts.getLast?
  ids_eq : history.attemptIds = (attempts.map (·.start.fence.attemptId)).reverse
  count_eq : history.count = attempts.length
  of_delivery : ∀ attempt ∈ attempts, attempt.start.delivery = delivery.head

namespace Verified

variable {delivery : OutboxDelivery E} {attempts : List (OutboxAttempt E)}

theorem new (delivery : OutboxDelivery E) : Verified delivery [] (.new delivery) :=
  ⟨rfl, rfl, rfl, rfl, by simp⟩

theorem verifyNext (h : Verified delivery attempts history)
    (hnext : history.verifyNext attempt = .ok next) :
    Verified delivery (attempts ++ [attempt]) next := by
  obtain ⟨_, hdelivery, _, _, _, rfl⟩ := verifyNext_eq_ok.mp hnext
  refine ⟨h.delivery_eq, ?_, ?_, ?_, fun other hother => ?_⟩
  · rw [List.getLast?_concat]
  · simp [h.ids_eq]
  · simp [h.count_eq]
  · rcases List.mem_append.mp hother with hother | hother
    · exact h.of_delivery other hother
    · rw [List.mem_singleton.mp hother, hdelivery, h.delivery_eq]

theorem of_foldlM (h : attempts.foldlM OutboxAttemptHistoryVerifier.verifyNext (.new delivery) =
    .ok history) : Verified delivery attempts history :=
  foldlM_induct (Verified delivery) (new delivery) (fun hseen hstep => hseen.verifyNext hstep) h

theorem last_delivery (h : Verified delivery attempts history) {last : OutboxAttempt E}
    (hlast : history.last = some last) : last.start.delivery = history.delivery := by
  rw [h.delivery_eq]
  exact h.of_delivery last (List.mem_of_getLast? (h.last_eq.symm.trans hlast))

theorem count_ne (h : Verified delivery attempts history) (hlast : history.last = none) :
    history.count ≠ maxOutboxAttempts := by
  have hnil : attempts = [] := List.getLast?_eq_none_iff.mp (h.last_eq.symm.trans hlast)
  rw [h.count_eq, hnil]
  simp [maxOutboxAttempts]

end Verified

/-! ## The status of a history -/

variable {last : OutboxAttempt E} {completion : OutboxAttemptCompletion E} {failure : Failure}
  {delay : DurationMillis} {instant later : Timestamp} {status : OutboxDeliveryStatus}

/-- How a history can end, with the status that it has from its latest evidence on. -/
inductive Ending (history : OutboxAttemptHistoryVerifier E) :
    (Timestamp → OutboxDeliveryStatus) → Prop where
  | empty (hlast : history.last = none) : Ending history fun instant =>
      if history.delivery.expiresAt ≤ instant then .expired else .pending
  | unfinished (last : OutboxAttempt E) (hlast : history.last = some last)
      (hcompletion : last.completion = none) : Ending history fun instant =>
      if history.count = maxOutboxAttempts ∧ last.start.expiresAt ≤ instant then
        if last.start.expiresAt < history.delivery.expiresAt then .deadLetter else .expired
      else if history.delivery.expiresAt ≤ instant then .expired
      else if instant < last.start.expiresAt then .delivering else .pending
  | acknowledged (last : OutboxAttempt E) (completion : OutboxAttemptCompletion E)
      (evidenceDigest : Option Digest) (hlast : history.last = some last)
      (hcompletion : last.completion = some completion)
      (houtcome : completion.outcome = .acknowledged evidenceDigest) :
      Ending history fun _ => .acknowledged
  | never (last : OutboxAttempt E) (completion : OutboxAttemptCompletion E) (failure : Failure)
      (hlast : history.last = some last) (hcompletion : last.completion = some completion)
      (houtcome : completion.outcome = .failed failure) (hadvice : failure.retryAdvice = .never) :
      Ending history fun _ => .deadLetter
  | retryable (last : OutboxAttempt E) (completion : OutboxAttemptCompletion E) (failure : Failure)
      (delay : DurationMillis) (hlast : history.last = some last)
      (hcompletion : last.completion = some completion)
      (houtcome : completion.outcome = .failed failure)
      (hadvice : failure.retryAdvice = .safeAfter delay) : Ending history fun instant =>
      if history.count = maxOutboxAttempts then .deadLetter
      else if history.delivery.expiresAt ≤ instant then .expired
      else if instant.micros < retryEligibleMicros completion.completedAt delay then
        .retryScheduled
      else .pending

theorem exists_ending (history : OutboxAttemptHistoryVerifier E) :
    ∃ statusOf, history.Ending statusOf := by
  cases hlast : history.last with
  | none => exact ⟨_, .empty hlast⟩
  | some last =>
    cases hcompletion : last.completion with
    | none => exact ⟨_, .unfinished last hlast hcompletion⟩
    | some completion =>
      cases houtcome : completion.outcome with
      | acknowledged evidenceDigest =>
        exact ⟨_, .acknowledged last completion evidenceDigest hlast hcompletion houtcome⟩
      | failed failure =>
        cases hadvice : failure.retryAdvice with
        | never => exact ⟨_, .never last completion failure hlast hcompletion houtcome hadvice⟩
        | safeAfter delay =>
          exact ⟨_, .retryable last completion failure delay hlast hcompletion houtcome hadvice⟩
        | reconcileFirst => exact absurd hadvice (completion.retryAdvice_ne houtcome)

/-- After the latest evidence the status is settled, lapsed, expired or open. -/
theorem statusAt_eq (hnow : history.latestAt ≤ instant) :
    history.statusAt instant = match history.settledStatus with
      | some status => .ok status
      | none => match history.lapsedStatus instant with
        | some status => .ok status
        | none => if history.delivery.expiresAt ≤ instant then .ok .expired
          else history.openStatus instant := by
  rw [statusAt, reject, if_neg (not_lt.mpr hnow)]
  rfl

theorem Ending.statusAt_eq {statusOf : Timestamp → OutboxDeliveryStatus}
    (h : history.Ending statusOf) (hnow : history.latestAt ≤ instant) :
    history.statusAt instant = .ok (statusOf instant) := by
  rw [OutboxAttemptHistoryVerifier.statusAt_eq hnow]
  cases h with
  | empty hlast =>
    simp only [settledStatus, lapsedStatus, openStatus, hlast, Option.bind_eq_bind,
      Option.bind_none]
    split <;> rfl
  | unfinished last hlast hcompletion =>
    simp only [settledStatus, lapsedStatus, openStatus, hlast, hcompletion, Option.bind_eq_bind,
      Option.bind_none, Option.bind_some, true_and, ge_iff_le]
    split_ifs <;> rfl
  | acknowledged last completion evidence hlast hcompletion houtcome =>
    simp only [settledStatus, hlast, hcompletion, houtcome, Option.bind_eq_bind, Option.bind_some]
  | never last completion failure hlast hcompletion houtcome hadvice =>
    simp only [settledStatus, hlast, hcompletion, houtcome, hadvice, Option.bind_eq_bind,
      Option.bind_some, if_true]
  | retryable last completion failure delay hlast hcompletion houtcome hadvice =>
    obtain ⟨eligibleAt, heligible⟩ := completion.exists_retryEligibleAt houtcome hadvice
    have hmicros := retryEligibleAt_eq_ok.mp heligible
    simp only [settledStatus, lapsedStatus, openStatus, hlast, hcompletion, houtcome, hadvice,
      Option.bind_eq_bind, Option.bind_some, reduceCtorEq, if_false, false_and, heligible,
      Except.mapError, ok_bind, Timestamp.lt_iff, hmicros]
    split_ifs <;> rfl

theorem statusAt_eq_pending_iff {delivery : OutboxDelivery E} {attempts : List (OutboxAttempt E)}
    (hverified : Verified delivery attempts history) (hnow : history.latestAt ≤ instant) :
    history.statusAt instant = .ok .pending ↔
      instant < history.delivery.expiresAt ∧ history.count ≠ maxOutboxAttempts ∧
        history.Permits instant := by
  obtain ⟨statusOf, hending⟩ := history.exists_ending
  rw [hending.statusAt_eq hnow]
  cases hending with
  | empty hlast =>
    have hcount := hverified.count_ne hlast
    simp only [Permits, hlast, reduceCtorEq, false_implies, implies_true, and_true, hcount, ne_eq,
      not_false_eq_true, Except.ok.injEq]
    split_ifs with hdeadline
    · simp [not_lt.mpr hdeadline]
    · simp [not_le.mp hdeadline]
  | unfinished last hlast hcompletion =>
    simp only [Permits, hlast, Option.some.injEq, forall_eq',
      OutboxAttempt.permits_of_unfinished hcompletion, Except.ok.injEq]
    by_cases hdeadline : history.delivery.expiresAt ≤ instant
    · simp only [hdeadline, if_true, not_lt.mpr hdeadline, false_and, iff_false]
      split_ifs <;> simp
    · simp only [hdeadline, if_false, not_le.mp hdeadline, true_and]
      by_cases hlease : last.start.expiresAt ≤ instant
      · simp only [hlease, not_lt.mpr hlease, and_true, if_false]
        split_ifs <;> simp_all
      · simp [hlease, not_le.mp hlease]
  | acknowledged last completion evidence hlast hcompletion houtcome =>
    simp [Permits, hlast, OutboxAttempt.not_permits_of_acknowledged hcompletion houtcome]
  | never last completion failure hlast hcompletion houtcome hadvice =>
    simp [Permits, hlast, OutboxAttempt.permits_of_failed hcompletion houtcome, hadvice]
  | retryable last completion failure delay hlast hcompletion houtcome hadvice =>
    simp only [Permits, hlast, Option.some.injEq, forall_eq',
      OutboxAttempt.permits_of_failed hcompletion houtcome, hadvice, Except.ok.injEq,
      RetryAdvice.safeAfter.injEq, exists_eq_left']
    by_cases hdeadline : history.delivery.expiresAt ≤ instant
    · simp only [hdeadline, if_true, not_lt.mpr hdeadline, false_and, iff_false]
      split_ifs <;> simp
    · simp only [hdeadline, if_false, not_le.mp hdeadline, true_and]
      split_ifs <;> simp_all

end OutboxAttemptHistoryVerifier

/-- Nothing happens to the delivery any more. -/
def OutboxDeliveryStatus.Absorbing (status : OutboxDeliveryStatus) : Prop :=
  status = .acknowledged ∨ status = .deadLetter ∨ status = .expired

namespace OutboxAttemptHistoryVerifier

variable {history next : OutboxAttemptHistoryVerifier E} {attempt : OutboxAttempt E}
  {instant later : Timestamp} {status : OutboxDeliveryStatus}

theorem statusAt_of_absorbing {delivery : OutboxDelivery E} {attempts : List (OutboxAttempt E)}
    (hverified : Verified delivery attempts history) (hnow : history.latestAt ≤ instant)
    (hstatus : history.statusAt instant = .ok status) (habsorbing : status.Absorbing)
    (hle : instant ≤ later) : history.statusAt later = .ok status := by
  have hlater := hnow.trans hle
  obtain ⟨statusOf, hending⟩ := history.exists_ending
  rw [hending.statusAt_eq hnow, Except.ok.injEq] at hstatus
  rw [hending.statusAt_eq hlater, Except.ok.injEq]
  cases hending with
  | empty hlast =>
    beta_reduce at hstatus ⊢
    by_cases hdeadline : history.delivery.expiresAt ≤ instant
    · rw [if_pos (hdeadline.trans hle), ← hstatus, if_pos hdeadline]
    · rw [if_neg hdeadline] at hstatus
      subst hstatus
      simp [OutboxDeliveryStatus.Absorbing] at habsorbing
  | unfinished last hlast hcompletion =>
    beta_reduce at hstatus ⊢
    have hwindow : last.start.expiresAt ≤ history.delivery.expiresAt := by
      rw [← hverified.last_delivery hlast]
      exact last.start.window.2.2
    by_cases hlapsed : history.count = maxOutboxAttempts ∧ last.start.expiresAt ≤ instant
    · rw [if_pos ⟨hlapsed.1, hlapsed.2.trans hle⟩, ← hstatus, if_pos hlapsed]
    · rw [if_neg hlapsed] at hstatus
      by_cases hdeadline : history.delivery.expiresAt ≤ instant
      · -- the lease has ended by the deadline, so attempts are left
        have hcount : history.count ≠ maxOutboxAttempts :=
          fun hcount => hlapsed ⟨hcount, hwindow.trans hdeadline⟩
        rw [if_neg (fun h => hcount h.1), if_pos (hdeadline.trans hle), ← hstatus,
          if_pos hdeadline]
      · rw [if_neg hdeadline] at hstatus
        subst hstatus
        simp only [OutboxDeliveryStatus.Absorbing] at habsorbing
        split at habsorbing <;> simp at habsorbing
  | acknowledged => exact hstatus
  | never => exact hstatus
  | retryable last completion failure delay hlast hcompletion houtcome hadvice =>
    beta_reduce at hstatus ⊢
    by_cases hcount : history.count = maxOutboxAttempts
    · rw [if_pos hcount, ← hstatus, if_pos hcount]
    · rw [if_neg hcount] at hstatus ⊢
      by_cases hdeadline : history.delivery.expiresAt ≤ instant
      · rw [if_pos (hdeadline.trans hle), ← hstatus, if_pos hdeadline]
      · rw [if_neg hdeadline] at hstatus
        subst hstatus
        simp only [OutboxDeliveryStatus.Absorbing] at habsorbing
        split at habsorbing <;> simp at habsorbing

theorem statusAt_of_verifyNext {delivery : OutboxDelivery E} {attempts : List (OutboxAttempt E)}
    (hverified : Verified delivery attempts history)
    (hnow : history.latestAt ≤ attempt.start.startedAt)
    (hnext : history.verifyNext attempt = .ok next) :
    history.statusAt attempt.start.startedAt = .ok .pending := by
  obtain ⟨hcount, hdelivery, _, _, hpermits, _⟩ := verifyNext_eq_ok.mp hnext
  refine (statusAt_eq_pending_iff hverified hnow).mpr ⟨?_, hcount, hpermits⟩
  rw [← hdelivery]
  exact attempt.start.window.1

end OutboxAttemptHistoryVerifier

/-- The status of a delivery and the admission of its next attempt decide the same thing.  After
the latest evidence of a verified history there is a status; an attempt at the delivery with a
fresh identity and the next epoch is accepted exactly when the delivery is pending as it starts.
An acknowledged, dead-lettered or expired delivery stays so and takes no later attempt. -/
theorem outbox_status_decides_admission {delivery : OutboxDelivery E}
    {attempts : List (OutboxAttempt E)} {history : OutboxAttemptHistoryVerifier E}
    {instant : Timestamp}
    (hhistory : attempts.foldlM OutboxAttemptHistoryVerifier.verifyNext (.new delivery) =
      .ok history)
    (hnow : history.latestAt ≤ instant) :
    ∃ status, history.statusAt instant = .ok status ∧
      (∀ attempt : OutboxAttempt E, attempt.start.delivery = delivery.head →
        attempt.start.fence.attemptId ∉ attempts.map (·.start.fence.attemptId) →
        history.NextEpoch attempt.start.fence.epoch → attempt.start.startedAt = instant →
        ((∃ next, history.verifyNext attempt = .ok next) ↔ status = .pending)) ∧
      (status = .acknowledged ∨ status = .deadLetter ∨ status = .expired →
        (∀ later, instant ≤ later → history.statusAt later = .ok status) ∧
        ∀ attempt : OutboxAttempt E, instant ≤ attempt.start.startedAt →
          ¬ ∃ next, history.verifyNext attempt = .ok next) := by
  have hverified := OutboxAttemptHistoryVerifier.Verified.of_foldlM hhistory
  obtain ⟨statusOf, hending⟩ := history.exists_ending
  have hstatus := hending.statusAt_eq hnow
  refine ⟨statusOf instant, hstatus, fun attempt hdelivery hfresh hepoch hstart => ?_, fun habsorbing => ?_⟩
  · have hpending := OutboxAttemptHistoryVerifier.statusAt_eq_pending_iff hverified hnow
    rw [hstatus, Except.ok.injEq] at hpending
    rw [hpending]
    constructor
    · intro hnext
      obtain ⟨next, hnext⟩ := hnext
      subst hstart
      have hpending' := OutboxAttemptHistoryVerifier.statusAt_of_verifyNext hverified hnow hnext
      exact (OutboxAttemptHistoryVerifier.statusAt_eq_pending_iff hverified hnow).mp hpending'
    · intro hopen
      obtain ⟨_, hcount, hpermits⟩ := hopen
      refine ⟨_, OutboxAttemptHistoryVerifier.verifyNext_eq_ok.mpr ⟨hcount, ?_, ?_, hepoch, ?_,
        rfl⟩⟩
      · rw [hdelivery, hverified.delivery_eq]
      · rw [hverified.ids_eq, List.mem_reverse]
        exact hfresh
      · rw [hstart]
        exact hpermits
  · have hkept : ∀ later, instant ≤ later → history.statusAt later = .ok (statusOf instant) :=
      fun later hle =>
        OutboxAttemptHistoryVerifier.statusAt_of_absorbing hverified hnow hstatus habsorbing hle
    refine ⟨hkept, fun attempt hstart hnext => ?_⟩
    obtain ⟨next, hnext⟩ := hnext
    have hpending := OutboxAttemptHistoryVerifier.statusAt_of_verifyNext hverified
      (hnow.trans hstart) hnext
    rw [hkept _ hstart, Except.ok.injEq] at hpending
    simp [hpending] at habsorbing

namespace Outbox.Sample

/-- A delivery with its deadline a hundred microseconds after its origin. -/
def delivery : Option (OutboxDelivery .compact) := do
  let schema : SchemaReference := ⟨⟨"schema"⟩, ⟨"1.0.0"⟩, ⟨[]⟩⟩
  let payload ← (JournalPayload.new schema ⟨"update"⟩ ⟨.null, ⟨4, 0, 1⟩⟩).toOption
  let intent ← (OutboxDeliveryIntent.new ⟨"tenant"⟩ ⟨"run"⟩ ⟨"delivery"⟩ ⟨"event"⟩
    ⟨⟨"tenant"⟩, ⟨"destination"⟩, ⟨[]⟩⟩ payload (.ofMicros 100)).toOption
  (OutboxDelivery.commit intent ⟨⟨"tenant"⟩, ⟨"run"⟩, .first, ⟨"event"⟩,
    .ofMicros 0, ⟨[]⟩⟩).toOption

/-- An attempt that has not ended. -/
def attempt (delivery : OutboxDelivery .compact) (attemptId : AttemptId) (epoch : FencingEpoch)
    (startedAt expiresAt : Timestamp) : Option (OutboxAttempt .compact) := do
  let start ← (OutboxAttemptStart.new delivery
    ⟨⟨"tenant"⟩, ⟨"run"⟩, ⟨"delivery"⟩, attemptId, epoch⟩ startedAt expiresAt).toOption
  return .delivering start

/-- A first attempt whose lease ends at ten, and a second one that starts at twenty. -/
def lapsed : Option (OutboxDelivery .compact × OutboxAttempt .compact ×
    OutboxAttemptHistoryVerifier .compact × OutboxAttempt .compact) := do
  let delivery ← delivery
  let first ← attempt delivery ⟨"first"⟩ .first (.ofMicros 5) (.ofMicros 10)
  let history ← ([first].foldlM OutboxAttemptHistoryVerifier.verifyNext (.new delivery)).toOption
  let second ← attempt delivery ⟨"second"⟩ (.ofNat 2) (.ofMicros 20)
    (.ofMicros 30)
  return (delivery, first, history, second)

end Outbox.Sample

/-- Once the lease of the first attempt has lapsed the delivery is pending and takes a second. -/
theorem outbox_status_decides_admission_lapsed :
    ∃ (history next : OutboxAttemptHistoryVerifier .compact) (attempt : OutboxAttempt .compact),
      history.count = 1 ∧
      history.statusAt (.ofMicros 20) = .ok .pending ∧
      history.verifyNext attempt = .ok next := by
  have hsome : (Outbox.Sample.lapsed.any (fun sample =>
      sample.2.2.1.latestAt ≤ .ofMicros 20 ∧
      sample.2.2.1.count = 1 ∧
      sample.2.2.1.statusAt (.ofMicros 20) = .ok .pending ∧
      sample.2.2.2.start.delivery = sample.1.head ∧
      sample.2.2.2.start.fence.attemptId ∉ [sample.2.1].map (·.start.fence.attemptId) ∧
      sample.2.2.1.last.any (fun last =>
        last.start.fence.epoch.checkedNext = some sample.2.2.2.start.fence.epoch) ∧
      sample.2.2.2.start.startedAt = .ofMicros 20)) = true := by
    decide +kernel
  obtain ⟨⟨delivery, first, history, second⟩, hsample, hchecked⟩ :=
    (Option.any_eq_true _ _).mp hsome
  obtain ⟨hnow, hcount, hpending, hdelivery, hfresh, hepoch, hstart⟩ := of_decide_eq_true hchecked
  simp only [Outbox.Sample.lapsed, Option.bind_eq_bind, Option.bind_eq_some_iff,
    toOption_eq_some, pure, Option.some.injEq, Prod.mk.injEq] at hsample
  obtain ⟨delivery, _, first, _, history, hhistory, second, _, rfl, rfl, rfl, rfl⟩ := hsample
  obtain ⟨status, hstatus, hadmits, _⟩ := outbox_status_decides_admission hhistory hnow
  obtain rfl := Except.ok.inj (hpending.symm.trans hstatus)
  have hnext : history.NextEpoch second.start.fence.epoch := by
    obtain ⟨last, hlast, hsuccessor⟩ := (Option.any_eq_true _ _).mp hepoch
    unfold OutboxAttemptHistoryVerifier.NextEpoch
    rw [hlast]
    exact of_decide_eq_true hsuccessor
  obtain ⟨next, haccepted⟩ := (hadmits second hdelivery hfresh hnext hstart).mpr rfl
  exact ⟨history, next, second, hcount, hpending, haccepted⟩

end StateKnot
