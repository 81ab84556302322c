import StateKnot.Lib.Spans
import StateKnot.Recovery.Workers

/-!
# Histories of attempts

A verifier keeps the last attempt of a node and the identities used so far, and
compares each new attempt with the last one only.  `NodeAttempt.Before` collects what
that comparison says about any two attempts of a history, however far apart: it is
transitive, so it holds of every pair once it holds of neighbours.
-/

namespace StateKnot

open Lib

variable {E : Encoding}

namespace NodeAttempt

theorem start_le_anchor (attempt : NodeAttempt E) :
    attempt.start.journalHead.sequence ≤ attempt.anchor.sequence ∧
      attempt.start.journalHead.recordedAt ≤ attempt.anchor.recordedAt := by
  unfold anchor
  split
  next completion hcompletion =>
    have hstart := attempt.completes_start completion hcompletion
    have hshape := completion.shape_ok
    simp only [validateCompletionShape, bind_eq_ok, reject_eq_ok, exists_const, not_le,
      not_lt] at hshape
    obtain ⟨_, _, hsequence, hclock, _⟩ := hshape
    rw [hstart] at hsequence hclock
    exact ⟨hsequence.le, hclock⟩
  next => exact ⟨le_rfl, le_rfl⟩

/-- What an attempt of a history has to do with a later one. -/
structure Before (earlier later : NodeAttempt E) : Prop where
  sequence_lt : earlier.anchor.sequence < later.start.journalHead.sequence
  recordedAt_le : earlier.anchor.recordedAt ≤ later.start.journalHead.recordedAt
  epoch_le : earlier.start.fence.epoch ≤ later.start.fence.epoch
  not_succeeded : earlier.status ≠ .succeeded
  superseded : earlier.status = .executing →
    earlier.start.fence.epoch < later.start.fence.epoch
  retried : ∀ completion ∈ earlier.completion, ∀ failure,
    completion.outcome = .failed failure → ∃ delay, failure.retryAdvice = .safeAfter delay ∧
      retryEligibleMicros completion.journalHead.recordedAt delay ≤
        later.start.journalHead.recordedAt.micros

theorem Before.trans {a b c : NodeAttempt E} (hab : a.Before b) (hbc : b.Before c) :
    a.Before c where
  sequence_lt := hab.sequence_lt.trans (b.start_le_anchor.1.trans_lt hbc.sequence_lt)
  recordedAt_le := hab.recordedAt_le.trans (b.start_le_anchor.2.trans hbc.recordedAt_le)
  epoch_le := hab.epoch_le.trans hbc.epoch_le
  not_succeeded := hab.not_succeeded
  superseded := fun h => (hab.superseded h).trans_le hbc.epoch_le
  retried := by
    intro completion hcompletion failure hfailure
    obtain ⟨delay, hadvice, helapsed⟩ := hab.retried completion hcompletion failure hfailure
    have hclock : b.start.journalHead.recordedAt ≤ c.start.journalHead.recordedAt :=
      b.start_le_anchor.2.trans hbc.recordedAt_le
    exact ⟨delay, hadvice, helapsed.trans (Timestamp.le_iff.mp hclock)⟩

theorem Precedes.before {previous next : NodeAttempt E} (h : previous.Precedes next) :
    previous.Before next := by
  have hpermitted := h.permitted
  unfold Permits at hpermitted
  refine ⟨h.sequence_lt, h.recordedAt_le, h.fence_follows.epoch_le, ?_, ?_, ?_⟩
  · intro hsucceeded
    unfold status at hsucceeded
    cases hcompletion : previous.completion with
    | none => simp [hcompletion] at hsucceeded
    | some completion =>
      rw [hcompletion] at hpermitted hsucceeded
      cases houtcome : completion.outcome with
      | succeeded result => simp [houtcome] at hpermitted
      | failed failure => simp [houtcome, NodeAttemptOutcome.status] at hsucceeded
  · intro hexecuting
    unfold status at hexecuting
    cases hcompletion : previous.completion with
    | none =>
      rw [hcompletion] at hpermitted
      exact hpermitted
    | some completion =>
      rw [hcompletion] at hexecuting
      cases houtcome : completion.outcome <;>
        simp [houtcome, NodeAttemptOutcome.status] at hexecuting
  · intro completion hcompletion failure hfailure
    rw [Option.mem_def.mp hcompletion] at hpermitted
    simp only [hfailure] at hpermitted
    cases hadvice : failure.retryAdvice with
    | safeAfter delay =>
      simp only [hadvice] at hpermitted
      exact ⟨delay, rfl, hpermitted⟩
    | never => simp [hadvice] at hpermitted
    | reconcileFirst => simp [hadvice] at hpermitted

end NodeAttempt

/-! ## Verified histories -/

/-- What a verified history is: attempts of one activation under identities of their own,
each before all later ones, and none but the last succeeded. -/
structure VerifiedHistory (attempts : List (NodeAttempt E)) : Prop where
  activation_eq : ∀ a ∈ attempts, ∀ b ∈ attempts, a.start.activation = b.start.activation
  ids_nodup : (attempts.map (·.start.attemptId)).Nodup
  evidence : ∀ attempt ∈ attempts,
    attempt.start.journalHead.sequence ≤ attempt.anchor.sequence ∧
      attempt.start.journalHead.recordedAt ≤ attempt.anchor.recordedAt
  before : attempts.Pairwise NodeAttempt.Before
  succeeded_last : ∀ attempt ∈ attempts.dropLast, attempt.status ≠ .succeeded

theorem VerifiedHistory.of_verified {attempts : List (NodeAttempt E)}
    {history : NodeAttemptHistoryVerifier E}
    (h : attempts.foldlM NodeAttemptHistoryVerifier.verifyNext .new = .ok history) :
    VerifiedHistory attempts := by
  obtain ⟨hids, hchain, _⟩ := foldlM_verifyNext_eq_ok.mp h
  have hbefore : attempts.Pairwise NodeAttempt.Before :=
    pairwise_of_isChain hchain (fun _ _ => NodeAttempt.Precedes.before) NodeAttempt.Before.trans
  refine ⟨field_eq_of_isChain hchain (fun _ _ hprecedes => hprecedes.activation_eq), hids,
    fun attempt _ => attempt.start_le_anchor, hbefore, fun attempt hattempt => ?_⟩
  have hne : attempts ≠ [] := by
    intro hnil
    simp [hnil] at hattempt
  rw [← List.dropLast_append_getLast hne, List.pairwise_append] at hbefore
  exact (hbefore.2.2 attempt hattempt _ (List.mem_singleton_self _)).not_succeeded

namespace NodeAttemptHistoryVerifier

/-- A verifier that continues after a record is one that has just accepted it. -/
theorem verifyNext_new (record : NodeAttempt E) :
    (new : NodeAttemptHistoryVerifier E).verifyNext record = .ok (after record) :=
  verifyNext_eq_ok.mpr ⟨by simp [new], by simp [new], rfl⟩

/-- Updates in place happen after the last check, so a rejected attempt changes nothing. -/
theorem verifyNextInPlace_eq (history : NodeAttemptHistoryVerifier E) (attempt : NodeAttempt E) :
    history.verifyNextInPlace attempt =
      match history.verifyNext attempt with
      | .ok next => (.ok (), next)
      | .error error => (.error error, history) := by
  unfold verifyNextInPlace verifyNext
  dsimp only
  by_cases hreused : attempt.start.attemptId ∈ history.attemptIds
  · rw [if_pos hreused, reject, if_pos hreused]
    rfl
  · rw [if_neg hreused, reject, if_neg hreused, ok_bind]
    cases history.last with
    | none => rfl
    | some previous =>
      dsimp only [Option.elim]
      cases validateHistorySuccessor previous attempt <;> rfl

/-- The attempts that a verifier accepts of those offered to it one after the other. -/
def acceptedBy : NodeAttemptHistoryVerifier E → List (NodeAttempt E) → List (NodeAttempt E)
  | _, [] => []
  | history, attempt :: offered =>
    match history.verifyNextInPlace attempt with
    | (.ok (), next) => attempt :: acceptedBy next offered
    | (.error _, next) => acceptedBy next offered

theorem foldlM_acceptedBy (history : NodeAttemptHistoryVerifier E)
    (offered : List (NodeAttempt E)) :
    ∃ last, (history.acceptedBy offered).foldlM verifyNext history = .ok last := by
  induction offered generalizing history with
  | nil => exact ⟨history, rfl⟩
  | cons attempt offered ih =>
    rw [acceptedBy, verifyNextInPlace_eq]
    cases hverify : history.verifyNext attempt with
    | ok next =>
      obtain ⟨last, hlast⟩ := ih next
      refine ⟨last, ?_⟩
      rw [List.foldlM_cons, hverify, ok_bind, hlast]
    | error error => exact ih history

end NodeAttemptHistoryVerifier

/-- The attempts that one verifier accepts, from the start or after a durable record, form a
history however many rejected ones were offered in between; a rejected attempt leaves the
verifier as it was. -/
theorem attempt_history_invariant (offered : List (NodeAttempt E)) :
    VerifiedHistory (NodeAttemptHistoryVerifier.new.acceptedBy offered) ∧
    (∀ record : NodeAttempt E, VerifiedHistory
      (record :: (NodeAttemptHistoryVerifier.after record).acceptedBy offered)) ∧
    ∀ (history : NodeAttemptHistoryVerifier E) (attempt : NodeAttempt E),
      (history.verifyNextInPlace attempt).1 = .ok () ∨
        (history.verifyNextInPlace attempt).2 = history := by
  refine ⟨?_, fun record => ?_, fun history attempt => ?_⟩
  · obtain ⟨last, hlast⟩ := NodeAttemptHistoryVerifier.new.foldlM_acceptedBy offered
    exact .of_verified hlast
  · obtain ⟨last, hlast⟩ := (NodeAttemptHistoryVerifier.after record).foldlM_acceptedBy offered
    have hrecord : (record :: (NodeAttemptHistoryVerifier.after record).acceptedBy offered).foldlM
        NodeAttemptHistoryVerifier.verifyNext .new = .ok last := by
      rw [List.foldlM_cons, NodeAttemptHistoryVerifier.verifyNext_new, ok_bind, hlast]
    exact .of_verified hrecord
  · rw [NodeAttemptHistoryVerifier.verifyNextInPlace_eq]
    cases history.verifyNext attempt with
    | ok next => exact .inl rfl
    | error error => exact .inr rfl

end StateKnot
