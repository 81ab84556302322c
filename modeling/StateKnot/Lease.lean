import StateKnot.Identity

/-!
# Run leases and fencing

A worker owns a run through a lease.  The lease's fence names the worker attempt
and the fencing epoch; a renewal keeps the fence and extends the expiry, a
supersession hands the run to another worker under the next epoch.
-/

namespace StateKnot

open Lib

/-- Run-scoped token that a durable write must present. -/
structure RunFence where
  tenantId : TenantId
  runId : RunId
  attemptId : AttemptId
  epoch : FencingEpoch
deriving DecidableEq

namespace RunFence

def toJson (fence : RunFence) : Json :=
  .obj [("tenant_id", fence.tenantId.toJson), ("run_id", fence.runId.toJson),
    ("attempt_id", fence.attemptId.toJson), ("epoch", fence.epoch.toJson)]

@[simp] theorem rfc8785_inj {a b : RunFence} :
    a.toJson.rfc8785 = b.toJson.rfc8785 ↔ a = b := by
  refine Iff.trans (Json.rfc8785_obj_inj rfl (by simp)) ?_
  cases a
  cases b
  simp

end RunFence

/-- A lease observation: acquired, last renewed and expiring at ordered instants. -/
structure RunLease where
  fence : RunFence
  acquiredAt : Timestamp
  renewedAt : Timestamp
  expiresAt : Timestamp
  renewed_after_acquired : acquiredAt ≤ renewedAt
  expires_after_renewed : renewedAt < expiresAt

/-- A fence or instant that the current lease rejects. -/
inductive RunLeaseValidationError where
  | tenantMismatch
  | runMismatch
  | attemptMismatch (expected actual : AttemptId)
  | epochMismatch (expected actual : FencingEpoch)
  | observationBeforeAcquisition (acquiredAt observedAt : Timestamp)
  | observationBeforeRenewal (renewedAt observedAt : Timestamp)
  | expired (expiresAt observedAt : Timestamp)

/-- An invalid lease or lease transition. -/
inductive RunLeaseError where
  | renewalBeforeAcquisition (acquiredAt renewedAt : Timestamp)
  | expiryNotAfterObservation (observedAt expiresAt : Timestamp)
  | fence (source : RunLeaseValidationError)
  | renewalClockRegression (previous actual : Timestamp)
  | renewalTooLate (expiresAt renewedAt : Timestamp)
  | expiryNotExtended (previous actual : Timestamp)
  | attemptReused (attemptId : AttemptId)
  | supersessionClockRegression (previous actual : Timestamp)
  | epochOverflow

namespace RunLease

/-- `from_observations`, the checked constructor behind `restore` and `new`. -/
def fromObservations (fence : RunFence) (acquiredAt renewedAt expiresAt : Timestamp) :
    Except RunLeaseError RunLease :=
  if hacquired : renewedAt < acquiredAt then
    .error (.renewalBeforeAcquisition acquiredAt renewedAt)
  else if hexpires : expiresAt ≤ renewedAt then
    .error (.expiryNotAfterObservation renewedAt expiresAt)
  else
    .ok ⟨fence, acquiredAt, renewedAt, expiresAt, not_lt.mp hacquired, not_le.mp hexpires⟩

def new (fence : RunFence) (acquiredAt expiresAt : Timestamp) :
    Except RunLeaseError RunLease :=
  fromObservations fence acquiredAt acquiredAt expiresAt

def first (tenantId : TenantId) (runId : RunId) (attemptId : AttemptId)
    (acquiredAt expiresAt : Timestamp) : Except RunLeaseError RunLease :=
  new ⟨tenantId, runId, attemptId, .first⟩ acquiredAt expiresAt

def validateFence (lease : RunLease) (fence : RunFence) :
    Except RunLeaseValidationError Unit := do
  reject (fence.tenantId ≠ lease.fence.tenantId) .tenantMismatch
  reject (fence.runId ≠ lease.fence.runId) .runMismatch
  reject (fence.attemptId ≠ lease.fence.attemptId)
    (.attemptMismatch lease.fence.attemptId fence.attemptId)
  reject (fence.epoch ≠ lease.fence.epoch) (.epochMismatch lease.fence.epoch fence.epoch)

def validateWrite (lease : RunLease) (fence : RunFence) (observedAt : Timestamp) :
    Except RunLeaseValidationError Unit := do
  lease.validateFence fence
  reject (observedAt < lease.acquiredAt)
    (.observationBeforeAcquisition lease.acquiredAt observedAt)
  reject (observedAt < lease.renewedAt) (.observationBeforeRenewal lease.renewedAt observedAt)
  reject (observedAt ≥ lease.expiresAt) (.expired lease.expiresAt observedAt)

def renewed (lease : RunLease) (fence : RunFence) (renewedAt expiresAt : Timestamp) :
    Except RunLeaseError RunLease := do
  (lease.validateFence fence).mapError .fence
  reject (renewedAt < lease.renewedAt) (.renewalClockRegression lease.renewedAt renewedAt)
  reject (renewedAt ≥ lease.expiresAt) (.renewalTooLate lease.expiresAt renewedAt)
  reject (expiresAt ≤ lease.expiresAt) (.expiryNotExtended lease.expiresAt expiresAt)
  fromObservations lease.fence lease.acquiredAt renewedAt expiresAt

def superseded (lease : RunLease) (attemptId : AttemptId) (acquiredAt expiresAt : Timestamp) :
    Except RunLeaseError RunLease := do
  reject (attemptId = lease.fence.attemptId) (.attemptReused attemptId)
  reject (acquiredAt < lease.renewedAt)
    (.supersessionClockRegression lease.renewedAt acquiredAt)
  let epoch ← okOr lease.fence.epoch.checkedNext .epochOverflow
  new ⟨lease.fence.tenantId, lease.fence.runId, attemptId, epoch⟩ acquiredAt expiresAt

variable {fence : RunFence} {lease next : RunLease}

variable {expiresAt renewedAt : Timestamp}

theorem fence_of_fromObservations {acquiredAt : Timestamp} (h : fromObservations fence acquiredAt renewedAt expiresAt = .ok lease) :
    lease.fence = fence := by
  unfold fromObservations at h
  split at h
  · cases h
  · split at h
    · cases h
    · cases h
      rfl

/-- A supersession keeps the run scope, takes the next epoch and another worker. -/
theorem superseded_fence {attemptId : AttemptId} {acquiredAt : Timestamp}
    (h : lease.superseded attemptId acquiredAt expiresAt = .ok next) :
    next.fence.tenantId = lease.fence.tenantId ∧ next.fence.runId = lease.fence.runId ∧
      next.fence.attemptId = attemptId ∧ attemptId ≠ lease.fence.attemptId ∧
      next.fence.epoch.value = lease.fence.epoch.value + 1 := by
  unfold superseded at h
  simp only [bind_eq_ok, reject_eq_ok, okOr_eq_ok] at h
  obtain ⟨_, hreused, _, _, epoch, hepoch, hnew⟩ := h
  have hfence := fence_of_fromObservations hnew
  rw [hfence]
  exact ⟨rfl, rfl, rfl, hreused, Ordinal.checkedNext_eq_some.mp hepoch⟩

theorem renewed_fence (h : lease.renewed fence renewedAt expiresAt = .ok next) :
    next.fence = lease.fence := by
  unfold renewed at h
  simp only [bind_eq_ok] at h
  obtain ⟨_, _, _, _, _, _, _, _, hnew⟩ := h
  exact fence_of_fromObservations hnew

/-! ## Chains of leases -/

/-- One successful renewal or supersession. -/
inductive Step : RunLease → RunLease → Prop
  | renew {lease next : RunLease} {fence : RunFence} {renewedAt expiresAt : Timestamp}
      (h : lease.renewed fence renewedAt expiresAt = .ok next) : Step lease next
  | supersede {lease next : RunLease} {attemptId : AttemptId} {acquiredAt expiresAt : Timestamp}
      (h : lease.superseded attemptId acquiredAt expiresAt = .ok next) : Step lease next

theorem renewed_expiresAt (h : lease.renewed fence renewedAt expiresAt = .ok next) :
    lease.expiresAt < next.expiresAt := by
  unfold renewed at h
  simp only [bind_eq_ok, reject_eq_ok, not_le] at h
  obtain ⟨_, _, _, _, _, _, _, hextended, hnew⟩ := h
  unfold fromObservations at hnew
  split at hnew
  · cases hnew
  · split at hnew
    · cases hnew
    · cases hnew
      exact hextended

theorem Step.epoch_le (h : Step lease next) :
    lease.fence.epoch ≤ next.fence.epoch := by
  cases h with
  | renew h => rw [renewed_fence h]
  | supersede h =>
    rw [Ordinal.le_iff, (superseded_fence h).2.2.2.2]
    omega

theorem epoch_le_of_chain {later : RunLease} (h : Relation.ReflTransGen Step lease later) :
    lease.fence.epoch ≤ later.fence.epoch := by
  induction h with
  | refl => exact le_refl _
  | tail _ hstep ih => exact ih.trans hstep.epoch_le

theorem validateFence_eq_ok {u : Unit} :
    lease.validateFence fence = .ok u ↔ fence = lease.fence := by
  simp only [validateFence, bind_eq_ok, reject_eq_ok, exists_const, ne_eq, not_not]
  constructor
  · rintro ⟨htenant, hrun, hattempt, hepoch⟩
    cases fence
    cases hlease : lease.fence
    rw [hlease] at htenant hrun hattempt hepoch
    cases htenant
    cases hrun
    cases hattempt
    cases hepoch
    rfl
  · rintro rfl
    exact ⟨rfl, rfl, rfl, rfl⟩

/-- A lease admits writes under its own fence, from its last observation until it expires. -/
theorem validateWrite_eq_ok {observedAt : Timestamp} {u : Unit} :
    lease.validateWrite fence observedAt = .ok u ↔
      fence = lease.fence ∧ lease.renewedAt ≤ observedAt ∧ observedAt < lease.expiresAt := by
  simp only [validateWrite, bind_eq_ok, reject_eq_ok, exists_const, validateFence_eq_ok, not_lt,
    not_le]
  constructor
  · rintro ⟨hfence, _, hrenewed, hexpires⟩
    exact ⟨hfence, hrenewed, hexpires⟩
  · rintro ⟨hfence, hrenewed, hexpires⟩
    exact ⟨hfence, lease.renewed_after_acquired.trans hrenewed, hrenewed, hexpires⟩

end RunLease

/-- Fencing along every chain of renewals and supersessions from a first lease.  A renewal keeps
the epoch and extends the expiry, a supersession takes the next epoch; a lease lets exactly its
own fence write, from its last observation until it expires; and once a lease is superseded no
later lease ever lets its fence write again, whichever workers come later. -/
theorem lease_chain_fencing {tenantId : TenantId} {runId : RunId} {attemptId : AttemptId}
    {acquiredAt expiresAt : Timestamp} {first lease : RunLease}
    (hfirst : RunLease.first tenantId runId attemptId acquiredAt expiresAt = .ok first)
    (hchain : Relation.ReflTransGen RunLease.Step first lease) :
    FencingEpoch.first ≤ lease.fence.epoch ∧
    lease.acquiredAt ≤ lease.renewedAt ∧ lease.renewedAt < lease.expiresAt ∧
    (∀ fence renewedAt expiresAt next, lease.renewed fence renewedAt expiresAt = .ok next →
      next.fence.epoch = lease.fence.epoch ∧ lease.expiresAt < next.expiresAt) ∧
    (∀ attemptId acquiredAt expiresAt next,
      lease.superseded attemptId acquiredAt expiresAt = .ok next →
      next.fence.epoch.value = lease.fence.epoch.value + 1) ∧
    (∀ fence observedAt, lease.validateWrite fence observedAt = .ok () ↔
      fence = lease.fence ∧ lease.renewedAt ≤ observedAt ∧ observedAt < lease.expiresAt) ∧
    ∀ attemptId acquiredAt expiresAt next later observedAt,
      lease.superseded attemptId acquiredAt expiresAt = .ok next →
      Relation.ReflTransGen RunLease.Step next later →
      later.validateWrite lease.fence observedAt ≠ .ok () := by
  refine ⟨?_, lease.renewed_after_acquired, lease.expires_after_renewed,
    fun _ _ _ next hnext => ⟨?_, RunLease.renewed_expiresAt hnext⟩,
    fun _ _ _ next hnext => (RunLease.superseded_fence hnext).2.2.2.2,
    fun _ _ => RunLease.validateWrite_eq_ok, ?_⟩
  · have hepoch : first.fence.epoch = .first := by rw [RunLease.fence_of_fromObservations hfirst]
    rw [← hepoch]
    exact RunLease.epoch_le_of_chain hchain
  · rw [RunLease.renewed_fence hnext]
  · intro attemptId acquiredAt expiresAt next later observedAt hnext hlater hwrite
    -- later leases have a higher epoch than the superseded fence
    have hfence := (RunLease.validateWrite_eq_ok.mp hwrite).1
    have hle := RunLease.epoch_le_of_chain hlater
    have hepoch := (RunLease.superseded_fence hnext).2.2.2.2
    rw [← hfence, Ordinal.le_iff] at hle
    omega

/-- The first worker comes back in the third epoch; its first fence stays shut out. -/
theorem lease_chain_fencing_returning_worker :
    ∃ first second third : RunLease, first.fence.attemptId = third.fence.attemptId ∧
      Relation.ReflTransGen RunLease.Step first second ∧
      Relation.ReflTransGen RunLease.Step second third ∧
      third.validateWrite first.fence (.ofMicros 5) ≠ .ok () := by
  have hsome : ((do
      let first ← (RunLease.first ⟨"tenant"⟩ ⟨"run"⟩ ⟨"worker-1"⟩ (.ofMicros 0)
        (.ofMicros 2)).toOption
      let second ← (first.superseded ⟨"worker-2"⟩ (.ofMicros 2) (.ofMicros 4)).toOption
      let third ← (second.superseded ⟨"worker-1"⟩ (.ofMicros 4) (.ofMicros 6)).toOption
      return (first, second, third)).any (fun sample : RunLease × RunLease × RunLease =>
        sample.1.fence.attemptId = sample.2.2.fence.attemptId)) = true := by
    decide +kernel
  obtain ⟨⟨first, second, third⟩, hsample, hworker⟩ := (Option.any_eq_true _ _).mp hsome
  simp only [Option.bind_eq_bind, Option.bind_eq_some_iff, toOption_eq_some, pure,
    Option.some.injEq, Prod.mk.injEq] at hsample
  obtain ⟨first, hfirst, second, hsecond, third, hthird, rfl, rfl, rfl⟩ := hsample
  obtain ⟨_, _, _, _, _, _, hshut⟩ := lease_chain_fencing hfirst .refl
  have hlater : Relation.ReflTransGen RunLease.Step second third := .single (.supersede hthird)
  exact ⟨first, second, third, of_decide_eq_true hworker, .single (.supersede hsecond), hlater,
    hshut _ _ _ second third _ hsecond hlater⟩

end StateKnot
