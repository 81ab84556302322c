import StateKnot.Lib.Attempts
import StateKnot.Reference
import StateKnot.Run.Lifecycle

/-!
# Histories of a lifecycle

`Advances` lists what a transition can do to a state.  Each invariant of a lifecycle
is one pass over that list: the snapshot checks are preserved, the clock moves
forward, a cancellation request stays, and a result enters a state only through the
transition that carries it.
-/

namespace StateKnot

open Lib

variable {E : Encoding}

/-! ## What a transition does -/

/-- The states that a run can leave by failing or by being cancelled. -/
def RunState.isOpen : RunState E → Bool
  | .pending | .active _ | .waiting _ _ => true
  | _ => false

/-- A transition moves one state to another. -/
inductive RunState.Advances (provenance : AgentResultProvenance) :
    RunState E → RunTransition E → RunState E → Prop
  | start {startedAt} : Advances provenance .pending (.start startedAt) (.active startedAt)
  | wait {activatedAt waits} : Advances provenance (.active activatedAt) (.wait waits)
      (.waiting waits waits.registeredAt)
  | resolve {waits changedAt interruptId resolvedAt interrupt}
      (houtstanding : waits.interrupt interruptId = some interrupt)
      (hcurrent : ∀ expiresAt ∈ interrupt.expiresAt, resolvedAt < expiresAt) :
      Advances provenance (.waiting waits changedAt) (.resolveInterrupt interruptId resolvedAt)
        (resumeWith (waits.withoutInterrupt interruptId) resolvedAt)
  | fire {waits changedAt timerId firedAt timer}
      (houtstanding : waits.timer timerId = some timer) (hdue : timer.dueAt ≤ firedAt) :
      Advances provenance (.waiting waits changedAt) (.fireTimer timerId firedAt)
        (resumeWith (waits.withoutTimer timerId) firedAt)
  | requestCancellation {state request} (hopen : state.isOpen) :
      Advances provenance state (.requestCancellation request) (.cancellationRequested request)
  | confirmCancellation {cancellation : RunCancellation} :
      Advances provenance (.cancellationRequested cancellation.request)
        (.confirmCancellation cancellation.completedAt cancellation.usage)
        (.cancelled cancellation)
  | succeed {activatedAt result} (hprovenance : result.provenance = provenance) :
      Advances provenance (.active activatedAt) (.succeed result) (.succeeded result)
  | fail {state failure} (hopen : state.isOpen) :
      Advances provenance state (.fail failure) (.failed failure)

theorem resolveInterrupt_eq_ok {waits : RunWaits} {interruptId : InterruptId}
    {resolvedAt : Timestamp} {state : RunState E} :
    resolveInterrupt waits interruptId resolvedAt = .ok state ↔
      ∃ interrupt, waits.interrupt interruptId = some interrupt ∧
        (∀ expiresAt ∈ interrupt.expiresAt, resolvedAt < expiresAt) ∧
        state = resumeWith (waits.withoutInterrupt interruptId) resolvedAt := by
  simp only [resolveInterrupt, bind_eq_ok, okOr_eq_ok]
  refine exists_congr fun interrupt => and_congr_right fun _ => ?_
  cases interrupt.expiresAt with
  | none => simp [pure, Except.pure, eq_comm]
  | some expiresAt =>
    simp only [bind_eq_ok, reject_eq_ok, exists_const, not_le, Option.mem_some_iff, forall_eq',
      pure_eq_ok, eq_comm (a := state)]

theorem fireTimer_eq_ok {waits : RunWaits} {timerId : TimerId} {firedAt : Timestamp}
    {state : RunState E} :
    fireTimer waits timerId firedAt = .ok state ↔
      ∃ timer, waits.timer timerId = some timer ∧ timer.dueAt ≤ firedAt ∧
        state = resumeWith (waits.withoutTimer timerId) firedAt := by
  simp only [fireTimer, bind_eq_ok, okOr_eq_ok, reject_eq_ok, exists_const, not_lt, pure_eq_ok, eq_comm (a := state)]

theorem RunCancellation.new_eq_ok {request : RunCancellationRequest} {completedAt : Timestamp}
    {usage : BudgetUsage} {cancellation : RunCancellation} :
    RunCancellation.new request completedAt usage = .ok cancellation ↔
      cancellation.request = request ∧ cancellation.completedAt = completedAt ∧
        cancellation.usage = usage := by
  unfold RunCancellation.new
  obtain ⟨request', completedAt', usage', hafter⟩ := cancellation
  split
  · rename_i hlt
    simp only [reduceCtorEq, false_iff]
    rintro ⟨rfl, rfl, _⟩
    exact absurd hafter (not_le.mpr hlt)
  · simp [eq_comm]

theorem RunState.applyTransition_eq_ok {provenance : AgentResultProvenance} {state state' : RunState E}
    {transition : RunTransition E} :
    RunState.applyTransition provenance state transition = .ok state' ↔
      RunState.Advances provenance state transition state' := by
  constructor
  · intro h
    unfold RunState.applyTransition at h
    split at h
    · cases h
      exact .start
    · cases h
      exact .wait
    · obtain ⟨interrupt, houtstanding, hcurrent, rfl⟩ := resolveInterrupt_eq_ok.mp h
      exact .resolve houtstanding hcurrent
    · obtain ⟨timer, houtstanding, hdue, rfl⟩ := fireTimer_eq_ok.mp h
      exact .fire houtstanding hdue
    iterate 3
      · cases h
        exact .requestCancellation rfl
    · rw [bind_eq_ok] at h
      obtain ⟨cancellation, hnew, hstate⟩ := h
      rw [mapError_eq_ok, RunCancellation.new_eq_ok] at hnew
      obtain ⟨rfl, rfl, rfl⟩ := hnew
      cases hstate
      exact .confirmCancellation
    · rw [bind_eq_ok] at h
      obtain ⟨_, hprovenance, hstate⟩ := h
      rw [reject_eq_ok, not_not] at hprovenance
      cases hstate
      exact .succeed hprovenance
    iterate 3
      · cases h
        exact .fail rfl
    · cases h
  · intro h
    cases h with
    | start => rfl
    | wait => rfl
    | resolve houtstanding hcurrent =>
      exact resolveInterrupt_eq_ok.mpr ⟨_, houtstanding, hcurrent, rfl⟩
    | fire houtstanding hdue => exact fireTimer_eq_ok.mpr ⟨_, houtstanding, hdue, rfl⟩
    | requestCancellation hopen =>
      cases state <;> first | rfl | cases hopen
    | @confirmCancellation cancellation =>
      have hnew : RunCancellation.new cancellation.request cancellation.completedAt
          cancellation.usage = .ok cancellation :=
        RunCancellation.new_eq_ok.mpr ⟨rfl, rfl, rfl⟩
      simp only [RunState.applyTransition, hnew]
      rfl
    | succeed hprovenance =>
      simp only [RunState.applyTransition, bind_eq_ok, reject_eq_ok, not_not]
      exact ⟨(), hprovenance, rfl⟩
    | fail hopen =>
      cases state <;> first | rfl | cases hopen

theorem RunLifecycle.apply_eq_ok {lifecycle next : RunLifecycle E}
    {transition : RunTransition E} (h : lifecycle.apply transition = .ok next) :
    lifecycle.changedAt ≤ transition.changedAt ∧
      RunState.Advances lifecycle.provenance lifecycle.state transition next.state ∧
      next.revision.value = lifecycle.revision.value + 1 ∧
      next.provenance = lifecycle.provenance ∧ next.admittedAt = lifecycle.admittedAt := by
  simp only [apply, bind_eq_ok, reject_eq_ok, okOr_eq_ok, exists_const, not_lt, pure_eq_ok, RunState.applyTransition_eq_ok, RunRevision.checkedNext,
    Count.checkedAdd_eq_some] at h
  obtain ⟨_, hclock, state, hadvances, revision, hrevision, rfl⟩ := h
  exact ⟨hclock, hadvances, hrevision, rfl, rfl⟩

theorem transitionAllowed_of_isTerminal {status : RunStatus} {kind : RunTransitionKind}
    (h : status.isTerminal) : transitionAllowed status kind = false := by
  cases status with
  | succeeded | failed | cancelled => cases kind <;> rfl
  | _ => cases h

namespace RunState.Advances

variable {provenance : AgentResultProvenance} {state next : RunState E}
  {transition : RunTransition E}

theorem changedAt_eq (h : Advances provenance state transition next) (admittedAt : Timestamp) :
    next.changedAt admittedAt = transition.changedAt := by
  cases h with
  | @resolve waits _ interruptId =>
    cases hleft : waits.withoutInterrupt interruptId <;> rfl
  | @fire waits _ timerId =>
    cases hleft : waits.withoutTimer timerId <;> rfl
  | _ => rfl

theorem status_ne_pending (h : Advances provenance state transition next) :
    next.status ≠ .pending := by
  cases h with
  | @resolve waits _ interruptId =>
    cases hleft : waits.withoutInterrupt interruptId <;> simp [resumeWith, status]
  | @fire waits _ timerId =>
    cases hleft : waits.withoutTimer timerId <;> simp [resumeWith, status]
  | _ => simp [status]

/-- Waits that are left over were registered with those that are gone. -/
theorem registeredAt_of_waiting {changedAt : Timestamp} {waits : RunWaits}
    (h : Advances provenance state transition next) (hnext : next = .waiting waits changedAt) :
    waits.registeredAt = changedAt ∨
      ∃ waits' before, state = .waiting waits' before ∧
        waits.registeredAt = waits'.registeredAt := by
  cases h with
  | wait =>
    cases hnext
    exact .inl rfl
  | @resolve waits' before interruptId =>
    cases hleft : waits'.withoutInterrupt interruptId with
    | none =>
      rw [hleft] at hnext
      cases hnext
    | some left =>
      rw [hleft] at hnext
      cases hnext
      exact .inr ⟨waits', before, rfl, RunWaits.registeredAt_remaining hleft⟩
  | @fire waits' before timerId =>
    cases hleft : waits'.withoutTimer timerId with
    | none =>
      rw [hleft] at hnext
      cases hnext
    | some left =>
      rw [hleft] at hnext
      cases hnext
      exact .inr ⟨waits', before, rfl, RunWaits.registeredAt_remaining hleft⟩
  | _ => cases hnext

/-- A result comes from the transition that carries it. -/
theorem of_succeeded {result : AgentResult E} (h : Advances provenance state transition next)
    (hnext : next = .succeeded result) :
    transition = .succeed result ∧ result.provenance = provenance := by
  cases h with
  | succeed hprovenance =>
    cases hnext
    exact ⟨rfl, hprovenance⟩
  | @resolve waits _ interruptId =>
    cases hleft : waits.withoutInterrupt interruptId <;> rw [hleft] at hnext <;> cases hnext
  | @fire waits _ timerId =>
    cases hleft : waits.withoutTimer timerId <;> rw [hleft] at hnext <;> cases hnext
  | _ => cases hnext

theorem cancellationRequest_of_isOpen (h : state.isOpen) : state.cancellationRequest = none := by
  cases state <;> first | rfl | cases h

theorem cancellationRequest_eq {request : RunCancellationRequest}
    (h : Advances provenance state transition next)
    (hrequest : state.cancellationRequest = some request) :
    next.cancellationRequest = some request := by
  cases h with
  | confirmCancellation => exact hrequest
  | requestCancellation hopen | fail hopen =>
    rw [cancellationRequest_of_isOpen hopen] at hrequest
    cases hrequest
  | _ => cases hrequest

end RunState.Advances

/-! ## One step -/

namespace RunLifecycle

theorem validateSnapshot_eq_ok {lifecycle : RunLifecycle E} {u : Unit} :
    lifecycle.validateSnapshot = .ok u ↔
      (lifecycle.status = .pending ↔ lifecycle.revision = 0) ∧
      lifecycle.admittedAt ≤ lifecycle.changedAt ∧
      (∀ waits changedAt, lifecycle.state = .waiting waits changedAt →
        waits.registeredAt ≤ changedAt) ∧
      (∀ result, lifecycle.state = .succeeded result →
        result.provenance = lifecycle.provenance) := by
  have hrevision : (¬ (lifecycle.status = .pending ∧ lifecycle.revision ≠ 0) ∧
      ¬ (lifecycle.status ≠ .pending ∧ lifecycle.revision = 0)) ↔
        (lifecycle.status = .pending ↔ lifecycle.revision = 0) := by tauto
  simp only [validateSnapshot, bind_eq_ok, reject_eq_ok, exists_const, not_lt]
  rw [← hrevision, and_assoc]
  refine and_congr_right fun _ => and_congr_right fun _ => and_congr_right fun _ => ?_
  cases lifecycle.state <;> simp [pure, Except.pure, reject_eq_ok]

variable {lifecycle next : RunLifecycle E} {transition : RunTransition E}

theorem changedAt_apply (h : lifecycle.apply transition = .ok next) :
    next.changedAt = transition.changedAt :=
  (apply_eq_ok h).2.1.changedAt_eq next.admittedAt

theorem changedAt_le_of_apply (h : lifecycle.apply transition = .ok next) :
    lifecycle.changedAt ≤ next.changedAt := by
  rw [changedAt_apply h]
  exact (apply_eq_ok h).1

theorem validateSnapshot_of_apply (hvalid : lifecycle.validateSnapshot = .ok ())
    (h : lifecycle.apply transition = .ok next) : next.validateSnapshot = .ok () := by
  obtain ⟨_, hadmitted, hwaiting, _⟩ := validateSnapshot_eq_ok.mp hvalid
  obtain ⟨hclock, hadvances, hrevision, hprovenance, hadmittedAt⟩ := apply_eq_ok h
  have hstatus : next.status ≠ .pending := hadvances.status_ne_pending
  have hnonzero : next.revision ≠ 0 := by
    intro hzero
    rw [hzero, Count.value_zero] at hrevision
    omega
  refine validateSnapshot_eq_ok.mpr ⟨iff_of_false hstatus hnonzero, ?_, ?_, ?_⟩
  · rw [hadmittedAt]
    exact hadmitted.trans (changedAt_le_of_apply h)
  · intro waits changedAt hnext
    have hchanged : transition.changedAt = changedAt := by
      rw [← changedAt_apply h]
      unfold RunLifecycle.changedAt
      rw [hnext]
      rfl
    rcases hadvances.registeredAt_of_waiting hnext with hsame | ⟨waits', before, hstate, hsame⟩
    · exact hsame.le
    · have hbefore : lifecycle.changedAt = before := by
        unfold RunLifecycle.changedAt
        rw [hstate]
        rfl
      calc waits.registeredAt = waits'.registeredAt := hsame
        _ ≤ before := hwaiting waits' before hstate
        _ ≤ transition.changedAt := hbefore ▸ hclock
        _ = changedAt := hchanged
  · intro result hnext
    rw [hprovenance]
    exact (hadvances.of_succeeded hnext).2

theorem apply_of_isTerminal (h : lifecycle.status.isTerminal) (transition : RunTransition E) :
    lifecycle.apply transition =
      .error (.invalidTransition lifecycle.status transition.kind) := by
  rw [apply, transitionAllowed_of_isTerminal h]
  rfl

/-- A closed lifecycle with a cancellation request is cancelled under that request. -/
theorem cancelled_of_isTerminal {request : RunCancellationRequest}
    (hrequest : lifecycle.cancellationRequest = some request)
    (hterminal : lifecycle.status.isTerminal) :
    ∃ cancellation, lifecycle.state = .cancelled cancellation ∧
      cancellation.request = request := by
  unfold RunLifecycle.cancellationRequest at hrequest
  unfold RunLifecycle.status at hterminal
  cases hstate : lifecycle.state with
  | cancelled cancellation =>
    rw [hstate] at hrequest
    cases hrequest
    exact ⟨cancellation, rfl, rfl⟩
  | cancellationRequested _ =>
    rw [hstate] at hterminal
    cases hterminal
  | _ =>
    rw [hstate] at hrequest
    cases hrequest

/-! ## Whole runs -/

theorem validateSnapshot_admitted (provenance : AgentResultProvenance) (admittedAt : Timestamp) :
    (admitted provenance admittedAt : RunLifecycle E).validateSnapshot = .ok () := by
  refine validateSnapshot_eq_ok.mpr ⟨⟨fun _ => rfl, fun _ => rfl⟩, le_refl admittedAt, ?_, ?_⟩
  · intro _ _ h
    cases h
  · intro _ h
    cases h

theorem validateSnapshot_attempts (transitions : List (RunTransition E))
    (hvalid : lifecycle.validateSnapshot = .ok ()) :
    (attempts apply lifecycle transitions).validateSnapshot = .ok () :=
  attempts_induct (fun l : RunLifecycle E => l.validateSnapshot = .ok ())
    validateSnapshot_of_apply transitions hvalid

theorem revision_of_apply (h : lifecycle.apply transition = .ok next) :
    next.revision.value = lifecycle.revision.value + 1 :=
  (apply_eq_ok h).2.2.1

theorem revision_attempts (lifecycle : RunLifecycle E) (transitions : List (RunTransition E)) :
    (attempts apply lifecycle transitions).revision.value =
      lifecycle.revision.value + accepted apply lifecycle transitions :=
  measure_attempts (fun l : RunLifecycle E => l.revision.value) revision_of_apply transitions
    lifecycle

/-- What later lifecycles keep of earlier ones. -/
structure Extends (earlier later : RunLifecycle E) : Prop where
  changedAt_le : earlier.changedAt ≤ later.changedAt
  provenance_eq : later.provenance = earlier.provenance
  admittedAt_eq : later.admittedAt = earlier.admittedAt
  cancellationRequest_eq : ∀ request, earlier.cancellationRequest = some request →
    later.cancellationRequest = some request

theorem Extends.refl (lifecycle : RunLifecycle E) : Extends lifecycle lifecycle :=
  ⟨le_refl _, rfl, rfl, fun _ h => h⟩

theorem Extends.trans {a b c : RunLifecycle E} (hab : Extends a b) (hbc : Extends b c) :
    Extends a c where
  changedAt_le := hab.changedAt_le.trans hbc.changedAt_le
  provenance_eq := hbc.provenance_eq.trans hab.provenance_eq
  admittedAt_eq := hbc.admittedAt_eq.trans hab.admittedAt_eq
  cancellationRequest_eq request h :=
    hbc.cancellationRequest_eq request (hab.cancellationRequest_eq request h)

theorem extends_of_apply (h : lifecycle.apply transition = .ok next) :
    Extends lifecycle next := by
  obtain ⟨_, hadvances, _, hprovenance, hadmittedAt⟩ := apply_eq_ok h
  exact ⟨changedAt_le_of_apply h, hprovenance, hadmittedAt,
    fun _ hrequest => hadvances.cancellationRequest_eq hrequest⟩

theorem extends_attempts (lifecycle : RunLifecycle E) (transitions : List (RunTransition E)) :
    Extends lifecycle (attempts apply lifecycle transitions) :=
  attempts_rel (fun _ => True) Extends Extends.refl Extends.trans (fun _ _ => trivial)
    (fun _ h => extends_of_apply h) transitions trivial

/-- The result of a run is one of those it was given, unless it was there before. -/
theorem result_attempts (transitions : List (RunTransition E)) :
    ∀ {lifecycle : RunLifecycle E} {result : AgentResult E},
      (attempts apply lifecycle transitions).result = some result →
        lifecycle.result = some result ∨ .succeed result ∈ transitions := by
  induction transitions with
  | nil => exact fun h => .inl h
  | cons transition transitions ih =>
    intro lifecycle result h
    rw [attempts_cons] at h
    rcases ih h with hresult | hmem
    · rcases attempt_cases apply lifecycle transition with hok | hsame
      · have hstate : (attempt apply lifecycle transition).state = .succeeded result := by
          unfold RunLifecycle.result RunState.result at hresult
          split at hresult
          · rename_i hstate
            rw [hstate, Option.some.inj hresult]
          · cases hresult
        rw [((apply_eq_ok hok).2.1.of_succeeded hstate).1]
        exact .inr List.mem_cons_self
      · rw [hsame] at hresult
        exact .inl hresult
    · exact .inr (List.mem_cons_of_mem _ hmem)

end RunLifecycle

/-- Every run from admission counts its accepted transitions, never moves its clock back, keeps
its provenance, its admission and a requested cancellation, stops at terminal states and
reaches only valid snapshots.  Where the stored text keeps the trees, a snapshot is read back as
it was written exactly when the output in it, if any, fits the default limits; it does when every
output that the run was given does. -/
theorem run_lifecycle_invariant (provenance : AgentResultProvenance) (admittedAt : Timestamp)
    (transitions : List (RunTransition E)) :
    let start := RunLifecycle.admitted provenance admittedAt
    let reached := attempts RunLifecycle.apply start transitions
    reached.revision.value = accepted RunLifecycle.apply start transitions ∧
    (∀ before after, transitions = before ++ after →
      (attempts RunLifecycle.apply start before).changedAt ≤ reached.changedAt) ∧
    admittedAt ≤ reached.changedAt ∧
    reached.provenance = provenance ∧ reached.admittedAt = admittedAt ∧
    (∀ transition error, reached.apply transition = .error error →
      attempts RunLifecycle.apply start (transitions ++ [transition]) = reached) ∧
    (reached.status.isTerminal → ∀ transition, ∃ error,
      reached.apply transition = .error error) ∧
    (∀ before after request, transitions = before ++ after →
      (attempts RunLifecycle.apply start before).cancellationRequest = some request →
        reached.cancellationRequest = some request ∧
        (reached.status.isTerminal → ∃ cancellation, reached.state = .cancelled cancellation ∧
          cancellation.request = request)) ∧
    reached.validateSnapshot = .ok () ∧
    (E.KeepsTrees →
      (reached.reread = some reached ↔
        ∀ result, reached.result = some result → result.output.value.FitsLimits .default) ∧
      ((∀ result, .succeed result ∈ transitions → result.output.value.FitsLimits .default) →
        reached.reread = some reached)) := by
  intro start reached
  have hextends : ∀ before after, transitions = before ++ after →
      (attempts RunLifecycle.apply start before).Extends reached := by
    intro before after hsplit
    show RunLifecycle.Extends _ (attempts RunLifecycle.apply start transitions)
    rw [hsplit, attempts_append]
    exact RunLifecycle.extends_attempts _ after
  have hstart : start.Extends reached := hextends [] transitions rfl
  have hvalid : reached.validateSnapshot = .ok () :=
    RunLifecycle.validateSnapshot_attempts transitions
      (RunLifecycle.validateSnapshot_admitted provenance admittedAt)
  refine ⟨?_, fun before after hsplit => (hextends before after hsplit).changedAt_le,
    hstart.changedAt_le, hstart.provenance_eq, hstart.admittedAt_eq, ?_, ?_, ?_, hvalid,
    fun hE => ?_⟩
  · show reached.revision.value = _
    rw [RunLifecycle.revision_attempts]
    exact Nat.zero_add _
  · intro transition error herror
    rw [attempts_append]
    exact attempt_of_error herror
  · intro hterminal transition
    exact ⟨_, RunLifecycle.apply_of_isTerminal hterminal transition⟩
  · intro before after request hsplit hrequest
    have hkept := (hextends before after hsplit).cancellationRequest_eq request hrequest
    exact ⟨hkept, fun hterminal => RunLifecycle.cancelled_of_isTerminal hkept hterminal⟩
  · have hreread := RunLifecycle.reread_eq_some hE hvalid
    refine ⟨hreread, fun houtputs => hreread.mpr fun result hresult => houtputs result ?_⟩
    rcases RunLifecycle.result_attempts transitions hresult with hnone | hmem
    · cases hnone
    · exact hmem

/-! ## A run whose snapshot is refused -/

namespace Run.Sample

def provenance : AgentResultProvenance :=
  ⟨⟨"tenant"⟩, ⟨"run"⟩, ⟨"thread"⟩, ⟨"invocation"⟩, ⟨⟨"issuer"⟩, ⟨"subject"⟩, ⟨"agent"⟩, ⟨"1"⟩⟩⟩

def usage : BudgetUsage where
  counts
    | .modelTurns | .modelAttempts => .ofNat 1
    | .outputBytes => ⟨100, by decide⟩
    | _ => 0
  knownCosts := .empty
  unpricedCostEvents := 0
  subsets := by decide

/-- A result whose output is one level deeper than the default limits allow. -/
def result : Option (AgentResult Encoding.reference) :=
  match h : BoundedJson.tryFromValueWithLimits (.nested 32) .maximum with
  | .error _ => none
  | .ok output =>
    (AgentResult.new provenance (.ofMicros 2) ⟨⟨"output"⟩, ⟨"1"⟩, ⟨[]⟩⟩ output
      .empty usage ⟨.nested 32, h⟩).toOption

end Run.Sample

/-- A run succeeds with an output that nests 33 arrays; its own `Deserialize` refuses the
snapshot. -/
theorem run_lifecycle_refused_snapshot :
    ∃ result : AgentResult Encoding.reference, Run.Sample.result = some result ∧
      let reached := attempts RunLifecycle.apply
        (.admitted Run.Sample.provenance (.ofMicros 0))
        [.start (.ofMicros 1), .succeed result]
      reached.status = .succeeded ∧ reached.validateSnapshot = .ok () ∧ reached.reread = none := by
  have hsome : (Run.Sample.result.any (fun result : AgentResult Encoding.reference =>
      let reached := attempts RunLifecycle.apply
        (.admitted Run.Sample.provenance (.ofMicros 0))
        [.start (.ofMicros 1), .succeed result]
      reached.status = .succeeded && reached.validateSnapshot.isOk && reached.reread.isNone)) =
        true := by
    decide +kernel
  obtain ⟨result, hresult, hreached⟩ := (Option.any_eq_true _ _).mp hsome
  simp only [Bool.and_eq_true, decide_eq_true_eq, Option.isNone_iff_eq_none] at hreached
  refine ⟨result, hresult, hreached.1.1, ?_, hreached.2⟩
  exact RunLifecycle.validateSnapshot_attempts _ (RunLifecycle.validateSnapshot_admitted _ _)

end StateKnot
