import StateKnot.Run.History

/-!
# Discharging waits

A waiting run resumes when every wait of its batch is discharged: an interrupt by a
resolution before its expiry, a timer by firing at or after its due instant.  One
discharge removes one wait and keeps the others in order; the run is active again
after the last one.  Which of two waits goes first makes no difference in the end.
-/

namespace StateKnot

open Lib

variable {E : Encoding}

/-! ## Outstanding waits -/

/-- The waits a state holds, in registration order. -/
def RunState.outstanding : RunState E → List RunWait
  | .waiting waits _ => waits.values
  | _ => []

/-- The transition that discharges a wait at an instant. -/
def RunWait.discharge (instant : Timestamp) : RunWait → RunTransition E
  | .interrupt value => .resolveInterrupt value.interruptId instant
  | .timer value => .fireTimer value.timerId instant

/-- The instants at which a wait may be discharged. -/
def RunWait.Dischargeable (instant : Timestamp) : RunWait → Prop
  | .interrupt value => ∀ expiresAt ∈ value.expiresAt, instant < expiresAt
  | .timer value => value.dueAt ≤ instant

/-- The transitions that discharge a wait. -/
def RunTransition.Discharges (transition : RunTransition E) : Prop :=
  transition.kind = .resolveInterrupt ∨ transition.kind = .fireTimer

namespace RunState

theorem outstanding_distinct (state : RunState E) :
    (state.outstanding.map RunWait.identityUuid).Nodup := by
  cases state with
  | waiting waits changedAt => exact waits.distinct
  | _ => exact List.nodup_nil

theorem status_eq_waiting_iff {state : RunState E} :
    state.status = .waiting ↔ state.outstanding ≠ [] := by
  cases state with
  | waiting waits changedAt => simpa [status, outstanding] using waits.nonempty
  | _ => simp [status, outstanding]

theorem outstanding_resumeWith (waits : RunWaits) (keep : RunWait → Bool) (instant : Timestamp) :
    (resumeWith (waits.remaining keep) instant : RunState E).outstanding =
      waits.values.filter keep := by
  unfold RunWaits.remaining
  split
  · next hnone => rw [hnone]; rfl
  · rfl

theorem status_resumeWith (left : Option RunWaits) (instant : Timestamp) :
    (resumeWith left instant : RunState E).status = .active ∨
      (resumeWith left instant : RunState E).status = .waiting := by
  cases left with
  | none => exact .inl rfl
  | some waits => exact .inr rfl

/-- An active or waiting state is its waits and its last instant. -/
theorem eq_of_outstanding {state state' : RunState E} (admittedAt : Timestamp)
    (hstate : state.status = .active ∨ state.status = .waiting)
    (hstate' : state'.status = .active ∨ state'.status = .waiting)
    (houtstanding : state.outstanding = state'.outstanding)
    (hchanged : state.changedAt admittedAt = state'.changedAt admittedAt) : state = state' := by
  cases state with
  | active instant =>
    cases state' with
    | active instant' => exact congrArg RunState.active hchanged
    | waiting waits' instant' => exact absurd houtstanding.symm waits'.nonempty
    | _ => simp [status] at hstate'
  | waiting waits instant =>
    cases state' with
    | active instant' => exact absurd houtstanding waits.nonempty
    | waiting waits' instant' =>
      have hwaits : waits = waits' := RunWaits.ext_values houtstanding
      have hinstant : instant = instant' := hchanged
      rw [hwaits, hinstant]
    | _ => simp [status] at hstate'
  | _ => simp [status] at hstate

end RunState

/-! ## One discharge -/

namespace RunWaits

variable {waits : RunWaits}

theorem eq_of_identityUuid_eq {a b : RunWait} (ha : a ∈ waits.values)
    (hb : b ∈ waits.values) (h : a.identityUuid = b.identityUuid) : a = b :=
  List.inj_on_of_nodup_map waits.distinct ha hb h

theorem interrupt_eq_some {interruptId : InterruptId} {found : RunInterrupt}
    (h : waits.interrupt interruptId = some found) :
    RunWait.interrupt found ∈ waits.values ∧ found.interruptId = interruptId := by
  obtain ⟨wait, hwait, hfound⟩ := List.mem_filterMap.mp (List.mem_of_find?_eq_some h)
  cases wait with
  | interrupt value =>
    cases hfound
    exact ⟨hwait, by simpa using List.find?_some h⟩
  | timer value => cases hfound

theorem timer_eq_some {timerId : TimerId} {found : RunTimer}
    (h : waits.timer timerId = some found) :
    RunWait.timer found ∈ waits.values ∧ found.timerId = timerId := by
  obtain ⟨wait, hwait, hfound⟩ := List.mem_filterMap.mp (List.mem_of_find?_eq_some h)
  cases wait with
  | interrupt value => cases hfound
  | timer value =>
    cases hfound
    exact ⟨hwait, by simpa using List.find?_some h⟩

/-- Removing an identity removes one wait. -/
theorem filter_eq_of_identityUuid {wait : RunWait} (hwait : wait ∈ waits.values)
    {keeps : RunWait → Bool} (hself : keeps wait = false)
    (hidentity : ∀ other, keeps other = false → other.identityUuid = wait.identityUuid) :
    waits.values.filter keeps = waits.values.filter (· ≠ wait) := by
  refine List.filter_congr fun other hother => ?_
  cases hkeeps : keeps other with
  | false => simp [eq_of_identityUuid_eq hother hwait (hidentity other hkeeps)]
  | true =>
    have hne : other ≠ wait := fun h => by simp [← h, hkeeps] at hself
    simp [hne]

end RunWaits

/-- What an accepted discharge does: it takes one outstanding wait at a permitted instant. -/
structure RunLifecycle.Discharged (lifecycle next : RunLifecycle E) (transition : RunTransition E)
    (wait : RunWait) : Prop where
  outstanding : wait ∈ lifecycle.state.outstanding
  transition_eq : transition = wait.discharge transition.changedAt
  instant : wait.Dischargeable transition.changedAt
  left : next.state.outstanding = lifecycle.state.outstanding.filter (· ≠ wait)
  status : next.status = .active ∨ next.status = .waiting

theorem RunLifecycle.exists_discharged {lifecycle next : RunLifecycle E}
    {transition : RunTransition E} (hdischarges : transition.Discharges)
    (h : lifecycle.apply transition = .ok next) :
    ∃ wait, lifecycle.Discharged next transition wait := by
  obtain ⟨_, hadvances, _, _, _⟩ := RunLifecycle.apply_eq_ok h
  obtain ⟨provenance, admittedAt, revision, state⟩ := lifecycle
  obtain ⟨provenance', admittedAt', revision', state'⟩ := next
  cases hadvances with
  | @resolve waits changedAt interruptId resolvedAt interrupt houtstanding hcurrent =>
    obtain ⟨hmem, rfl⟩ := RunWaits.interrupt_eq_some houtstanding
    refine ⟨.interrupt interrupt, hmem, rfl, hcurrent, ?_, RunState.status_resumeWith _ _⟩
    refine (RunState.outstanding_resumeWith _ _ _).trans (RunWaits.filter_eq_of_identityUuid
      hmem (by simp [RunWait.asInterrupt]) fun other hother => ?_)
    cases other <;> simp_all [RunWait.asInterrupt, RunWait.identityUuid]
  | @fire waits changedAt timerId firedAt timer houtstanding hdue =>
    obtain ⟨hmem, rfl⟩ := RunWaits.timer_eq_some houtstanding
    refine ⟨.timer timer, hmem, rfl, hdue, ?_, RunState.status_resumeWith _ _⟩
    refine (RunState.outstanding_resumeWith _ _ _).trans (RunWaits.filter_eq_of_identityUuid
      hmem (by simp [RunWait.asTimer]) fun other hother => ?_)
    cases other <;> simp_all [RunWait.asTimer, RunWait.identityUuid]
  | _ => simp [RunTransition.Discharges, RunTransition.kind] at hdischarges

/-! ## Runs of discharges -/

namespace RunLifecycle

variable {lifecycle last : RunLifecycle E}

theorem foldlM_discharges {transitions : List (RunTransition E)}
    (hstatus : lifecycle.status = .active ∨ lifecycle.status = .waiting)
    (hdischarges : ∀ transition ∈ transitions, transition.Discharges)
    (hrun : transitions.foldlM apply lifecycle = .ok last) :
    ∃ gone : List RunWait, gone.length = transitions.length ∧ gone.Nodup ∧
      (∀ wait ∈ gone, wait ∈ lifecycle.state.outstanding) ∧
      ∀ n ≤ transitions.length, ∃ reached,
        (transitions.take n).foldlM apply lifecycle = .ok reached ∧
        reached.state.outstanding = lifecycle.state.outstanding.filter (· ∉ gone.take n) ∧
        (reached.status = .active ∨ reached.status = .waiting) ∧
        ∀ wait ∈ gone[n]?, ∀ transition ∈ transitions[n]?,
          wait ∈ reached.state.outstanding ∧
          transition = wait.discharge transition.changedAt ∧
          wait.Dischargeable transition.changedAt := by
  induction transitions generalizing lifecycle with
  | nil =>
    refine ⟨[], rfl, List.nodup_nil, by simp, fun n hn => ?_⟩
    exact ⟨lifecycle, by simp [pure, Except.pure], by simp, hstatus, by simp⟩
  | cons transition transitions ih =>
    rw [List.foldlM_cons, bind_eq_ok] at hrun
    obtain ⟨next, happly, hrest⟩ := hrun
    obtain ⟨wait, hwait⟩ := exists_discharged (hdischarges transition (by simp)) happly
    obtain ⟨gone, hlength, hnodup, hsubset, hprefixes⟩ :=
      ih hwait.status (fun other hother => hdischarges other (by simp [hother])) hrest
    rw [hwait.left] at hsubset hprefixes
    refine ⟨wait :: gone, by simp [hlength], ?_, ?_, ?_⟩
    · refine List.nodup_cons.mpr ⟨fun hmem => ?_, hnodup⟩
      have hleft := (List.mem_filter.mp (hsubset wait hmem)).2
      simp at hleft
    · intro other hother
      rcases List.mem_cons.mp hother with rfl | hother
      · exact hwait.outstanding
      · exact List.mem_of_mem_filter (hsubset other hother)
    · intro n hn
      cases n with
      | zero =>
        refine ⟨lifecycle, rfl, by simp, hstatus, ?_⟩
        intro first hfirst step hstep
        simp only [List.getElem?_cons_zero, Option.mem_some_iff] at hfirst hstep
        rw [← hfirst, ← hstep]
        exact ⟨hwait.outstanding, hwait.transition_eq, hwait.instant⟩
      | succ n =>
        obtain ⟨reached, hreached, hleft, hreachedStatus, hnext⟩ :=
          hprefixes n (by simpa using hn)
        refine ⟨reached, ?_, ?_, hreachedStatus, ?_⟩
        · rw [List.take_succ_cons, List.foldlM_cons, happly, ok_bind, hreached]
        · rw [hleft, List.filter_filter]
          refine List.filter_congr fun other _ => ?_
          rw [List.take_succ_cons, ← Bool.decide_and, decide_eq_decide, List.mem_cons, not_or]
          exact and_comm
        · simpa using hnext

variable {waits : RunWaits}

/-- A wait of a batch is what its own discharge takes. -/
theorem outstanding_of_discharge {next : RunLifecycle E}
    (hsubset : ∀ wait ∈ lifecycle.state.outstanding, wait ∈ waits.values) {wait : RunWait}
    (hwait : wait ∈ waits.values) {instant : Timestamp}
    (h : lifecycle.apply (wait.discharge instant) = .ok next) :
    next.state.outstanding = lifecycle.state.outstanding.filter (· ≠ wait) ∧
      (next.status = .active ∨ next.status = .waiting) := by
  have hdischarges : (wait.discharge instant : RunTransition E).Discharges := by
    cases wait with
    | interrupt value => exact .inl rfl
    | timer value => exact .inr rfl
  obtain ⟨taken, htaken⟩ := exists_discharged hdischarges h
  have hidentity : wait.identityUuid = taken.identityUuid := by
    have heq := htaken.transition_eq
    cases wait <;> cases taken <;> simp_all [RunWait.discharge, RunWait.identityUuid]
  have hsame := RunWaits.eq_of_identityUuid_eq hwait (hsubset taken htaken.outstanding) hidentity
  rw [hsame]
  exact ⟨htaken.left, htaken.status⟩

/-- The ends of two discharges, one after the other. -/
theorem outstanding_of_discharges
    {changedAt : Timestamp} (hwaiting : lifecycle.state = .waiting waits changedAt)
    {a b : RunWait} (ha : a ∈ waits.values) (hb : b ∈ waits.values) {t₁ t₂ : Timestamp}
    (hrun : [a.discharge t₁, b.discharge t₂].foldlM apply lifecycle = .ok last) :
    t₁ ≤ t₂ ∧ last.state.outstanding = (waits.values.filter (· ≠ a)).filter (· ≠ b) ∧
      (last.status = .active ∨ last.status = .waiting) ∧ last.changedAt = t₂ ∧
      last.revision.value = lifecycle.revision.value + 2 ∧
      last.provenance = lifecycle.provenance ∧ last.admittedAt = lifecycle.admittedAt := by
  simp only [List.foldlM_cons, List.foldlM_nil, bind_eq_ok, pure_eq_ok, exists_eq_right] at hrun
  obtain ⟨middle, hfirst, hsecond⟩ := hrun
  have hbatch : lifecycle.state.outstanding = waits.values := by rw [hwaiting]; rfl
  obtain ⟨hmiddle, _⟩ := outstanding_of_discharge (fun _ h => hbatch ▸ h) ha hfirst
  rw [hbatch] at hmiddle
  obtain ⟨hlast, hstatus⟩ := outstanding_of_discharge
    (fun wait h => List.mem_of_mem_filter (hmiddle ▸ h)) hb hsecond
  rw [hmiddle] at hlast
  have hinstants : ∀ (wait : RunWait) (instant : Timestamp),
      (wait.discharge instant : RunTransition E).changedAt = instant := by
    intro wait instant
    cases wait <;> rfl
  have hmiddleAt := changedAt_apply hfirst
  have hlastAt := changedAt_apply hsecond
  obtain ⟨_, _, hrevision, hprovenance, hadmitted⟩ := apply_eq_ok hfirst
  obtain ⟨hclock, _, hrevision', hprovenance', hadmitted'⟩ := apply_eq_ok hsecond
  rw [hmiddleAt, hinstants, hinstants] at hclock
  refine ⟨hclock, hlast, hstatus, ?_, by omega, hprovenance'.trans hprovenance,
    hadmitted'.trans hadmitted⟩
  rw [hlastAt, hinstants]

theorem discharge_comm {last' : RunLifecycle E}
    {changedAt : Timestamp} (hwaiting : lifecycle.state = .waiting waits changedAt)
    {a b : RunWait} (ha : a ∈ waits.values) (hb : b ∈ waits.values)
    {t₁ t₂ s₁ s₂ : Timestamp} (hinstants : [t₁, t₂].Perm [s₁, s₂])
    (hrun : [a.discharge t₁, b.discharge t₂].foldlM apply lifecycle = .ok last)
    (hrun' : [b.discharge s₁, a.discharge s₂].foldlM apply lifecycle = .ok last') :
    last = last' := by
  obtain ⟨ht, hleft, hstatus, hat, hrevision, hprovenance, hadmitted⟩ :=
    outstanding_of_discharges hwaiting ha hb hrun
  obtain ⟨hs, hleft', hstatus', hat', hrevision', hprovenance', hadmitted'⟩ :=
    outstanding_of_discharges hwaiting hb ha hrun'
  -- The later instant of both orders is the same.
  have hlater : t₂ = s₂ := by
    have hmem : t₂ ∈ [s₁, s₂] := hinstants.mem_iff.mp (by simp)
    have hmem' : s₂ ∈ [t₁, t₂] := hinstants.mem_iff.mpr (by simp)
    simp only [List.mem_cons, List.not_mem_nil, or_false] at hmem hmem'
    rcases hmem with hmem | hmem
    · rcases hmem' with hmem' | hmem'
      · exact le_antisymm (hmem ▸ hs) (hmem' ▸ ht)
      · exact hmem'.symm
    · exact hmem
  have hadmittedEq : last.admittedAt = last'.admittedAt := hadmitted.trans hadmitted'.symm
  have hstate : last.state = last'.state := by
    refine RunState.eq_of_outstanding last.admittedAt hstatus hstatus' ?_ ?_
    · rw [hleft, hleft', List.filter_comm]
    · have hchanged : last.changedAt = last'.changedAt := by rw [hat, hat', hlater]
      unfold RunLifecycle.changedAt at hchanged
      rw [hchanged, hadmittedEq]
  have hrevisionEq : last.revision = last'.revision :=
    Count.value_injective (hrevision.trans hrevision'.symm)
  obtain ⟨provenance, admittedAt, revision, state⟩ := last
  obtain ⟨provenance', admittedAt', revision', state'⟩ := last'
  simp_all

end RunLifecycle

/-- Along every accepted run of discharges from a waiting lifecycle each transition takes
one wait that is still outstanding, an interrupt before its expiry and a timer when it is
due; no wait is taken twice, what is left keeps its order and its distinct identities, and
the run is active exactly when nothing is left.  Two waits of the batch may be discharged
in either order at the same instants with the same end. -/
theorem wait_discharge {lifecycle : RunLifecycle E} {waits : RunWaits} {changedAt : Timestamp}
    (hwaiting : lifecycle.state = .waiting waits changedAt) :
    (∀ (transitions : List (RunTransition E)) (last : RunLifecycle E),
      (∀ transition ∈ transitions, transition.Discharges) →
      transitions.foldlM RunLifecycle.apply lifecycle = .ok last →
      ∃ gone : List RunWait, gone.length = transitions.length ∧ gone.Nodup ∧
        ∀ n ≤ transitions.length, ∃ reached,
          (transitions.take n).foldlM RunLifecycle.apply lifecycle = .ok reached ∧
          reached.state.outstanding = waits.values.filter (· ∉ gone.take n) ∧
          (reached.state.outstanding.map RunWait.identityUuid).Nodup ∧
          (reached.status = .active ↔ reached.state.outstanding = []) ∧
          (reached.status = .waiting ↔ reached.state.outstanding ≠ []) ∧
          ∀ wait ∈ gone[n]?, ∀ transition ∈ transitions[n]?,
            wait ∈ reached.state.outstanding ∧
            transition = wait.discharge transition.changedAt ∧
            wait.Dischargeable transition.changedAt) ∧
    (∀ a ∈ waits.values, ∀ b ∈ waits.values, ∀ (t₁ t₂ s₁ s₂ : Timestamp)
      (last last' : RunLifecycle E), [t₁, t₂].Perm [s₁, s₂] →
      [a.discharge t₁, b.discharge t₂].foldlM RunLifecycle.apply lifecycle = .ok last →
      [b.discharge s₁, a.discharge s₂].foldlM RunLifecycle.apply lifecycle = .ok last' →
      last = last') := by
  have hbatch : lifecycle.state.outstanding = waits.values := by
    rw [hwaiting]
    rfl
  have hstatus : lifecycle.status = .active ∨ lifecycle.status = .waiting := by
    unfold RunLifecycle.status
    rw [hwaiting]
    exact .inr rfl
  constructor
  · intro transitions last hdischarges hrun
    obtain ⟨gone, hlength, hnodup, _, hprefixes⟩ :=
      RunLifecycle.foldlM_discharges hstatus hdischarges hrun
    rw [hbatch] at hprefixes
    refine ⟨gone, hlength, hnodup, fun n hn => ?_⟩
    obtain ⟨reached, hreached, hleft, hreachedStatus, hnext⟩ := hprefixes n hn
    have hwaits : reached.status = .waiting ↔ reached.state.outstanding ≠ [] :=
      RunState.status_eq_waiting_iff
    refine ⟨reached, hreached, hleft, reached.state.outstanding_distinct, ?_, hwaits, hnext⟩
    constructor
    · intro hactive
      by_contra hne
      rw [hwaits.mpr hne] at hactive
      cases hactive
    · intro hnil
      exact hreachedStatus.resolve_right fun h => hwaits.mp h hnil
  · intro a ha b hb t₁ t₂ s₁ s₂ last last' hinstants hrun hrun'
    exact RunLifecycle.discharge_comm hwaiting ha hb hinstants hrun hrun'

namespace Run.Sample

def approval : RunWait := .interrupt ⟨⟨"approval"⟩, .approval, .ofMicros 2, some (.ofMicros 9), by decide⟩

def reminder : RunWait := .timer ⟨⟨"reminder"⟩, .sleep, .ofMicros 2, .ofMicros 5, by decide⟩

def batch : RunWaits :=
  ⟨[approval, reminder], .ofMicros 2, by decide, by decide, by decide, by decide⟩

/-- A run that waits for an approval and for a timer. -/
def waiting : RunLifecycle Encoding.reference :=
  attempts RunLifecycle.apply (.admitted provenance (.ofMicros 0))
    [.start (.ofMicros 1), .wait batch]

end Run.Sample

/-- An approval and a timer discharged in either order. -/
theorem wait_discharge_in_either_order :
    ∃ last last', [Run.Sample.approval.discharge (.ofMicros 6),
        Run.Sample.reminder.discharge (.ofMicros 7)].foldlM RunLifecycle.apply
          Run.Sample.waiting = .ok last ∧
      [Run.Sample.reminder.discharge (.ofMicros 6),
        Run.Sample.approval.discharge (.ofMicros 7)].foldlM RunLifecycle.apply
          Run.Sample.waiting = .ok last' ∧
      last.status = .active ∧ last = last' := by
  have hwaiting : Run.Sample.waiting.state = .waiting Run.Sample.batch (.ofMicros 2) := by
    decide +kernel
  have hrun : ([Run.Sample.approval.discharge (.ofMicros 6),
      Run.Sample.reminder.discharge (.ofMicros 7)].foldlM RunLifecycle.apply
        Run.Sample.waiting).toOption.any (fun last => last.status = .active) = true := by
    decide +kernel
  have hrun' : ([Run.Sample.reminder.discharge (.ofMicros 6),
      Run.Sample.approval.discharge (.ofMicros 7)].foldlM RunLifecycle.apply
        Run.Sample.waiting).toOption.isSome = true := by
    decide +kernel
  obtain ⟨last, hlast, hactive⟩ := (Option.any_eq_true _ _).mp hrun
  obtain ⟨last', hlast'⟩ := Option.isSome_iff_exists.mp hrun'
  rw [toOption_eq_some] at hlast hlast'
  exact ⟨last, last', hlast, hlast', of_decide_eq_true hactive,
    (wait_discharge hwaiting).2 _ (by decide) _ (by decide) _ _ _ _ _ _ (.refl _) hlast hlast'⟩

end StateKnot
