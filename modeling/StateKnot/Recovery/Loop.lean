import StateKnot.Recovery.Agreement
import Mathlib.Logic.Relation

/-!
# The recovery loop

Workers take over from one another and, under the current fence, plan, start and
complete attempts of the ready nodes of one checkpoint.  The state holds what is
recorded: the lease, the journal head, and the attempts and the result of every
node.  In every state that such a loop reaches, a planner accepts everything that
is recorded and can be finished; a node with a result stays completed by it.
-/

namespace StateKnot

open Lib

variable {E : Encoding}

/-! ## States and steps -/

/-- What is recorded about a node. -/
structure NodeRecord (E : Encoding) where
  attempts : List (NodeAttempt E)
  result : Option (PendingNodeResult E)

def NodeRecord.empty : NodeRecord E := ⟨[], none⟩

/-- What is recorded about the ready nodes of a checkpoint, with the latest plan under the
current lease and the nodes that started an attempt since that plan. -/
structure RecoveryState (E : Encoding) where
  lease : RunLease
  workers : List AttemptId
  journalHead : JournalHead
  records : NodeId → NodeRecord E
  plan : Option (ReadyNodeRecoveryPlan E)
  startedSince : List NodeId

/-- `later` is a later position of the same journal. -/
structure JournalHead.Before (earlier later : JournalHead) : Prop where
  tenant_eq : later.tenantId = earlier.tenantId
  run_eq : later.runId = earlier.runId
  sequence_lt : earlier.sequence < later.sequence
  recordedAt_le : earlier.recordedAt ≤ later.recordedAt

/-- A failure that the loop may record: final, or retried from a representable instant on. -/
def Failure.Schedulable (failure : Failure) (failedAt : Timestamp) : Prop :=
  failure.retryAdvice = .never ∨
    ∃ delay, failure.retryAdvice = .safeAfter delay ∧ (retryNotBefore failedAt delay).isSome

namespace RecoveryState

def setRecord (state : RecoveryState E) (nodeId : NodeId) (record : NodeRecord E)
    (journalHead : JournalHead) : RecoveryState E :=
  { state with journalHead, records := Function.update state.records nodeId record }

/-- The observations are all that is recorded: the result and the attempts, in order, of every
ready node, interleaved in any way. -/
structure Reports (state : RecoveryState E) (checkpoint : Checkpoint E)
    (observations : List (RecoveryObservation E)) : Prop where
  ready : ∀ observation ∈ observations, observation.nodeId ∈ checkpoint.readyNodes.nodes
  attempts_eq : ∀ nodeId ∈ checkpoint.readyNodes.nodes,
    attemptsIn (observationsOf nodeId observations) = (state.records nodeId).attempts
  results_eq : ∀ nodeId ∈ checkpoint.readyNodes.nodes,
    resultsIn (observationsOf nodeId observations) = (state.records nodeId).result.toList

/-- A lease of the run, at a journal head that is not before the checkpoint. -/
structure OnRun (checkpoint : Checkpoint E) (state : RecoveryState E) : Prop where
  tenant_eq : state.lease.fence.tenantId = checkpoint.tenantId
  run_eq : state.lease.fence.runId = checkpoint.runId
  worker_mem : state.lease.fence.attemptId ∈ state.workers
  head_tenant_eq : state.journalHead.tenantId = checkpoint.tenantId
  head_run_eq : state.journalHead.runId = checkpoint.runId
  sequence_le : checkpoint.journalHead.sequence ≤ state.journalHead.sequence
  recordedAt_le : checkpoint.journalHead.recordedAt ≤ state.journalHead.recordedAt

/-- The start of a loop: nothing is recorded. -/
structure Initial (checkpoint : Checkpoint E) (state : RecoveryState E) : Prop
    extends OnRun checkpoint state where
  records_eq : ∀ nodeId, state.records nodeId = .empty
  plan_eq : state.plan = none

/-- One step of the loop. -/
inductive Step (checkpoint : Checkpoint E) : RecoveryState E → RecoveryState E → Prop
  | renew {state : RecoveryState E} {fence : RunFence} {renewedAt expiresAt : Timestamp}
      {lease : RunLease} (hlease : state.lease.renewed fence renewedAt expiresAt = .ok lease) :
      Step checkpoint state { state with lease }
  /-- A worker that was never used before takes over; the plan is void. -/
  | supersede {state : RecoveryState E} {attemptId : AttemptId} {acquiredAt expiresAt : Timestamp}
      {lease : RunLease} (hlease : state.lease.superseded attemptId acquiredAt expiresAt = .ok lease)
      (hfresh : attemptId ∉ state.workers) :
      Step checkpoint state { state with
        lease, workers := attemptId :: state.workers, plan := none, startedSince := [] }
  /-- Other events of the run. -/
  | advance {state : RecoveryState E} {journalHead : JournalHead}
      (hhead : state.journalHead.Before journalHead) :
      Step checkpoint state { state with journalHead }
  | plan {state : RecoveryState E} {planner observed : ReadyNodeRecoveryPlanner E}
      {observations : List (RecoveryObservation E)} {observedAt : Timestamp}
      {plan : ReadyNodeRecoveryPlan E}
      (hnew : ReadyNodeRecoveryPlanner.new checkpoint state.lease.fence = .ok planner)
      (hreports : state.Reports checkpoint observations)
      (hobserve : planner.observeAll observations = .ok observed)
      (hfinish : observed.finish state.journalHead observedAt = .ok plan) :
      Step checkpoint state { state with plan := some plan, startedSince := [] }
  /-- A fresh attempt of a node that the latest plan dispatches, if the node has not started one
  since. -/
  | start {state : RecoveryState E} {plan : ReadyNodeRecoveryPlan E} {node : RecoveryNode E}
      {attemptId : AttemptId} {journalHead : JournalHead} {start : NodeAttemptStart E}
      (hplan : state.plan = some plan) (hnode : node ∈ plan.nodes)
      (hkind : node.kind = .dispatchable) (hsince : node.activation.nodeId ∉ state.startedSince)
      (hstart : NodeAttemptStart.new node.activation attemptId state.lease.fence journalHead =
        .ok start)
      (hfresh : attemptId ∉
        (state.records node.activation.nodeId).attempts.map (·.start.attemptId))
      (hhead : state.journalHead.Before journalHead)
      (hclock : plan.observedAt ≤ journalHead.recordedAt) :
      Step checkpoint state { state.setRecord node.activation.nodeId
        ⟨(state.records node.activation.nodeId).attempts ++ [.executing start],
          (state.records node.activation.nodeId).result⟩ journalHead with
        startedSince := node.activation.nodeId :: state.startedSince }
  /-- The last attempt of a node, executing under the current fence, succeeds with its result. -/
  | succeed {state : RecoveryState E} {nodeId : NodeId} {earlier : List (NodeAttempt E)}
      {last attempt : NodeAttempt E} {result : PendingNodeResult E} {usage : BudgetUsage}
      {completion : NodeAttemptCompletion E}
      (hattempts : (state.records nodeId).attempts = earlier ++ [last])
      (hexecuting : last.completion = none) (hfence : last.start.fence = state.lease.fence)
      (hcompletion : NodeAttemptCompletion.succeed last.start result.head usage = .ok completion)
      (hattempt : NodeAttempt.restore last.start (some completion) = .ok attempt)
      (hhead : state.journalHead.Before result.journalHead) :
      Step checkpoint state (state.setRecord nodeId ⟨earlier ++ [attempt], some result⟩
        result.journalHead)
  /-- The last attempt of a node, executing under the current fence, fails. -/
  | fail {state : RecoveryState E} {nodeId : NodeId} {earlier : List (NodeAttempt E)}
      {last attempt : NodeAttempt E} {failure : Failure} {usage : BudgetUsage}
      {journalHead : JournalHead} {completion : NodeAttemptCompletion E}
      (hattempts : (state.records nodeId).attempts = earlier ++ [last])
      (hexecuting : last.completion = none) (hfence : last.start.fence = state.lease.fence)
      (hcompletion : NodeAttemptCompletion.fail last.start failure usage journalHead =
        .ok completion)
      (hattempt : NodeAttempt.restore last.start (some completion) = .ok attempt)
      (hfailure : failure.Schedulable journalHead.recordedAt)
      (hhead : state.journalHead.Before journalHead) :
      Step checkpoint state (state.setRecord nodeId
        ⟨earlier ++ [attempt], (state.records nodeId).result⟩ journalHead)

end RecoveryState

/-! ## What holds of a record -/

theorem RunFence.follows_refl (fence : RunFence) : fence.Follows fence := ⟨le_refl _, by simp⟩

/-- What holds of a node's record under the current fence, the workers used so far and the
journal head. -/
structure NodeRecord.Sound (activation : NodeActivation) (fence : RunFence)
    (workers : List AttemptId) (journalHead : JournalHead) (record : NodeRecord E) : Prop where
  history : AttemptHistory activation record.attempts
  follows : ∀ attempt ∈ record.attempts, fence.Follows attempt.start.fence
  worker_mem : ∀ attempt ∈ record.attempts, attempt.start.fence.attemptId ∈ workers
  anchor_le : ∀ last, record.attempts.getLast? = some last →
    last.anchor.sequence ≤ journalHead.sequence ∧ last.anchor.recordedAt ≤ journalHead.recordedAt
  result_eq : record.result.map PendingNodeResult.head =
    record.attempts.getLast?.bind NodeAttempt.result
  schedulable : ∀ last completion failure, record.attempts.getLast? = some last →
    last.completion = some completion → completion.outcome = .failed failure →
    failure.Schedulable completion.journalHead.recordedAt

/-- A worker under `fence` may start an attempt of the node from `instant` on. -/
structure NodeRecord.Startable (record : NodeRecord E) (fence : RunFence) (instant : Timestamp) :
    Prop where
  result_eq : record.result = none
  room : record.attempts.length < maxAttemptsPerNode
  permits : ∀ last, record.attempts.getLast? = some last →
    ∀ later, instant ≤ later → last.Permits fence later

namespace NodeRecord

variable {activation : NodeActivation} {fence : RunFence} {workers : List AttemptId}
  {journalHead : JournalHead} {record : NodeRecord E}

theorem Sound.empty : (NodeRecord.empty : NodeRecord E).Sound activation fence workers journalHead where
  history := .nil activation
  follows := by simp [NodeRecord.empty]
  worker_mem := by simp [NodeRecord.empty]
  anchor_le := by simp [NodeRecord.empty]
  result_eq := rfl
  schedulable := by simp [NodeRecord.empty]

variable (h : record.Sound activation fence workers journalHead)

include h

theorem Sound.advance {next : JournalHead}
    (hhead : journalHead.Before next) : record.Sound activation fence workers next where
  history := h.history
  follows := h.follows
  worker_mem := h.worker_mem
  anchor_le last hlast := by
    obtain ⟨hsequence, hclock⟩ := h.anchor_le last hlast
    exact ⟨hsequence.trans hhead.sequence_lt.le, hclock.trans hhead.recordedAt_le⟩
  result_eq := h.result_eq
  schedulable := h.schedulable

/-- A new worker of the next epoch follows every recorded attempt. -/
theorem Sound.supersede {next : RunFence}
    (hepoch : fence.epoch < next.epoch) (hfresh : next.attemptId ∉ workers) :
    record.Sound activation next (next.attemptId :: workers) journalHead where
  history := h.history
  follows attempt hattempt := by
    have hlt := lt_of_le_of_lt (h.follows attempt hattempt).epoch_le hepoch
    refine ⟨hlt.le, fun hworker => absurd (h.worker_mem attempt hattempt) ?_, fun heq => ?_⟩
    · rw [hworker]
      exact hfresh
    · exact absurd heq hlt.ne
  worker_mem attempt hattempt := List.mem_cons_of_mem _ (h.worker_mem attempt hattempt)
  anchor_le := h.anchor_le
  result_eq := h.result_eq
  schedulable := h.schedulable

/-- A startable node takes a fresh attempt under the current fence. -/
theorem Sound.start (hworker : fence.attemptId ∈ workers) {instant : Timestamp}
    (hstartable : record.Startable fence instant) {start : NodeAttemptStart E}
    (hactivation : start.activation = activation) (hfence : start.fence = fence)
    (hfresh : start.attemptId ∉ record.attempts.map (·.start.attemptId))
    (hhead : journalHead.Before start.journalHead) (hclock : instant ≤ start.journalHead.recordedAt) :
    (NodeRecord.mk (record.attempts ++ [.executing start]) record.result).Sound activation fence
      workers start.journalHead where
  history := by
    refine attemptHistory_append.mpr ⟨h.history, hactivation, hstartable.room, hfresh,
      fun last hlast => ?_⟩
    have hmem := List.mem_of_getLast? hlast
    obtain ⟨hsequence, hrecordedAt⟩ := h.anchor_le last hlast
    refine ⟨hactivation.trans (h.history.activation_eq last hmem).symm,
      lt_of_le_of_lt hsequence hhead.sequence_lt, hrecordedAt.trans hhead.recordedAt_le, ?_, ?_⟩
    · show start.fence.Follows last.start.fence
      rw [hfence]
      exact h.follows last hmem
    · show last.Permits start.fence start.journalHead.recordedAt
      rw [hfence]
      exact hstartable.permits last hlast _ hclock
  follows attempt hattempt := by
    rcases List.mem_append.mp hattempt with hold | hnew
    · exact h.follows attempt hold
    · rw [List.mem_singleton.mp hnew]
      show fence.Follows start.fence
      rw [hfence]
      exact fence.follows_refl
  worker_mem attempt hattempt := by
    rcases List.mem_append.mp hattempt with hold | hnew
    · exact h.worker_mem attempt hold
    · rw [List.mem_singleton.mp hnew]
      show start.fence.attemptId ∈ workers
      rw [hfence]
      exact hworker
  anchor_le last hlast := by
    simp only [List.getLast?_concat, Option.some.injEq] at hlast
    subst hlast
    exact ⟨le_refl _, le_refl _⟩
  result_eq := by
    rw [hstartable.result_eq, List.getLast?_concat]
    rfl
  schedulable last completion failure hlast hcompletion := by
    simp only [List.getLast?_concat, Option.some.injEq] at hlast
    subst hlast
    cases hcompletion

/-- The last attempt is completed, with its result if it succeeded. -/
theorem Sound.complete {earlier : List (NodeAttempt E)} {last attempt : NodeAttempt E}
    {completion : NodeAttemptCompletion E} {result : Option (PendingNodeResult E)}
    (hattempts : record.attempts = earlier ++ [last]) (hstart : attempt.start = last.start)
    (hcompletion : attempt.completion = some completion)
    (hresult : result.map PendingNodeResult.head = completion.outcome.result)
    (hschedulable : ∀ failure, completion.outcome = .failed failure →
      failure.Schedulable completion.journalHead.recordedAt) :
    (NodeRecord.mk (earlier ++ [attempt]) result).Sound activation fence workers
      completion.journalHead where
  history := by
    have hhistory := attemptHistory_append.mp (hattempts ▸ h.history)
    obtain ⟨hearlier, hactivation, hroom, hfresh, hprecedes⟩ := hhistory
    refine attemptHistory_append.mpr ⟨hearlier, hstart ▸ hactivation, hroom, hstart ▸ hfresh,
      fun previous hprevious => ?_⟩
    -- whether an attempt may follow depends on its start alone
    obtain ⟨hsame, hsequence, hclock, hfollows, hpermits⟩ := hprecedes previous hprevious
    exact ⟨hstart ▸ hsame, hstart ▸ hsequence, hstart ▸ hclock, hstart ▸ hfollows,
      hstart ▸ hpermits⟩
  follows other hother := by
    rcases List.mem_append.mp hother with hold | hnew
    · exact h.follows other (hattempts ▸ List.mem_append_left _ hold)
    · rw [List.mem_singleton.mp hnew, hstart]
      exact h.follows last (hattempts ▸ List.mem_append_right _ (List.mem_singleton_self _))
  worker_mem other hother := by
    rcases List.mem_append.mp hother with hold | hnew
    · exact h.worker_mem other (hattempts ▸ List.mem_append_left _ hold)
    · rw [List.mem_singleton.mp hnew, hstart]
      exact h.worker_mem last (hattempts ▸ List.mem_append_right _ (List.mem_singleton_self _))
  anchor_le final hfinal := by
    simp only [List.getLast?_concat, Option.some.injEq] at hfinal
    subst hfinal
    rw [NodeAttempt.anchor, hcompletion]
    exact ⟨le_refl _, le_refl _⟩
  result_eq := by
    rw [hresult, List.getLast?_concat, Option.bind_some, NodeAttempt.result, hcompletion,
      Option.bind_some]
  schedulable final record' failure hfinal hrecord' hfailure := by
    simp only [List.getLast?_concat, Option.some.injEq] at hfinal
    subst hfinal
    cases hcompletion.symm.trans hrecord'
    exact hschedulable failure hfailure

/-- The entry of a planner takes everything that is recorded, in any interleaving. -/
theorem Sound.foldlM_observe {observations : List (RecoveryObservation E)}
    (hattempts : attemptsIn observations = record.attempts)
    (hresults : resultsIn observations = record.result.toList) :
    observations.foldlM RecoveryEntry.observe (.initial activation) =
      .ok (.after activation record.result.toList record.attempts) := by
  refine RecoveryEntry.foldlM_observe_eq_ok.mpr ⟨fun observation hobservation => ?_, ?_, ?_, ?_⟩
  · cases observation with
    | attempt attempt =>
      have hmem : attempt ∈ attemptsIn observations :=
        List.mem_filterMap.mpr ⟨_, hobservation, rfl⟩
      exact h.history.activation_eq attempt (hattempts ▸ hmem)
    | result result =>
      have hmem : result ∈ resultsIn observations := List.mem_filterMap.mpr ⟨_, hobservation, rfl⟩
      rw [hresults, Option.mem_toList] at hmem
      have hlast := h.result_eq
      rw [hmem, Option.map_some, eq_comm, Option.bind_eq_some_iff] at hlast
      obtain ⟨last, hlast, hresult⟩ := hlast
      exact (NodeAttempt.of_result hresult).1.trans
        (h.history.activation_eq last (List.mem_of_getLast? hlast))
  · rw [hresults]
    cases record.result <;> simp
  · rw [hattempts]
    exact h.history
  · rw [hattempts, hresults]

/-- No evidence of a record lies after the journal head. -/
theorem Sound.evidence_le {evidence : JournalHead} (hevidence : evidence ∈
      (RecoveryEntry.after activation record.result.toList record.attempts).evidence) :
    evidence.sequence ≤ journalHead.sequence ∧ evidence.recordedAt ≤ journalHead.recordedAt := by
  simp only [RecoveryEntry.evidence, RecoveryEntry.after, List.mem_append, Option.mem_toList,
    Option.map_eq_some_iff] at hevidence
  rcases hevidence with ⟨head, ⟨result, hresult, rfl⟩, rfl⟩ | ⟨last, hlast, rfl⟩
  · -- a result lies where its attempt was completed
    have hsome : record.result = some result := by
      cases hrecord : record.result with
      | none => simp [hrecord] at hresult
      | some other => simpa [hrecord] using hresult
    have hlast := h.result_eq
    rw [hsome, Option.map_some, eq_comm, Option.bind_eq_some_iff] at hlast
    obtain ⟨last, hlast, hrecorded⟩ := hlast
    rw [(NodeAttempt.of_result hrecorded).2.2]
    exact h.anchor_le last hlast
  · exact h.anchor_le last hlast

/-- Every sound record is classified, a record with a result as completed by it. -/
theorem Sound.exists_classifyEntry (nodeId : NodeId) (observedAt : Timestamp) :
    ∃ node, classifyEntry nodeId (.after activation record.result.toList record.attempts) fence
        observedAt = .ok node ∧
      ∀ result, record.result = some result → node = .completed activation result.head := by
  have hresult := h.result_eq
  cases hrecord : record.result with
  | some result =>
    rw [hrecord, Option.map_some, eq_comm, Option.bind_eq_some_iff] at hresult
    obtain ⟨last, hlast, hrecorded⟩ := hresult
    have hfence : validateCurrentFence nodeId result.head.fence fence = .ok () := by
      rw [validateCurrentFence_eq_ok, (NodeAttempt.of_result hrecorded).2.1]
      exact h.follows last (List.mem_of_getLast? hlast)
    refine ⟨.completed activation result.head, ?_, fun other hother => by rw [Option.some.inj hother]⟩
    simp [classifyEntry, RecoveryEntry.after, hlast, hfence, hrecorded, reject, pure, Except.pure]
  | none =>
    refine Exists.imp (fun node hnode =>
      ⟨hnode, fun _ hnone => absurd hnone.symm (Option.some_ne_none _)⟩) ?_
    cases hlast : record.attempts.getLast? with
    | none =>
      exact ⟨.dispatchable activation .firstAttempt, by simp [classifyEntry, RecoveryEntry.after,
        hlast, pure, Except.pure]⟩
    | some last =>
      have hfence : validateCurrentFence nodeId last.start.fence fence = .ok () :=
        validateCurrentFence_eq_ok.mpr (h.follows last (List.mem_of_getLast? hlast))
      simp only [classifyEntry, RecoveryEntry.after, Option.toList_none, List.getLast?_nil,
        Option.map_none, hlast, hfence, ok_bind]
      cases hcompletion : last.completion with
      | none =>
        dsimp only
        split
        · exact ⟨_, rfl⟩
        · split <;> exact ⟨_, rfl⟩
      | some completion =>
        dsimp only
        cases houtcome : completion.outcome with
        | succeeded result =>
          simp [hrecord, hlast, NodeAttempt.result, hcompletion, houtcome,
            NodeAttemptOutcome.result] at hresult
        | failed failure =>
          dsimp only
          rcases h.schedulable last completion failure hlast hcompletion houtcome with
            hnever | ⟨delay, hdelay, hnotBefore⟩
          · simp only [classifyFailure, hnever]
            exact ⟨_, rfl⟩
          · obtain ⟨notBefore, hnotBefore⟩ := Option.isSome_iff_exists.mp hnotBefore
            simp only [classifyFailure, hdelay, hnotBefore, okOr, ok_bind]
            split
            · exact ⟨_, rfl⟩
            · split <;> exact ⟨_, rfl⟩

end NodeRecord

/-! ## What holds of a state -/

namespace RecoveryState

/-- The invariant of the loop. -/
structure Sound (checkpoint : Checkpoint E) (state : RecoveryState E) : Prop
    extends OnRun checkpoint state where
  record : ∀ nodeId, state.records nodeId = .empty ∨ ∃ activation,
    NodeActivation.forReadyRoot checkpoint nodeId = .ok activation ∧
      (state.records nodeId).Sound activation state.lease.fence state.workers state.journalHead
  plan : ∀ plan, state.plan = some plan → ∀ node ∈ plan.nodes,
    NodeActivation.forReadyRoot checkpoint node.activation.nodeId = .ok node.activation ∧
      (node.kind = .dispatchable → node.activation.nodeId ∉ state.startedSince →
        (state.records node.activation.nodeId).Startable state.lease.fence plan.observedAt)

variable {checkpoint : Checkpoint E} {state next : RecoveryState E}

theorem OnRun.advance (h : state.OnRun checkpoint)
    (hhead : state.journalHead.Before next.journalHead) (hlease : next.lease = state.lease)
    (hworkers : next.workers = state.workers) : next.OnRun checkpoint where
  tenant_eq := hlease ▸ h.tenant_eq
  run_eq := hlease ▸ h.run_eq
  worker_mem := hlease ▸ hworkers ▸ h.worker_mem
  head_tenant_eq := hhead.tenant_eq.trans h.head_tenant_eq
  head_run_eq := hhead.run_eq.trans h.head_run_eq
  sequence_le := h.sequence_le.trans hhead.sequence_lt.le
  recordedAt_le := h.recordedAt_le.trans hhead.recordedAt_le

theorem Sound.initial (h : Initial checkpoint state) : state.Sound checkpoint where
  toOnRun := h.toOnRun
  record nodeId := Or.inl (h.records_eq nodeId)
  plan plan hplan := by
    rw [h.plan_eq] at hplan
    cases hplan

variable {nodeId : NodeId} {observations : List (RecoveryObservation E)}

variable (h : state.Sound checkpoint)

include h

theorem Sound.record_of_activation {activation : NodeActivation}
    (hactivation : NodeActivation.forReadyRoot checkpoint nodeId = .ok activation) :
    (state.records nodeId).Sound activation state.lease.fence state.workers state.journalHead := by
  rcases h.record nodeId with hempty | ⟨other, hother, hsound⟩
  · rw [hempty]
    exact .empty
  · cases hother.symm.trans hactivation
    exact hsound

variable {planner observed : ReadyNodeRecoveryPlanner E}

theorem Sound.exists_observeAll
    (hnew : ReadyNodeRecoveryPlanner.new checkpoint state.lease.fence = .ok planner) (hreports : state.Reports checkpoint observations) :
    ∃ observed, planner.observeAll observations = .ok observed := by
  obtain ⟨_, _, entries, hentries, rfl⟩ := ReadyNodeRecoveryPlanner.new_eq_ok.mp hnew
  have hkeys := ReadyNodeRecoveryPlanner.keys_of_new hentries
  have hnodup : (entries.map Prod.fst).Nodup := hkeys ▸ checkpoint.readyNodes.sorted.nodup
  obtain ⟨entries', hentries'⟩ : ∃ entries', observations.foldlM
      (routeStep RecoveryObservation.nodeId RecoveryObservation.unexpected RecoveryEntry.observe)
      entries = .ok entries' := by
    refine exists_foldlM_routeStep (fun observation hobservation => ?_)
      (fun nodeId entry hentry => ?_)
    · obtain ⟨entry, hmem, activation, _, rfl⟩ :=
        exists_of_forall₂_left hentries (hreports.ready observation hobservation)
      exact ⟨_, (lookup_eq_some_iff_mem hnodup).mpr hmem⟩
    · obtain ⟨ready, hready, activation, hactivation, heq⟩ :=
        exists_of_forall₂_right hentries ((lookup_eq_some_iff_mem hnodup).mp hentry)
      cases heq
      exact ⟨_, (h.record_of_activation hactivation).foldlM_observe
        (hreports.attempts_eq nodeId hready) (hreports.results_eq nodeId hready)⟩
  exact ⟨_, ReadyNodeRecoveryPlanner.observeAll_eq_ok.mpr ⟨entries', hentries', rfl⟩⟩

/-- The entries of a planner that was told a report. -/
theorem Sound.entry_of_reports (hreports : state.Reports checkpoint observations)
    (hholds : observed.Holds checkpoint state.lease.fence observations)
    {entry : NodeId × RecoveryEntry E} (hentry : entry ∈ observed.entries) :
    ∃ activation, NodeActivation.forReadyRoot checkpoint entry.1 = .ok activation ∧
      (state.records entry.1).Sound activation state.lease.fence state.workers
        state.journalHead ∧
      entry.2 = .after activation (state.records entry.1).result.toList
        (state.records entry.1).attempts := by
  obtain ⟨activation, hactivation, _, _, hafter⟩ := hholds.entry_eq entry hentry
  have hready := (NodeActivation.forReadyRoot_eq_ok hactivation).1
  refine ⟨activation, hactivation, h.record_of_activation hactivation, ?_⟩
  rw [hafter, hreports.attempts_eq entry.1 hready, hreports.results_eq entry.1 hready]

/-- A planner that was told a report can be finished at the journal head, at any later clock;
nodes with a result are completed by it. -/
theorem Sound.exists_finish
    (hnew : ReadyNodeRecoveryPlanner.new checkpoint state.lease.fence = .ok planner) (hreports : state.Reports checkpoint observations)
    (hobserve : planner.observeAll observations = .ok observed) {observedAt : Timestamp}
    (hclock : state.journalHead.recordedAt ≤ observedAt) :
    ∃ plan, observed.finish state.journalHead observedAt = .ok plan ∧
      ∀ nodeId ∈ checkpoint.readyNodes.nodes, ∀ result, (state.records nodeId).result = some result →
        ∃ node ∈ plan.nodes, node.activation.nodeId = nodeId ∧
          node = .completed node.activation result.head := by
  have hholds := ReadyNodeRecoveryPlanner.holds_of_observeAll hnew hobserve
  have hvalid : observed.validateObservation state.journalHead observedAt = .ok () := by
    refine ReadyNodeRecoveryPlanner.validateObservation_eq_ok.mpr ?_
    rw [hholds.checkpoint_eq]
    refine ⟨h.head_tenant_eq, h.head_run_eq, h.sequence_le, h.recordedAt_le, hclock,
      fun entry hentry evidence hevidence => ?_⟩
    obtain ⟨activation, _, hsound, hafter⟩ := h.entry_of_reports hreports hholds hentry
    exact hsound.evidence_le (hafter ▸ hevidence)
  obtain ⟨nodes, hnodes⟩ : ∃ nodes, List.Forall₂ (fun entry node =>
      classifyEntry entry.1 entry.2 observed.fence observedAt = .ok node) observed.entries nodes := by
    refine exists_forall₂ (fun entry hentry => ?_)
    obtain ⟨activation, _, hsound, hafter⟩ := h.entry_of_reports hreports hholds hentry
    obtain ⟨node, hnode, _⟩ := hsound.exists_classifyEntry entry.1 observedAt
    exact ⟨node, by rw [hafter, hholds.fence_eq, hnode]⟩
  refine ⟨_, ReadyNodeRecoveryPlanner.finish_eq_ok.mpr ⟨hvalid, nodes, hnodes, rfl⟩,
    fun nodeId hready result hresult => ?_⟩
  obtain ⟨entry, hentry, rfl⟩ := List.mem_map.mp (hholds.keys_eq ▸ hready)
  obtain ⟨activation, hactivation, hsound, hafter⟩ := h.entry_of_reports hreports hholds hentry
  obtain ⟨node, hmem, hclassify⟩ := exists_of_forall₂_left hnodes hentry
  obtain ⟨expected, hexpected, hcompleted⟩ := hsound.exists_classifyEntry entry.1 observedAt
  rw [hafter, hholds.fence_eq, hexpected] at hclassify
  cases hclassify
  rw [hcompleted result hresult] at hmem
  exact ⟨_, hmem, (NodeActivation.forReadyRoot_eq_ok hactivation).2.2.2, rfl⟩

/-- Changing the record of one node, at a later journal head. -/
theorem Sound.setRecord {activation : NodeActivation}
    {record : NodeRecord E} {journalHead : JournalHead} {since : List NodeId}
    (hactivation : NodeActivation.forReadyRoot checkpoint nodeId = .ok activation)
    (hhead : state.journalHead.Before journalHead)
    (hrecord : record.Sound activation state.lease.fence state.workers journalHead)
    (hsince : state.startedSince ⊆ since)
    (hplan : ∀ plan, state.plan = some plan → ∀ node ∈ plan.nodes, node.kind = .dispatchable →
      node.activation.nodeId = nodeId → nodeId ∉ since →
      record.Startable state.lease.fence plan.observedAt) :
    RecoveryState.Sound checkpoint
      { state.setRecord nodeId record journalHead with startedSince := since } where
  toOnRun := h.toOnRun.advance hhead rfl rfl
  record other := by
    by_cases hother : other = nodeId
    · subst hother
      refine Or.inr ⟨activation, hactivation, ?_⟩
      simpa [RecoveryState.setRecord] using hrecord
    · simp only [RecoveryState.setRecord, Function.update_of_ne hother]
      exact (h.record other).imp_right
        (fun ⟨activation, hactivation, hsound⟩ => ⟨activation, hactivation, hsound.advance hhead⟩)
  plan plan hsome node hnode := by
    obtain ⟨hready, hstartable⟩ := h.plan plan hsome node hnode
    refine ⟨hready, fun hkind hfresh => ?_⟩
    by_cases hother : node.activation.nodeId = nodeId
    · simp only [RecoveryState.setRecord, hother, Function.update_self]
      exact hplan plan hsome node hnode hkind hother (hother ▸ hfresh)
    · simp only [RecoveryState.setRecord, Function.update_of_ne hother]
      exact hstartable hkind (fun hmem => hfresh (hsince hmem))

/-- The last attempt of a node, executing under the current fence, is completed. -/
theorem Sound.completeRecord {earlier : List (NodeAttempt E)} {last attempt : NodeAttempt E}
    {completion : NodeAttemptCompletion E} {result : Option (PendingNodeResult E)}
    (hattempts : (state.records nodeId).attempts = earlier ++ [last])
    (hexecuting : last.completion = none) (hfence : last.start.fence = state.lease.fence)
    (hattempt : NodeAttempt.restore last.start (some completion) = .ok attempt)
    (hresult : result.map PendingNodeResult.head = completion.outcome.result)
    (hschedulable : ∀ failure, completion.outcome = .failed failure →
      failure.Schedulable completion.journalHead.recordedAt)
    (hhead : state.journalHead.Before completion.journalHead) :
    (state.setRecord nodeId ⟨earlier ++ [attempt], result⟩ completion.journalHead).Sound
      checkpoint := by
  obtain ⟨hstart, hcompletion⟩ := NodeAttempt.restore_eq_ok hattempt
  rcases h.record nodeId with hempty | ⟨activation, hactivation, hsound⟩
  · rw [hempty] at hattempts
    simp [NodeRecord.empty] at hattempts
  · refine h.setRecord hactivation hhead
      (hsound.complete hattempts hstart hcompletion hresult hschedulable) (List.Subset.refl _)
      (fun plan hplan node hnode hkind hsame hfresh => ?_)
    -- no plan of this lease dispatches a node whose last attempt executes under it
    have hstartable := (h.plan plan hplan node hnode).2 hkind (hsame ▸ hfresh)
    rw [hsame] at hstartable
    have hpermits := hstartable.permits last (by rw [hattempts, List.getLast?_concat])
      plan.observedAt (le_refl _)
    rw [NodeAttempt.permits_of_executing hexecuting, hfence] at hpermits
    exact absurd hpermits (lt_irrefl _)

/-- A plan's dispatchable nodes are startable when it is made. -/
theorem Sound.startable_of_plan {observedAt : Timestamp} {plan : ReadyNodeRecoveryPlan E}
    (hnew : ReadyNodeRecoveryPlanner.new checkpoint state.lease.fence = .ok planner)
    (hreports : state.Reports checkpoint observations)
    (hobserve : planner.observeAll observations = .ok observed)
    (hfinish : observed.finish state.journalHead observedAt = .ok plan) {node : RecoveryNode E}
    (hnode : node ∈ plan.nodes) :
    NodeActivation.forReadyRoot checkpoint node.activation.nodeId = .ok node.activation ∧
      (node.kind = .dispatchable →
        (state.records node.activation.nodeId).Startable state.lease.fence plan.observedAt) := by
  have hholds := ReadyNodeRecoveryPlanner.holds_of_observeAll hnew hobserve
  obtain ⟨_, nodes, hnodes, hplan⟩ := ReadyNodeRecoveryPlanner.finish_eq_ok.mp hfinish
  obtain ⟨entry, hentry, hclassify⟩ := exists_of_forall₂_right hnodes
    (show node ∈ nodes by rw [hplan] at hnode; exact hnode)
  obtain ⟨hnodeId, hafter, hexplains⟩ :=
    ReadyNodeRecoveryPlanner.explains_of_finish hholds hfinish hentry hclassify
  obtain ⟨activation, hactivation, hsound, hafter'⟩ := h.entry_of_reports hreports hholds hentry
  have hsame : node.activation = activation := by
    have hactivations := congrArg RecoveryEntry.activation (hafter.symm.trans hafter')
    exact hactivations
  rw [hnodeId, hsame]
  refine ⟨hactivation, fun hkind => ?_⟩
  have hjustified := hexplains.justified
  rw [← hafter, hafter'] at hjustified
  have hfence : plan.fence = state.lease.fence := by
    rw [hplan]
    exact hholds.fence_eq
  rw [hfence] at hjustified
  cases node with
  | dispatchable activation reason =>
    refine ⟨by simpa [RecoveryEntry.after] using hjustified.1, ?_, fun last hlast =>
      (hjustified.2 last hlast).2.2⟩
    cases hlast : (state.records entry.1).attempts.getLast? with
    | none =>
      rw [List.getLast?_eq_none_iff.mp hlast]
      simp [maxAttemptsPerNode]
    | some last => exact (hjustified.2 last hlast).1
  | _ => cases hkind

theorem Sound.step (hstep : Step checkpoint state next) :
    next.Sound checkpoint := by
  cases hstep with
  | renew hlease =>
    have hfence := RunLease.renewed_fence hlease
    refine ⟨⟨?_, ?_, ?_, h.head_tenant_eq, h.head_run_eq, h.sequence_le, h.recordedAt_le⟩, ?_, ?_⟩ <;>
      dsimp only <;> rw [hfence]
    exacts [h.tenant_eq, h.run_eq, h.worker_mem, h.record, h.plan]
  | @supersede attemptId _ _ lease hlease hfresh =>
    obtain ⟨htenant, hrun, hworker, _, hepoch⟩ := RunLease.superseded_fence hlease
    have hlt : state.lease.fence.epoch < lease.fence.epoch := by
      rw [Ordinal.lt_iff, hepoch]
      omega
    refine ⟨⟨htenant.trans h.tenant_eq, hrun.trans h.run_eq, by simp [hworker],
      h.head_tenant_eq, h.head_run_eq, h.sequence_le, h.recordedAt_le⟩, fun nodeId => ?_,
      fun plan hplan => nomatch hplan⟩
    refine (h.record nodeId).imp_right (fun ⟨activation, hactivation, hsound⟩ =>
      ⟨activation, hactivation, ?_⟩)
    have hsuperseded := hsound.supersede hlt (by rw [hworker]; exact hfresh)
    rw [hworker] at hsuperseded
    exact hsuperseded
  | advance hhead =>
    exact ⟨h.toOnRun.advance hhead rfl rfl, fun nodeId => (h.record nodeId).imp_right
      (fun ⟨activation, hactivation, hsound⟩ => ⟨activation, hactivation, hsound.advance hhead⟩),
      h.plan⟩
  | plan hnew hreports hobserve hfinish =>
    refine ⟨⟨h.tenant_eq, h.run_eq, h.worker_mem, h.head_tenant_eq, h.head_run_eq, h.sequence_le,
      h.recordedAt_le⟩, h.record, fun plan hplan node hnode => ?_⟩
    cases hplan
    obtain ⟨hready, hstartable⟩ := h.startable_of_plan hnew hreports hobserve hfinish hnode
    exact ⟨hready, fun hkind _ => hstartable hkind⟩
  | @start plan node attemptId journalHead start hplan hnode hkind hsince hstart hfresh hhead
      hclock =>
    obtain ⟨hactivation, hid, hfence, hposition⟩ := NodeAttemptStart.new_eq_ok hstart
    obtain ⟨hready, hstartable⟩ := h.plan plan hplan node hnode
    subst hposition
    refine h.setRecord hready hhead ((h.record_of_activation hready).start h.worker_mem
      (hstartable hkind hsince) hactivation hfence (hid ▸ hfresh) hhead hclock)
      (List.subset_cons_self _ _) (fun plan hplan node' hnode' hkind' hsame hnotMem => ?_)
    exact absurd List.mem_cons_self hnotMem
  | @succeed nodeId earlier last attempt result usage completion hattempts hexecuting hfence
      hcompletion hattempt hhead =>
    obtain ⟨_, houtcome, hposition⟩ := NodeAttemptCompletion.materialize_eq_ok hcompletion
    have hposition' : completion.journalHead = result.journalHead := hposition
    rw [← hposition'] at hhead ⊢
    refine h.completeRecord hattempts hexecuting hfence hattempt ?_ (fun failure hfailure => ?_) hhead
    · rw [houtcome]
      rfl
    · rw [houtcome] at hfailure
      cases hfailure
  | @fail nodeId earlier last attempt failure usage journalHead completion hattempts hexecuting
      hfence hcompletion hattempt hfailure hhead =>
    obtain ⟨_, houtcome, hposition⟩ := NodeAttemptCompletion.materialize_eq_ok hcompletion
    subst hposition
    refine h.completeRecord hattempts hexecuting hfence hattempt ?_ (fun other hother => ?_) hhead
    · -- a node whose last attempt executes has no result
      rcases h.record nodeId with hempty | ⟨activation, _, hsound⟩
      · rw [hempty]
        simp [NodeRecord.empty, houtcome, NodeAttemptOutcome.result]
      · rw [hsound.result_eq, hattempts, List.getLast?_concat, Option.bind_some,
          NodeAttempt.result, hexecuting, houtcome]
        rfl
    · rw [houtcome] at hother
      cases hother
      exact hfailure

theorem Sound.run
    (hrun : Relation.ReflTransGen (Step checkpoint) state next) : next.Sound checkpoint := by
  induction hrun with
  | refl => exact h
  | tail _ hstep ih => exact ih.step hstep

theorem Sound.records_of_step (hstep : Step checkpoint state next) (hresult : (state.records nodeId).result.isSome) :
    next.records nodeId = state.records nodeId := by
  -- a record that a step replaces has no result
  have hreplaced : ∀ {other : NodeId} {record : NodeRecord E},
      (state.records other).result = none →
      Function.update state.records other record nodeId = state.records nodeId := by
    intro other record hnone
    have hne : nodeId ≠ other := by
      rintro rfl
      simp [hnone] at hresult
    exact Function.update_of_ne hne _ _
  have hexecuting : ∀ {other : NodeId} {earlier : List (NodeAttempt E)} {last : NodeAttempt E},
      (state.records other).attempts = earlier ++ [last] → last.completion = none →
      (state.records other).result = none := by
    intro other earlier last hattempts hcompletion
    rcases h.record other with hempty | ⟨activation, _, hsound⟩
    · rw [hempty]
      rfl
    · have heq := hsound.result_eq
      rw [hattempts, List.getLast?_concat, Option.bind_some, NodeAttempt.result, hcompletion,
        Option.bind_none, Option.map_eq_none_iff] at heq
      exact heq
  cases hstep with
  | renew => rfl
  | supersede => rfl
  | advance => rfl
  | plan => rfl
  | start hplan hnode hkind hsince =>
    exact hreplaced ((h.plan _ hplan _ hnode).2 hkind hsince).result_eq
  | succeed hattempts hcompletion => exact hreplaced (hexecuting hattempts hcompletion)
  | fail hattempts hcompletion => exact hreplaced (hexecuting hattempts hcompletion)

theorem Sound.records_of_run (hrun : Relation.ReflTransGen (Step checkpoint) state next)
    (hresult : (state.records nodeId).result.isSome) :
    next.records nodeId = state.records nodeId := by
  induction hrun with
  | refl => rfl
  | tail hrun hstep ih => exact ((h.run hrun).records_of_step hstep (ih ▸ hresult)).trans ih

end RecoveryState

/-- A loop of takeovers, plans, starts and completions over the ready nodes of a checkpoint
never gets stuck on its own records.  In every state that it reaches, a planner under the
current fence can be built, takes every report of what is recorded, and can be finished at the
latest journal head and any clock not before it.  A node with a recorded result is completed by
it in that plan, and nothing about the node changes ever after; no node has more than 64
attempts. -/
theorem recovery_loop_closed {checkpoint : Checkpoint E} {initial state : RecoveryState E}
    (hinitial : RecoveryState.Initial checkpoint initial)
    (hplanner : ∃ planner, ReadyNodeRecoveryPlanner.new checkpoint initial.lease.fence = .ok planner)
    (hreachable : Relation.ReflTransGen (RecoveryState.Step checkpoint) initial state) :
    (∃ planner, ReadyNodeRecoveryPlanner.new checkpoint state.lease.fence = .ok planner ∧
      ∀ observations, state.Reports checkpoint observations →
        ∃ observed, planner.observeAll observations = .ok observed ∧
          ∀ observedAt, state.journalHead.recordedAt ≤ observedAt →
            ∃ plan, observed.finish state.journalHead observedAt = .ok plan ∧
              ∀ nodeId ∈ checkpoint.readyNodes.nodes, ∀ result,
                (state.records nodeId).result = some result →
                ∃ node ∈ plan.nodes, node.activation.nodeId = nodeId ∧
                  node = .completed node.activation result.head) ∧
    (∀ nodeId, (state.records nodeId).attempts.length ≤ 64) ∧
    ∀ later, Relation.ReflTransGen (RecoveryState.Step checkpoint) state later →
      ∀ nodeId, (state.records nodeId).result.isSome →
        later.records nodeId = state.records nodeId := by
  have hsound := (RecoveryState.Sound.initial hinitial).run hreachable
  refine ⟨?_, fun nodeId => ?_, fun later hlater nodeId hresult => hsound.records_of_run hlater hresult⟩
  · obtain ⟨planner, hplanner⟩ := hplanner
    obtain ⟨_, _, entries, hentries, _⟩ := ReadyNodeRecoveryPlanner.new_eq_ok.mp hplanner
    have hnew : ReadyNodeRecoveryPlanner.new checkpoint state.lease.fence =
        .ok ⟨checkpoint, state.lease.fence, entries⟩ :=
      ReadyNodeRecoveryPlanner.new_eq_ok.mpr
        ⟨hsound.tenant_eq, hsound.run_eq, entries, hentries, rfl⟩
    refine ⟨_, hnew, fun observations hreports => ?_⟩
    obtain ⟨observed, hobserve⟩ := hsound.exists_observeAll hnew hreports
    exact ⟨observed, hobserve, fun observedAt hclock =>
      hsound.exists_finish hnew hreports hobserve hclock⟩
  · rcases hsound.record nodeId with hempty | ⟨activation, _, hrecord⟩
    · rw [hempty]
      exact Nat.zero_le _
    · exact hrecord.history.bounded

namespace RecoverySample

def lease : RunLease :=
  ⟨worker ⟨"first"⟩ .first, .ofMicros 0, .ofMicros 0,
    .ofMicros 1, by decide, by decide⟩

/-- Nothing is recorded after the checkpoint yet. -/
def idle : RecoveryState .compact where
  lease := lease
  workers := [⟨"first"⟩]
  journalHead := journalHead (.ofNat 1)
  records := fun _ => .empty
  plan := none
  startedSince := []

def pendingResult (activation : NodeActivation) : Option (PendingNodeResult .compact) :=
  if h : validateBasicResultScope activation lease.fence (journalHead (.ofNat 3)) = .ok () then
    some ⟨⟨activation, .unchanged, .continue, ⟨[]⟩⟩, lease.fence,
      journalHead (.ofNat 3), ⟨[]⟩, h⟩
  else none

/-- A plan over nothing, the first attempt it dispatches, and the success of that attempt. -/
def firstSuccess : Option (Checkpoint .compact × ReadyNodeRecoveryPlanner .compact ×
    ReadyNodeRecoveryPlan .compact × RecoveryNode .compact × NodeAttemptStart .compact ×
    PendingNodeResult .compact × NodeAttemptCompletion .compact × NodeAttempt .compact) := do
  let checkpoint ← checkpoint [⟨"node"⟩]
  let planner ← (ReadyNodeRecoveryPlanner.new checkpoint lease.fence).toOption
  let plan ← (planner.finish idle.journalHead (.ofMicros 0)).toOption
  let node ← plan.nodes.head?
  let start ← (NodeAttemptStart.new node.activation ⟨"attempt-1"⟩ lease.fence
    (journalHead (.ofNat 2))).toOption
  let result ← pendingResult node.activation
  let completion ← (NodeAttemptCompletion.succeed start result.head .zero).toOption
  let attempt ← (NodeAttempt.restore start (some completion)).toOption
  return (checkpoint, planner, plan, node, start, result, completion, attempt)

theorem before {earlier later : JournalSequence} (h : earlier < later) :
    (journalHead earlier).Before (journalHead later) :=
  ⟨rfl, rfl, h, le_refl _⟩

end RecoverySample

/-- The loop plans, starts and completes the first attempt of a node; the next plan completes
the node. -/
theorem recovery_loop_closed_success :
    ∃ (checkpoint : Checkpoint .compact) (state : RecoveryState .compact)
      (result : PendingNodeResult .compact) (observed : ReadyNodeRecoveryPlanner .compact)
      (plan : ReadyNodeRecoveryPlan .compact) (node : RecoveryNode .compact),
      Relation.ReflTransGen (RecoveryState.Step checkpoint) RecoverySample.idle state ∧
      (state.records ⟨"node"⟩).result = some result ∧
      observed.finish state.journalHead state.journalHead.recordedAt = .ok plan ∧
      node ∈ plan.nodes ∧ node = .completed node.activation result.head := by
  have hsome : (RecoverySample.firstSuccess.any (fun sample =>
      sample.1.tenantId = ⟨"tenant"⟩ ∧ sample.1.runId = ⟨"run"⟩ ∧
      sample.1.journalHead = RecoverySample.journalHead (.ofNat 1) ∧
      sample.1.readyNodes.nodes = [⟨"node"⟩] ∧
      sample.2.2.2.1.kind = .dispatchable ∧ sample.2.2.2.1.activation.nodeId = ⟨"node"⟩ ∧
      sample.2.2.2.2.2.1.journalHead = RecoverySample.journalHead (.ofNat 3) ∧
      sample.2.2.2.2.2.1.activation.nodeId = ⟨"node"⟩ ∧
      sample.2.2.2.2.2.2.2.start.activation.nodeId = ⟨"node"⟩ ∧
      sample.2.2.1.observedAt = .ofMicros 0)) = true := by
    decide +kernel
  obtain ⟨⟨checkpoint, planner, first, dispatched, start, result, completion, attempt⟩, hsample,
    hfacts⟩ := (Option.any_eq_true _ _).mp hsome
  obtain ⟨htenant, hrun, hhead, hready, hkind, hnode, hresultHead, hresultNode, hattemptNode,
    hobservedAt⟩ := of_decide_eq_true hfacts
  simp only [RecoverySample.firstSuccess, Option.bind_eq_bind, Option.bind_eq_some_iff,
    toOption_eq_some, pure, Option.some.injEq, Prod.mk.injEq] at hsample
  obtain ⟨checkpoint, _, planner, hnew, first, hfirst, dispatched, hdispatched, start, hstart,
    result, _, completion, hcompletion, attempt, hattempt, rfl, rfl, rfl, rfl, rfl, rfl, rfl, rfl⟩ :=
    hsample
  dsimp only at htenant hrun hhead hready hkind hnode
  dsimp only at hresultHead hresultNode hattemptNode hobservedAt
  have hinitial : RecoveryState.Initial checkpoint RecoverySample.idle :=
    ⟨⟨htenant.symm, hrun.symm, List.mem_singleton_self _, htenant.symm, hrun.symm,
      by rw [hhead]; exact le_refl _, by rw [hhead]; exact le_refl _⟩, fun _ => rfl, rfl⟩
  have hplanned := @RecoveryState.Step.plan _ checkpoint RecoverySample.idle planner planner []
    _ first hnew ⟨by simp, fun _ _ => rfl, fun _ _ => rfl⟩ rfl hfirst
  have hstarted := @RecoveryState.Step.start _ checkpoint
    { RecoverySample.idle with plan := some first, startedSince := [] } first dispatched
    ⟨"attempt-1"⟩ (RecoverySample.journalHead (.ofNat 2)) start rfl
    (List.mem_of_head? hdispatched) hkind (by simp) hstart
    (by simp [RecoverySample.idle, NodeRecord.empty]) (RecoverySample.before (by decide))
    (by rw [hobservedAt]; exact le_refl _)
  obtain ⟨_, _, hfence, _⟩ := NodeAttemptStart.new_eq_ok hstart
  obtain ⟨state, hreachable, hrecord⟩ : ∃ state,
      Relation.ReflTransGen (RecoveryState.Step checkpoint) RecoverySample.idle state ∧
        state.records ⟨"node"⟩ = ⟨[attempt], some result⟩ := by
    refine ⟨_, ((Relation.ReflTransGen.single hplanned).tail hstarted).tail
      (@RecoveryState.Step.succeed _ checkpoint _ dispatched.activation.nodeId []
        (.executing start) attempt result .zero completion
        (by simp [RecoveryState.setRecord, RecoverySample.idle, NodeRecord.empty]) rfl hfence
        hcompletion hattempt (by rw [hresultHead]; exact RecoverySample.before (by decide))), ?_⟩
    simp [RecoveryState.setRecord, hnode]
  have hresultId : (RecoveryObservation.result result).nodeId = ⟨"node"⟩ := hresultNode
  have hattemptId : (RecoveryObservation.attempt attempt).nodeId = ⟨"node"⟩ := hattemptNode
  have hreports : state.Reports checkpoint [.result result, .attempt attempt] := by
    have hobservations : observationsOf ⟨"node"⟩ [.result result, .attempt attempt] =
        [.result result, .attempt attempt] := by
      simp [observationsOf, opsFor, hresultId, hattemptId]
    refine ⟨by simp [hready, hresultId, hattemptId], fun nodeId hnodeId => ?_,
      fun nodeId hnodeId => ?_⟩ <;> rw [hready, List.mem_singleton] at hnodeId <;>
      rw [hnodeId, hobservations, hrecord] <;> rfl
  obtain ⟨⟨planner', _, hplans⟩, _⟩ := recovery_loop_closed hinitial ⟨planner, hnew⟩ hreachable
  obtain ⟨observed, _, hfinishes⟩ := hplans _ hreports
  obtain ⟨plan, hfinish, hresults⟩ := hfinishes _ (le_refl _)
  obtain ⟨node, hmem, _, hcompleted⟩ := hresults ⟨"node"⟩ (by simp [hready]) result
    (by rw [hrecord])
  exact ⟨checkpoint, state, result, observed, plan, node, hreachable, by rw [hrecord], hfinish,
    hmem, hcompleted⟩

end StateKnot
