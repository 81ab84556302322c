import StateKnot.Recovery
import StateKnot.Written

/-!
# The planner and the history verifier agree

Two pieces of code decide whether a node may run again: the classification of a
recovery plan, before an attempt starts, and the check of the attempt against the
node's history, when it is recorded.  Both compare fences with `RunFence.Follows`
and ask how the last attempt ended with `NodeAttempt.Permits`, so a plan's verdict
says what the history check will answer.
-/

namespace StateKnot

open Lib

variable {E : Encoding}

/-! ## What a planner has seen -/

/-- The attempts among observations, in order. -/
def attemptsIn (observations : List (RecoveryObservation E)) : List (NodeAttempt E) :=
  observations.filterMap RecoveryObservation.attempt?

/-- The results among observations, in order. -/
def resultsIn (observations : List (RecoveryObservation E)) : List (PendingNodeResult E) :=
  observations.filterMap RecoveryObservation.result?

@[simp] theorem attemptsIn_concat_attempt (observations : List (RecoveryObservation E))
    (attempt : NodeAttempt E) :
    attemptsIn (observations ++ [.attempt attempt]) = attemptsIn observations ++ [attempt] := by
  simp [attemptsIn, RecoveryObservation.attempt?]

@[simp] theorem attemptsIn_concat_result (observations : List (RecoveryObservation E))
    (result : PendingNodeResult E) :
    attemptsIn (observations ++ [.result result]) = attemptsIn observations := by
  simp [attemptsIn, RecoveryObservation.attempt?]

@[simp] theorem resultsIn_concat_attempt (observations : List (RecoveryObservation E))
    (attempt : NodeAttempt E) :
    resultsIn (observations ++ [.attempt attempt]) = resultsIn observations := by
  simp [resultsIn, RecoveryObservation.result?]

@[simp] theorem resultsIn_concat_result (observations : List (RecoveryObservation E))
    (result : PendingNodeResult E) :
    resultsIn (observations ++ [.result result]) = resultsIn observations ++ [result] := by
  simp [resultsIn, RecoveryObservation.result?]

/-- The observations of one node. -/
def observationsOf (nodeId : NodeId) (observations : List (RecoveryObservation E)) :
    List (RecoveryObservation E) :=
  opsFor RecoveryObservation.nodeId nodeId observations

/-- Attempts that a node's history can hold. -/
structure AttemptHistory (activation : NodeActivation) (attempts : List (NodeAttempt E)) : Prop where
  activation_eq : ∀ attempt ∈ attempts, attempt.start.activation = activation
  ids_nodup : (attempts.map (·.start.attemptId)).Nodup
  chain : attempts.IsChain NodeAttempt.Precedes
  bounded : attempts.length ≤ maxAttemptsPerNode

/-- The entry of a node after its results and attempts. -/
def RecoveryEntry.after (activation : NodeActivation) (results : List (PendingNodeResult E))
    (attempts : List (NodeAttempt E)) : RecoveryEntry E where
  activation := activation
  result := results.getLast?.map PendingNodeResult.head
  attempts := ⟨attempts.getLast?, (attempts.map (·.start.attemptId)).reverse⟩
  attemptCount := attempts.length

theorem AttemptHistory.nil (activation : NodeActivation) :
    AttemptHistory activation ([] : List (NodeAttempt E)) :=
  ⟨by simp, by simp, .nil, Nat.zero_le _⟩

variable {activation : NodeActivation} {attempts : List (NodeAttempt E)} {entry : RecoveryEntry E}
  {results : List (PendingNodeResult E)} {nodeId : NodeId}

/-- One more attempt extends a history exactly when it has the activation, a fresh identity,
room, and may come after the last attempt. -/
theorem attemptHistory_append
    {attempt : NodeAttempt E} :
    AttemptHistory activation (attempts ++ [attempt]) ↔
      AttemptHistory activation attempts ∧ attempt.start.activation = activation ∧
      attempts.length < maxAttemptsPerNode ∧
      attempt.start.attemptId ∉ attempts.map (·.start.attemptId) ∧
      ∀ last, attempts.getLast? = some last → last.Precedes attempt := by
  constructor
  · rintro ⟨hactivation, hids, hchain, hbounded⟩
    rw [nodup_map_append_singleton] at hids
    rw [List.isChain_append] at hchain
    rw [List.length_append, List.length_singleton] at hbounded
    refine ⟨⟨fun a ha => hactivation a (List.mem_append_left _ ha), hids.1, hchain.1, by omega⟩,
      hactivation attempt (List.mem_append_right _ (List.mem_singleton_self _)), hbounded, hids.2,
      fun last hlast => hchain.2.2 last hlast attempt (by simp)⟩
  · rintro ⟨⟨hactivation, hids, hchain, _⟩, hattempt, hroom, hfresh, hprecedes⟩
    refine ⟨fun a ha => ?_, nodup_map_append_singleton.mpr ⟨hids, hfresh⟩, ?_, ?_⟩
    · rcases List.mem_append.mp ha with ha | ha
      · exact hactivation a ha
      · rw [List.mem_singleton.mp ha]
        exact hattempt
    · refine List.isChain_append.mpr ⟨hchain, .singleton _, fun last hlast next hnext => ?_⟩
      simp only [List.head?_cons, Option.mem_def, Option.some.injEq] at hnext
      exact hnext ▸ hprecedes last hlast
    · rw [List.length_append, List.length_singleton]
      exact hroom

theorem RecoveryEntry.observeAttempt_eq_ok
    {attempt : NodeAttempt E}
    (h : AttemptHistory activation attempts) :
    (RecoveryEntry.after activation results attempts).observeAttempt attempt = .ok entry ↔
      AttemptHistory activation (attempts ++ [attempt]) ∧
      entry = .after activation results (attempts ++ [attempt]) := by
  rw [attemptHistory_append]
  simp only [observeAttempt, bind_eq_ok, reject_eq_ok, mapError_eq_ok, exists_const, not_not,
    ge_iff_le, not_le, NodeAttemptHistoryVerifier.verifyNext_eq_ok, pure_eq_ok]
  simp only [after, List.mem_reverse, List.length_append, List.length_singleton,
    List.map_append, List.map_singleton, List.reverse_append, List.reverse_singleton,
    List.singleton_append, List.getLast?_concat]
  constructor
  · rintro ⟨hactivation, hroom, history, ⟨hfresh, hprecedes, rfl⟩, rfl⟩
    exact ⟨⟨h, hactivation, hroom, hfresh, hprecedes⟩, rfl⟩
  · rintro ⟨⟨_, hactivation, hroom, hfresh, hprecedes⟩, rfl⟩
    exact ⟨hactivation, hroom, _, ⟨hfresh, hprecedes, rfl⟩, rfl⟩

theorem RecoveryEntry.observeResult_eq_ok
    {result : PendingNodeResult E} :
    (RecoveryEntry.after activation results attempts).observeResult result = .ok entry ↔
      result.intent.activation = activation ∧ results = [] ∧
      entry = .after activation (results ++ [result]) attempts := by
  simp only [observeResult, bind_eq_ok, reject_eq_ok, exists_const, not_not, Bool.not_eq_true,
    pure_eq_ok]
  simp only [after, Option.isSome_map, Option.isSome_eq_false_iff, Option.isNone_iff_eq_none,
    List.getLast?_eq_none_iff, List.getLast?_concat, Option.map_some, eq_comm (b := entry)]

/-- An entry accepts the observations of its node exactly when they all have its activation,
name at most one result, and hold a history of attempts; their interleaving is irrelevant. -/
theorem RecoveryEntry.foldlM_observe_eq_ok
    {observations : List (RecoveryObservation E)} :
    observations.foldlM RecoveryEntry.observe (.initial activation) = .ok entry ↔
      (∀ observation ∈ observations, observation.activation = activation) ∧
      (resultsIn observations).length ≤ 1 ∧
      AttemptHistory activation (attemptsIn observations) ∧
      entry = .after activation (resultsIn observations) (attemptsIn observations) := by
  induction observations using List.reverseRecOn generalizing entry with
  | nil =>
    simp only [List.foldlM_nil, pure_eq_ok, List.not_mem_nil,
      false_implies, implies_true, true_and, eq_comm (b := entry)]
    exact ⟨fun h => ⟨Nat.zero_le 1, .nil activation, h⟩, fun h => h.2.2⟩
  | append_singleton observations observation ih =>
    rw [List.foldlM_append, bind_eq_ok]
    simp only [ih, List.foldlM_cons, List.foldlM_nil, bind_pure, List.forall_mem_append,
      List.forall_mem_singleton]
    cases observation with
    | result result =>
      rw [attemptsIn_concat_result, resultsIn_concat_result]
      constructor
      · rintro ⟨_, ⟨hactivations, _, hhistory, rfl⟩, hobserve⟩
        obtain ⟨hactivation, hfirst, rfl⟩ := observeResult_eq_ok.mp hobserve
        exact ⟨⟨hactivations, hactivation⟩, by simp [hfirst], hhistory, rfl⟩
      · rintro ⟨⟨hactivations, hactivation⟩, hresults, hhistory, rfl⟩
        have hfirst : resultsIn observations = [] := by
          rw [List.length_append, List.length_singleton] at hresults
          exact List.length_eq_zero_iff.mp (by omega)
        exact ⟨_, ⟨hactivations, by simp [hfirst], hhistory, rfl⟩,
          observeResult_eq_ok.mpr ⟨hactivation, hfirst, rfl⟩⟩
    | attempt attempt =>
      rw [attemptsIn_concat_attempt, resultsIn_concat_attempt]
      constructor
      · rintro ⟨_, ⟨hactivations, hresults, hhistory, rfl⟩, hobserve⟩
        obtain ⟨hextended, rfl⟩ := (observeAttempt_eq_ok hhistory).mp hobserve
        exact ⟨⟨hactivations, (attemptHistory_append.mp hextended).2.1⟩, hresults, hextended, rfl⟩
      · rintro ⟨⟨hactivations, _⟩, hresults, hextended, rfl⟩
        have hhistory := (attemptHistory_append.mp hextended).1
        exact ⟨_, ⟨hactivations, hresults, hhistory, rfl⟩,
          (observeAttempt_eq_ok hhistory).mpr ⟨hextended, rfl⟩⟩

/-! ## Verdicts -/

theorem validateCurrentFence_eq_ok {historical current : RunFence} {u : Unit} :
    validateCurrentFence nodeId historical current = .ok u ↔ current.Follows historical := by
  simp only [validateCurrentFence, bind_eq_ok, reject_eq_ok, exists_const, RunFence.follows_iff,
    gt_iff_lt, eq_comm (a := historical.epoch), eq_comm (a := historical.attemptId), ne_eq]

theorem RunFence.Follows.epoch_lt {current historical : RunFence} (h : current.Follows historical)
    (htenant : historical.tenantId = current.tenantId) (hrun : historical.runId = current.runId)
    (hne : historical ≠ current) : historical.epoch < current.epoch := by
  refine lt_of_le_of_ne h.epoch_le (fun hepoch => hne ?_)
  have hworker := h.worker_eq_iff.mpr hepoch
  cases historical
  cases current
  simp_all

theorem retryNotBefore_eq_some {failedAt notBefore : Timestamp} {delay : DurationMillis}
    (h : retryNotBefore failedAt delay = some notBefore) :
    notBefore.micros = retryEligibleMicros failedAt delay :=
  Timestamp.fromUnixMicros?_eq_some.mp h

namespace NodeAttempt

variable {last : NodeAttempt E} {fence : RunFence} {instant : Timestamp}

theorem permits_of_executing (hcompletion : last.completion = none) :
    last.Permits fence instant ↔ last.start.fence.epoch < fence.epoch := by
  rw [Permits, hcompletion]

theorem not_permits_of_result {result : PendingNodeResultHead}
    (h : last.result = some result) :
    ¬ last.Permits fence instant := by
  rw [NodeAttempt.result, Option.bind_eq_some_iff] at h
  obtain ⟨completion, hcompletion, hresult⟩ := h
  cases houtcome : completion.outcome with
  | succeeded result => simp only [Permits, hcompletion, houtcome, not_false_eq_true]
  | failed failure =>
    rw [houtcome] at hresult
    cases hresult

theorem permits_of_failed {completion : NodeAttemptCompletion E}
    {failure : Failure} (hcompletion : last.completion = some completion)
    (houtcome : completion.outcome = .failed failure) :
    last.Permits fence instant ↔ ∃ delay, failure.retryAdvice = .safeAfter delay ∧
      retryEligibleMicros completion.journalHead.recordedAt delay ≤ instant.micros := by
  simp only [Permits, hcompletion, houtcome]
  cases failure.retryAdvice <;> simp

end NodeAttempt

/-- What a verdict says about later attempts under the planner's fence: whether the end of the
last attempt permits one, and from when on. -/
def RecoveryEntry.Justifies (entry : RecoveryEntry E) (fence : RunFence) (observedAt : Timestamp) :
    RecoveryNode E → Prop
  | .completed _ result => entry.result = some result ∧
      ∀ last, entry.attempts.last = some last → ∀ instant, ¬ last.Permits fence instant
  | .dispatchable _ _ => entry.result = none ∧
      ∀ last, entry.attempts.last = some last → entry.attemptCount < maxAttemptsPerNode ∧
        fence.Follows last.start.fence ∧ ∀ instant, observedAt ≤ instant → last.Permits fence instant
  | .deferred _ notBefore => ∃ last, entry.attempts.last = some last ∧
      fence.Follows last.start.fence ∧ ∀ instant, last.Permits fence instant ↔ notBefore ≤ instant
  | .inFlight _ _ => ∃ last, entry.attempts.last = some last ∧
      ∀ instant, ¬ last.Permits fence instant
  | .failed _ _ => ∃ last, entry.attempts.last = some last ∧
      ∀ instant, ¬ last.Permits fence instant
  | .exhausted _ _ _ => entry.result = none ∧ maxAttemptsPerNode ≤ entry.attemptCount

/-- A failure is classified by its advice, and the plan's bounded instant is the instant of the
history check. -/
theorem justifies_of_classifyFailure
    {fence : RunFence} {observedAt : Timestamp} {last : NodeAttempt E}
    {completion : NodeAttemptCompletion E} {failure : Failure} {node : RecoveryNode E}
    (hresult : entry.result = none) (hlast : entry.attempts.last = some last)
    (hfollows : fence.Follows last.start.fence) (hcompletion : last.completion = some completion)
    (houtcome : completion.outcome = .failed failure)
    (h : classifyFailure nodeId entry.activation last entry.attemptCount observedAt completion
      failure = .ok node) :
    node.activation = entry.activation ∧ entry.Justifies fence observedAt node := by
  have hpermits : ∀ instant, last.Permits fence instant ↔ ∃ delay,
      failure.retryAdvice = .safeAfter delay ∧
        retryEligibleMicros completion.journalHead.recordedAt delay ≤ instant.micros :=
    fun instant => NodeAttempt.permits_of_failed hcompletion houtcome
  unfold classifyFailure at h
  cases hadvice : failure.retryAdvice with
  | never =>
    simp only [hadvice] at h
    cases h
    refine ⟨rfl, last, hlast, fun instant hpermitted => ?_⟩
    obtain ⟨delay, hdelay, _⟩ := (hpermits instant).mp hpermitted
    rw [hadvice] at hdelay
    cases hdelay
  | reconcileFirst =>
    simp only [hadvice] at h
    cases h
  | safeAfter delay =>
    simp only [hadvice] at h
    have hdelay : ∀ instant, last.Permits fence instant ↔
        retryEligibleMicros completion.journalHead.recordedAt delay ≤ instant.micros := by
      intro instant
      rw [hpermits instant, hadvice]
      simp
    split at h
    · rename_i hcount
      cases h
      exact ⟨rfl, hresult, hcount⟩
    · rename_i hcount
      simp only [bind_eq_ok, okOr_eq_ok] at h
      obtain ⟨notBefore, hnotBefore, hnode⟩ := h
      have hmicros := retryNotBefore_eq_some hnotBefore
      have heligible : ∀ instant, last.Permits fence instant ↔ notBefore ≤ instant := by
        intro instant
        rw [hdelay instant, ← hmicros, Timestamp.le_iff]
      split at hnode
      · rename_i hdue
        cases hnode
        refine ⟨rfl, hresult, fun last' hlast' => ?_⟩
        cases hlast.symm.trans hlast'
        exact ⟨not_le.mp hcount, hfollows,
          fun instant hinstant => (heligible instant).mpr (le_trans hdue hinstant)⟩
      · cases hnode
        exact ⟨rfl, last, hlast, hfollows, heligible⟩

/-- Every verdict is justified by how the last attempt ended. -/
theorem justifies_of_classifyEntry {fence : RunFence}
    {observedAt : Timestamp} {node : RecoveryNode E}
    (hscope : ∀ last, entry.attempts.last = some last →
      last.start.fence.tenantId = fence.tenantId ∧ last.start.fence.runId = fence.runId)
    (h : classifyEntry nodeId entry fence observedAt = .ok node) :
    node.activation = entry.activation ∧ entry.Justifies fence observedAt node := by
  unfold classifyEntry at h
  cases hresult : entry.result with
  | some result =>
    simp only [hresult, bind_eq_ok, reject_eq_ok, not_exists, not_and, not_not] at h
    obtain ⟨_, _, _, hmatches, hnode⟩ := h
    cases hnode
    refine ⟨rfl, hresult, fun last hlast instant => ?_⟩
    exact NodeAttempt.not_permits_of_result (hmatches last hlast)
  | none =>
    cases hlast : entry.attempts.last with
    | none =>
      simp only [hresult, hlast] at h
      cases h
      refine ⟨rfl, hresult, fun last hlast' => ?_⟩
      cases hlast.symm.trans hlast'
    | some last =>
      simp only [hresult, hlast, bind_eq_ok, validateCurrentFence_eq_ok] at h
      obtain ⟨_, hfollows, hnode⟩ := h
      cases hcompletion : last.completion with
      | some completion =>
        simp only [hcompletion] at hnode
        cases houtcome : completion.outcome with
        | succeeded result =>
          simp only [houtcome] at hnode
          cases hnode
        | failed failure =>
          simp only [houtcome] at hnode
          exact justifies_of_classifyFailure hresult hlast hfollows hcompletion houtcome hnode
      | none =>
        simp only [hcompletion] at hnode
        split at hnode
        · rename_i hfence
          cases hnode
          refine ⟨rfl, last, hlast, fun instant => ?_⟩
          rw [NodeAttempt.permits_of_executing hcompletion, hfence]
          exact lt_irrefl _
        · rename_i hfence
          split at hnode
          · rename_i hcount
            cases hnode
            exact ⟨rfl, hresult, hcount⟩
          · rename_i hcount
            cases hnode
            refine ⟨rfl, hresult, fun last' hlast' => ?_⟩
            cases hlast.symm.trans hlast'
            obtain ⟨htenant, hrun⟩ := hscope last hlast
            refine ⟨not_le.mp hcount, hfollows, fun instant _ => ?_⟩
            exact (NodeAttempt.permits_of_executing hcompletion).mpr
              (hfollows.epoch_lt htenant hrun hfence)

/-! ## Planners -/

namespace ReadyNodeRecoveryPlanner

variable {checkpoint : Checkpoint E} {fence : RunFence} {planner : ReadyNodeRecoveryPlanner E}
  {observations : List (RecoveryObservation E)}

theorem new_eq_ok :
    new checkpoint fence = .ok planner ↔
      fence.tenantId = checkpoint.tenantId ∧ fence.runId = checkpoint.runId ∧
      ∃ entries, List.Forall₂ (fun nodeId entry => ∃ activation,
        NodeActivation.forReadyRoot checkpoint nodeId = .ok activation ∧
          (nodeId, RecoveryEntry.initial activation) = entry) checkpoint.readyNodes.nodes entries ∧
      planner = ⟨checkpoint, fence, entries⟩ := by
  simp only [new, bind_eq_ok, reject_eq_ok, exists_const, not_not, mapM_eq_ok, mapError_eq_ok,
    pure_eq_ok, ne_eq, eq_comm (b := planner)]

variable {planner' : ReadyNodeRecoveryPlanner E}

theorem observeAll_eq_ok : planner.observeAll observations = .ok planner' ↔
      ∃ entries, observations.foldlM (routeStep RecoveryObservation.nodeId
        RecoveryObservation.unexpected RecoveryEntry.observe) planner.entries = .ok entries ∧
        planner' = { planner with entries } := by
  unfold observeAll
  induction observations generalizing planner with
  | nil =>
    simp only [List.foldlM_nil, pure_eq_ok, exists_eq_left',
      eq_comm (a := planner)]
  | cons observation rest ih =>
    simp only [List.foldlM_cons, bind_eq_ok, observe, pure_eq_ok, ih]
    constructor
    · rintro ⟨_, ⟨middle, hmiddle, rfl⟩, entries, hentries, rfl⟩
      exact ⟨entries, ⟨middle, hmiddle, hentries⟩, rfl⟩
    · rintro ⟨entries, ⟨middle, hmiddle, hentries⟩, rfl⟩
      exact ⟨_, ⟨middle, hmiddle, rfl⟩, entries, hentries, rfl⟩

/-- The entries of a planner hold the histories of the ready nodes among the observations. -/
structure Holds (planner : ReadyNodeRecoveryPlanner E) (checkpoint : Checkpoint E)
    (fence : RunFence) (observations : List (RecoveryObservation E)) : Prop where
  checkpoint_eq : planner.checkpoint = checkpoint
  fence_eq : planner.fence = fence
  tenant_eq : fence.tenantId = checkpoint.tenantId
  run_eq : fence.runId = checkpoint.runId
  keys_eq : planner.entries.map Prod.fst = checkpoint.readyNodes.nodes
  expected : ∀ observation ∈ observations, observation.nodeId ∈ planner.entries.map Prod.fst
  entry_eq : ∀ entry ∈ planner.entries, ∃ activation,
    NodeActivation.forReadyRoot checkpoint entry.1 = .ok activation ∧
    (resultsIn (observationsOf entry.1 observations)).length ≤ 1 ∧
    AttemptHistory activation (attemptsIn (observationsOf entry.1 observations)) ∧
    entry.2 = .after activation (resultsIn (observationsOf entry.1 observations))
      (attemptsIn (observationsOf entry.1 observations))

theorem keys_of_new {nodes : List NodeId}
    {entries : List (NodeId × RecoveryEntry E)}
    (h : List.Forall₂ (fun nodeId entry => ∃ activation,
      NodeActivation.forReadyRoot checkpoint nodeId = .ok activation ∧
        (nodeId, RecoveryEntry.initial activation) = entry) nodes entries) :
    entries.map Prod.fst = nodes := by
  rw [← map_eq_map_of_forall₂ (f := id) h (fun nodeId _ entry hentry => ?_), List.map_id]
  obtain ⟨_, _, rfl⟩ := hentry
  rfl

theorem keys_nodup_of_new (hnew : new checkpoint fence = .ok planner) :
    (planner.entries.map Prod.fst).Nodup := by
  obtain ⟨_, _, entries, hentries, rfl⟩ := new_eq_ok.mp hnew
  show (entries.map Prod.fst).Nodup
  rw [keys_of_new hentries]
  exact checkpoint.readyNodes.sorted.nodup

theorem initial_of_new (hnew : new checkpoint fence = .ok planner)
    (hentry : planner.entries.lookup nodeId = some entry) :
    ∃ activation, NodeActivation.forReadyRoot checkpoint nodeId = .ok activation ∧
      entry = .initial activation := by
  have hmem := (lookup_eq_some_iff_mem (keys_nodup_of_new hnew)).mp hentry
  obtain ⟨_, _, entries, hentries, rfl⟩ := new_eq_ok.mp hnew
  obtain ⟨_, _, activation, hactivation, heq⟩ := exists_of_forall₂_right hentries hmem
  cases heq
  exact ⟨activation, hactivation, rfl⟩

/-- Every entry comes from the observations of its own node. -/
theorem run_of_observeAll (hnew : new checkpoint fence = .ok planner)
    (hobserve : planner.observeAll observations = .ok planner')
    {entry : NodeId × RecoveryEntry E} (hentry : entry ∈ planner'.entries) :
    ∃ activation, NodeActivation.forReadyRoot checkpoint entry.1 = .ok activation ∧
      (observationsOf entry.1 observations).foldlM RecoveryEntry.observe (.initial activation) =
        .ok entry.2 := by
  have hnodup := keys_nodup_of_new hnew
  obtain ⟨entries', hrouted, rfl⟩ := observeAll_eq_ok.mp hobserve
  obtain ⟨hkeys, hruns⟩ := foldlM_of_routeStep hrouted
  have hkey : entry.1 ∈ planner.entries.map Prod.fst := by
    rw [← hkeys]
    exact List.mem_map_of_mem hentry
  obtain ⟨start, hstart, hfst⟩ := List.mem_map.mp hkey
  have hlookup : planner.entries.lookup entry.1 = some start.2 :=
    (lookup_eq_some_iff_mem hnodup).mpr (hfst ▸ hstart)
  obtain ⟨activation, hactivation, hinitial⟩ := initial_of_new hnew hlookup
  obtain ⟨final, hfold, hfinal⟩ := hruns entry.1 _ hlookup
  have hentry_eq : final = entry.2 := by
    have hlast : entries'.lookup entry.1 = some entry.2 :=
      (lookup_eq_some_iff_mem (hkeys ▸ hnodup)).mpr hentry
    exact Option.some.inj (hfinal.symm.trans hlast)
  refine ⟨activation, hactivation, ?_⟩
  rw [← hinitial, ← hentry_eq]
  exact hfold

theorem holds_of_observeAll (hnew : new checkpoint fence = .ok planner)
    (hobserve : planner.observeAll observations = .ok planner') :
    planner'.Holds checkpoint fence observations := by
  have hnodup := keys_nodup_of_new hnew
  have hruns := fun entry => @run_of_observeAll _ _ _ _ _ _ hnew hobserve entry
  obtain ⟨htenant, hrun, entries, hentries, rfl⟩ := new_eq_ok.mp hnew
  obtain ⟨entries', hrouted, rfl⟩ := observeAll_eq_ok.mp hobserve
  have hkeys : entries'.map Prod.fst = entries.map Prod.fst := (foldlM_of_routeStep hrouted).1
  refine ⟨rfl, rfl, htenant, hrun, hkeys.trans (keys_of_new hentries),
    fun observation hobservation => ?_, fun entry hentry => ?_⟩
  · obtain ⟨state, hstate⟩ := mem_keys_of_routeStep hrouted hobservation
    show observation.nodeId ∈ entries'.map Prod.fst
    rw [hkeys]
    exact List.mem_map_of_mem ((lookup_eq_some_iff_mem hnodup).mp hstate)
  · obtain ⟨activation, hactivation, hfold⟩ := hruns entry hentry
    obtain ⟨_, hresults, hhistory, hafter⟩ := RecoveryEntry.foldlM_observe_eq_ok.mp hfold
    exact ⟨activation, hactivation, hresults, hhistory, hafter⟩

theorem validateObservation_eq_ok {journalHead : JournalHead}
    {observedAt : Timestamp} {u : Unit} :
    planner.validateObservation journalHead observedAt = .ok u ↔
      journalHead.tenantId = planner.checkpoint.tenantId ∧
      journalHead.runId = planner.checkpoint.runId ∧
      planner.checkpoint.journalHead.sequence ≤ journalHead.sequence ∧
      planner.checkpoint.journalHead.recordedAt ≤ journalHead.recordedAt ∧
      journalHead.recordedAt ≤ observedAt ∧
      ∀ entry ∈ planner.entries, ∀ evidence ∈ entry.2.evidence,
        evidence.sequence ≤ journalHead.sequence ∧
        evidence.recordedAt ≤ journalHead.recordedAt := by
  simp only [validateObservation, bind_eq_ok, reject_eq_ok, exists_const, forM_eq_ok, not_not,
    not_or, not_lt, not_exists, not_and, gt_iff_lt, ne_eq, and_assoc]

theorem finish_eq_ok {journalHead : JournalHead}
    {observedAt : Timestamp} {plan : ReadyNodeRecoveryPlan E} :
    planner.finish journalHead observedAt = .ok plan ↔
      planner.validateObservation journalHead observedAt = .ok () ∧
      ∃ nodes, List.Forall₂ (fun entry node =>
        classifyEntry entry.1 entry.2 planner.fence observedAt = .ok node) planner.entries nodes ∧
      plan = ⟨planner.checkpoint, planner.fence, journalHead, observedAt, nodes⟩ := by
  simp only [finish, bind_eq_ok, mapM_eq_ok, pure_eq_ok,
    eq_comm (b := plan)]
  constructor
  · rintro ⟨_, hvalid, hnodes⟩
    exact ⟨hvalid, hnodes⟩
  · rintro ⟨hvalid, hnodes⟩
    exact ⟨(), hvalid, hnodes⟩

end ReadyNodeRecoveryPlanner

/-- A history takes an attempt. -/
def NodeAttemptHistoryVerifier.Accepts (history : NodeAttemptHistoryVerifier E)
    (attempt : NodeAttempt E) : Prop :=
  ∃ next, history.verifyNext attempt = .ok next

/-- An attempt that may be recorded after a plan: for the activation, with a fresh identity,
under the plan's fence, after its journal head and not before its instant. -/
structure ReadyNodeRecoveryPlan.Offers (plan : ReadyNodeRecoveryPlan E)
    (activation : NodeActivation) (history : List (NodeAttempt E)) (attempt : NodeAttempt E) :
    Prop where
  activation_eq : attempt.start.activation = activation
  fresh : attempt.start.attemptId ∉ history.map (·.start.attemptId)
  fence_eq : attempt.start.fence = plan.fence
  sequence_lt : plan.journalHead.sequence < attempt.start.journalHead.sequence
  observedAt_le : plan.observedAt ≤ attempt.start.journalHead.recordedAt

theorem permits_of_accepts {attempt last : NodeAttempt E}
    (hlast : attempts.getLast? = some last)
    (h : (RecoveryEntry.after activation results attempts).attempts.Accepts attempt) :
    last.Permits attempt.start.fence attempt.start.journalHead.recordedAt := by
  obtain ⟨_, hverify⟩ := h
  exact ((NodeAttemptHistoryVerifier.verifyNext_eq_ok.mp hverify).2.1 last hlast).permitted

/-- An attempt that comes after all evidence and under a following fence is taken exactly when
the last attempt permits it. -/
theorem accepts_iff_permits {attempt last : NodeAttempt E}
    (hhistory : AttemptHistory activation attempts)
    (hlast : attempts.getLast? = some last)
    (hactivation : attempt.start.activation = activation)
    (hfresh : attempt.start.attemptId ∉ attempts.map (·.start.attemptId))
    (hsequence : last.anchor.sequence < attempt.start.journalHead.sequence)
    (hrecordedAt : last.anchor.recordedAt ≤ attempt.start.journalHead.recordedAt)
    (hfollows : attempt.start.fence.Follows last.start.fence) :
    (RecoveryEntry.after activation results attempts).attempts.Accepts attempt ↔
      last.Permits attempt.start.fence attempt.start.journalHead.recordedAt := by
  refine ⟨permits_of_accepts hlast, fun hpermits => ?_⟩
  have hsame := hhistory.activation_eq last (List.mem_of_getLast? hlast)
  refine ⟨_, NodeAttemptHistoryVerifier.verifyNext_eq_ok.mpr
    ⟨by simpa [RecoveryEntry.after] using hfresh, fun previous hprevious => ?_, rfl⟩⟩
  cases hlast.symm.trans hprevious
  exact ⟨hactivation.trans hsame.symm, hsequence, hrecordedAt, hfollows, hpermits⟩

/-- The evidence and the verdict behind one node of a plan. -/
structure ReadyNodeRecoveryPlan.Explains (plan : ReadyNodeRecoveryPlan E)
    (results : List (PendingNodeResult E)) (attempts : List (NodeAttempt E))
    (node : RecoveryNode E) : Prop where
  history : AttemptHistory node.activation attempts
  justified : (RecoveryEntry.after node.activation results attempts).Justifies plan.fence
    plan.observedAt node
  anchor_le : ∀ last, attempts.getLast? = some last →
    last.anchor.sequence ≤ plan.journalHead.sequence ∧
    last.anchor.recordedAt ≤ plan.journalHead.recordedAt
  recordedAt_le : plan.journalHead.recordedAt ≤ plan.observedAt

namespace ReadyNodeRecoveryPlan.Explains

variable {plan : ReadyNodeRecoveryPlan E} {results : List (PendingNodeResult E)}
  {attempts : List (NodeAttempt E)} {node : RecoveryNode E} {attempt last : NodeAttempt E}

/-- An offered attempt is taken exactly when the last one permits it. -/
theorem accepts_iff (h : plan.Explains results attempts node)
    (hoffer : plan.Offers node.activation attempts attempt) (hlast : attempts.getLast? = some last)
    (hfollows : plan.fence.Follows last.start.fence) :
    (RecoveryEntry.after node.activation results attempts).attempts.Accepts attempt ↔
      last.Permits plan.fence attempt.start.journalHead.recordedAt := by
  obtain ⟨hsequence, hclock⟩ := h.anchor_le last hlast
  rw [accepts_iff_permits h.history hlast hoffer.activation_eq hoffer.fresh
    (lt_of_le_of_lt hsequence hoffer.sequence_lt)
    (hclock.trans (h.recordedAt_le.trans hoffer.observedAt_le)) (hoffer.fence_eq ▸ hfollows),
    hoffer.fence_eq]

/-- Nothing is taken after a last attempt that never permits it. -/
theorem not_accepts (hlast : attempts.getLast? = some last)
    (hoffer : plan.Offers node.activation attempts attempt)
    (hpermits : ∀ instant, ¬ last.Permits plan.fence instant) :
    ¬ (RecoveryEntry.after node.activation results attempts).attempts.Accepts attempt := by
  intro haccepts
  have hpermitted := permits_of_accepts hlast haccepts
  rw [hoffer.fence_eq] at hpermitted
  exact hpermits _ hpermitted

/-- What the verdict on a node says about every attempt that may be recorded next. -/
theorem agrees (h : plan.Explains results attempts node)
    (hoffer : plan.Offers node.activation attempts attempt) :
    (node.kind = .dispatchable →
      (RecoveryEntry.after node.activation results attempts).attempts.Accepts attempt) ∧
    (node.kind = .inFlight ∨ node.kind = .failed ∨ node.kind = .completed ∧ attempts ≠ [] →
      ¬ (RecoveryEntry.after node.activation results attempts).attempts.Accepts attempt) ∧
    (∀ notBefore, node.notBefore = some notBefore →
      ((RecoveryEntry.after node.activation results attempts).attempts.Accepts attempt ↔
        notBefore ≤ attempt.start.journalHead.recordedAt)) := by
  have hjustified := h.justified
  cases node with
  | completed activation result =>
    refine ⟨nofun, fun hkind => ?_, fun _ hnone => nomatch hnone⟩
    have hne : attempts ≠ [] := by simpa [RecoveryNode.kind] using hkind
    have hlast : attempts.getLast? = some (attempts.getLast hne) := List.getLast?_eq_some_getLast hne
    exact not_accepts hlast hoffer (hjustified.2 _ hlast)
  | dispatchable activation reason =>
    refine ⟨fun _ => ?_, by simp [RecoveryNode.kind], fun _ hnone => nomatch hnone⟩
    cases hlast : attempts.getLast? with
    | none =>
      -- a node without attempts takes any first one
      obtain rfl := List.getLast?_eq_none_iff.mp hlast
      refine ⟨_, NodeAttemptHistoryVerifier.verifyNext_eq_ok.mpr ⟨?_, fun _ hnone => (nomatch hnone), rfl⟩⟩
      simp [RecoveryEntry.after]
    | some last =>
      obtain ⟨_, hfollows, hpermits⟩ := hjustified.2 last hlast
      exact (h.accepts_iff hoffer hlast hfollows).mpr (hpermits _ hoffer.observedAt_le)
  | deferred activation notBefore =>
    refine ⟨nofun, by simp [RecoveryNode.kind], fun notBefore' hnotBefore => ?_⟩
    obtain ⟨last, hlast, hfollows, hpermits⟩ := hjustified
    cases hnotBefore
    exact (h.accepts_iff hoffer hlast hfollows).trans (hpermits _)
  | inFlight activation attempt =>
    obtain ⟨last, hlast, hpermits⟩ := hjustified
    exact ⟨nofun, fun _ => not_accepts hlast hoffer hpermits, fun _ hnone => nomatch hnone⟩
  | failed activation failure =>
    obtain ⟨last, hlast, hpermits⟩ := hjustified
    exact ⟨nofun, fun _ => not_accepts hlast hoffer hpermits, fun _ hnone => nomatch hnone⟩
  | exhausted activation attempt failure => exact ⟨nofun, by simp [RecoveryNode.kind], fun _ hnone => nomatch hnone⟩

end ReadyNodeRecoveryPlan.Explains

namespace ReadyNodeRecoveryPlanner

theorem fence_scope_of_start (start : NodeAttemptStart E) :
    start.fence.tenantId = start.activation.tenantId ∧
      start.fence.runId = start.activation.runId := by
  have hscope := start.scope_ok
  simp only [validateStartScope, validateScope, bind_eq_ok, reject_eq_ok, exists_const, ne_eq,
    not_not] at hscope
  exact ⟨hscope.2.1.1, hscope.2.1.2.1⟩

theorem explains_of_finish {planner : ReadyNodeRecoveryPlanner E} {checkpoint : Checkpoint E}
    {fence : RunFence} {observations : List (RecoveryObservation E)} {journalHead : JournalHead}
    {observedAt : Timestamp} {plan : ReadyNodeRecoveryPlan E}
    (hholds : planner.Holds checkpoint fence observations)
    (hfinish : planner.finish journalHead observedAt = .ok plan)
    {entry : NodeId × RecoveryEntry E} (hentry : entry ∈ planner.entries) {node : RecoveryNode E}
    (hclassify : classifyEntry entry.1 entry.2 planner.fence observedAt = .ok node) :
    node.activation.nodeId = entry.1 ∧
      entry.2 = .after node.activation (resultsIn (observationsOf entry.1 observations))
        (attemptsIn (observationsOf entry.1 observations)) ∧
      plan.Explains (resultsIn (observationsOf entry.1 observations))
        (attemptsIn (observationsOf entry.1 observations)) node := by
  obtain ⟨hvalid, nodes, _, rfl⟩ := finish_eq_ok.mp hfinish
  obtain ⟨_, _, _, _, hobserved, hevidence⟩ := validateObservation_eq_ok.mp hvalid
  obtain ⟨activation, hactivation, _, hhistory, hafter⟩ := hholds.entry_eq entry hentry
  obtain ⟨_, hbase, _, hnode⟩ := NodeActivation.forReadyRoot_eq_ok hactivation
  have hlast : entry.2.attempts.last =
      (attemptsIn (observationsOf entry.1 observations)).getLast? := by
    rw [hafter]
    rfl
  have hscope : ∀ last, entry.2.attempts.last = some last →
      last.start.fence.tenantId = planner.fence.tenantId ∧
        last.start.fence.runId = planner.fence.runId := by
    intro last hsome
    have hsame := hhistory.activation_eq last (List.mem_of_getLast? (hlast.symm.trans hsome))
    obtain ⟨htenant, hrun⟩ := fence_scope_of_start last.start
    rw [htenant, hrun, hsame, hholds.fence_eq, hholds.tenant_eq, hholds.run_eq,
      NodeActivation.tenantId, NodeActivation.runId, hbase]
    exact ⟨rfl, rfl⟩
  obtain ⟨hsame, hjustified⟩ := justifies_of_classifyEntry hscope hclassify
  have heq : node.activation = activation := by
    rw [hsame, hafter]
    rfl
  refine ⟨heq ▸ hnode, heq ▸ hafter, ⟨heq ▸ hhistory, ?_, fun last hsome => ?_, hobserved⟩⟩
  · rw [heq, ← hafter]
    exact hjustified
  · refine hevidence entry hentry last.anchor ?_
    simp [RecoveryEntry.evidence, hlast, hsome]

end ReadyNodeRecoveryPlanner

/-- The classification of a recovery plan and the check of an attempt history decide the same
thing.  A finished plan has one node per ready node; for a fresh attempt of its activation under
the plan's fence, after the plan's head and not before its instant, a dispatchable node's
history accepts it, a history in flight, failed or completed by an attempt rejects it, and a
deferred node's history accepts it exactly from the plan's instant on.  A node is exhausted only
with all its attempts used and no result. -/
theorem recovery_plan_agrees_with_history {checkpoint : Checkpoint E} {fence : RunFence}
    {planner observed : ReadyNodeRecoveryPlanner E} {observations : List (RecoveryObservation E)}
    {journalHead : JournalHead} {observedAt : Timestamp} {plan : ReadyNodeRecoveryPlan E}
    (hnew : ReadyNodeRecoveryPlanner.new checkpoint fence = .ok planner)
    (hobserve : planner.observeAll observations = .ok observed)
    (hfinish : observed.finish journalHead observedAt = .ok plan) :
    plan.fence = fence ∧ plan.journalHead = journalHead ∧ plan.observedAt = observedAt ∧
    plan.nodes.map (·.activation.nodeId) = checkpoint.readyNodes.nodes ∧
    ∀ node ∈ plan.nodes, ∃ entry,
      observed.entries.lookup node.activation.nodeId = some entry ∧
      entry.activation = node.activation ∧
      entry.attemptCount =
        (attemptsIn (observationsOf node.activation.nodeId observations)).length ∧
      (∀ attempt, plan.Offers node.activation
          (attemptsIn (observationsOf node.activation.nodeId observations)) attempt →
        (node.kind = .dispatchable → entry.attempts.Accepts attempt) ∧
        (node.kind = .inFlight ∨ node.kind = .failed ∨
            node.kind = .completed ∧
              attemptsIn (observationsOf node.activation.nodeId observations) ≠ [] →
          ¬ entry.attempts.Accepts attempt) ∧
        (∀ notBefore, node.notBefore = some notBefore →
          (entry.attempts.Accepts attempt ↔
            notBefore ≤ attempt.start.journalHead.recordedAt))) ∧
      (node.kind = .exhausted →
        (attemptsIn (observationsOf node.activation.nodeId observations)).length = 64 ∧
        resultsIn (observationsOf node.activation.nodeId observations) = []) := by
  have hholds := ReadyNodeRecoveryPlanner.holds_of_observeAll hnew hobserve
  obtain ⟨_, nodes, hnodes, hplan⟩ := ReadyNodeRecoveryPlanner.finish_eq_ok.mp hfinish
  have hnodup : (observed.entries.map Prod.fst).Nodup :=
    hholds.keys_eq ▸ checkpoint.readyNodes.sorted.nodup
  have hids : observed.entries.map Prod.fst = nodes.map (·.activation.nodeId) := by
    refine map_eq_map_of_forall₂ hnodes (fun entry hentry node hclassify => ?_)
    exact (ReadyNodeRecoveryPlanner.explains_of_finish hholds hfinish hentry hclassify).1.symm
  subst hplan
  refine ⟨hholds.fence_eq, rfl, rfl, hids.symm.trans hholds.keys_eq, fun node hnode => ?_⟩
  obtain ⟨entry, hentry, hclassify⟩ := exists_of_forall₂_right hnodes hnode
  obtain ⟨hnodeId, hafter, hexplains⟩ :=
    ReadyNodeRecoveryPlanner.explains_of_finish hholds hfinish hentry hclassify
  rw [hnodeId]
  refine ⟨entry.2, (lookup_eq_some_iff_mem hnodup).mpr hentry, ?_, ?_, ?_, fun hexhausted => ?_⟩
  · rw [hafter]
    rfl
  · rw [hafter]
    rfl
  · rw [hafter]
    exact fun attempt hoffer => hexplains.agrees hoffer
  · have hjustified := hexplains.justified
    cases node with
    | exhausted activation attempt failure =>
      refine ⟨le_antisymm hexplains.history.bounded hjustified.2, ?_⟩
      simpa [RecoveryEntry.after] using hjustified.1
    | _ => cases hexhausted

namespace RecoverySample

def journalHead (sequence : JournalSequence) : JournalHead :=
  ⟨⟨"tenant"⟩, ⟨"run"⟩, sequence, ⟨"event"⟩, .ofMicros 0, ⟨[]⟩⟩

def worker (attemptId : AttemptId) (epoch : FencingEpoch) : RunFence :=
  ⟨⟨"tenant"⟩, ⟨"run"⟩, attemptId, epoch⟩

/-- A first checkpoint with the given ready nodes. -/
def checkpoint (nodes : List NodeId) : Option (Checkpoint .compact) := do
  let schema : SchemaReference := ⟨⟨"schema"⟩, ⟨"1.0.0"⟩, ⟨[]⟩⟩
  let graph : GraphReference :=
    ⟨⟨⟨"issuer"⟩, ⟨"subject"⟩, ⟨"workflow"⟩, ⟨"1.0.0"⟩⟩, ⟨[]⟩, schema⟩
  let state ← (CheckpointState.new schema ⟨.null, ⟨4, 0, 1⟩⟩).toOption
  let ready ← (ReadyNodes.tryNew nodes).toOption
  let write ← (CheckpointWrite.initial ⟨"tenant"⟩ ⟨"run"⟩ ⟨"c0"⟩ graph state ready).toOption
  (Checkpoint.commit write (journalHead (.ofNat 1))).toOption

/-- An attempt of the ready node that is still executing. -/
def attempt (checkpoint : Checkpoint .compact) (attemptId : AttemptId) (fence : RunFence)
    (head : JournalHead) : Option (NodeAttempt .compact) := do
  let activation ← (NodeActivation.forReadyRoot checkpoint ⟨"node"⟩).toOption
  let start ← (NodeAttemptStart.new activation attemptId fence head).toOption
  return .executing start

/-- A worker of the second epoch plans after an attempt of the first one. -/
def recovery : Option (Checkpoint .compact × ReadyNodeRecoveryPlanner .compact ×
    NodeAttempt .compact × ReadyNodeRecoveryPlanner .compact × ReadyNodeRecoveryPlan .compact ×
    NodeAttempt .compact) := do
  let checkpoint ← checkpoint [⟨"node"⟩]
  let fence := worker ⟨"second"⟩ (.ofNat 2)
  let planner ← (ReadyNodeRecoveryPlanner.new checkpoint fence).toOption
  let stale ← attempt checkpoint ⟨"attempt-1"⟩ (worker ⟨"first"⟩ .first) (journalHead (.ofNat 2))
  let observed ← (planner.observeAll [.attempt stale]).toOption
  let plan ← (observed.finish (journalHead (.ofNat 2)) (.ofMicros 0)).toOption
  let next ← attempt checkpoint ⟨"attempt-2"⟩ fence (journalHead (.ofNat 3))
  return (checkpoint, planner, stale, observed, plan, next)

end RecoverySample

/-- The attempt that a plan dispatches after a supersession is accepted by the history. -/
theorem recovery_plan_agrees_with_history_superseded :
    ∃ (plan : ReadyNodeRecoveryPlan .compact) (node : RecoveryNode .compact)
      (observed : ReadyNodeRecoveryPlanner .compact) (entry : RecoveryEntry .compact)
      (attempt : NodeAttempt .compact),
      node ∈ plan.nodes ∧ node.kind = .dispatchable ∧
      observed.entries.lookup node.activation.nodeId = some entry ∧
      entry.attemptCount = 1 ∧ entry.attempts.Accepts attempt := by
  have hsome : (RecoverySample.recovery.any (fun sample =>
      sample.2.2.2.2.1.nodes.any (fun node => node.kind = .dispatchable ∧
        (attemptsIn (observationsOf node.activation.nodeId [.attempt sample.2.2.1])).length = 1 ∧
        sample.2.2.2.2.2.start.activation = node.activation ∧
        sample.2.2.2.2.2.start.attemptId ∉
          (attemptsIn (observationsOf node.activation.nodeId [.attempt sample.2.2.1])).map
            (·.start.attemptId) ∧
        sample.2.2.2.2.2.start.fence = sample.2.2.2.2.1.fence ∧
        sample.2.2.2.2.1.journalHead.sequence < sample.2.2.2.2.2.start.journalHead.sequence ∧
        sample.2.2.2.2.1.observedAt ≤ sample.2.2.2.2.2.start.journalHead.recordedAt))) = true := by
    decide +kernel
  obtain ⟨⟨checkpoint, planner, stale, observed, plan, attempt⟩, hsample, hnode⟩ :=
    (Option.any_eq_true _ _).mp hsome
  simp only [List.any_eq_true, decide_eq_true_eq] at hnode
  obtain ⟨node, hmem, hkind, hcount, hactivation, hfresh, hfence, hsequence, hobserved⟩ := hnode
  simp only [RecoverySample.recovery, Option.bind_eq_bind, Option.bind_eq_some_iff,
    toOption_eq_some, pure, Option.some.injEq, Prod.mk.injEq] at hsample
  obtain ⟨checkpoint, _, planner, hnew, stale, _, observed, hobserve, plan, hfinish, attempt, _,
    rfl, rfl, rfl, rfl, rfl, rfl⟩ := hsample
  obtain ⟨_, _, _, _, hnodes⟩ := recovery_plan_agrees_with_history hnew hobserve hfinish
  obtain ⟨entry, hlookup, _, hentryCount, hagrees, _⟩ := hnodes node hmem
  exact ⟨plan, node, observed, entry, attempt, hmem, hkind, hlookup, hentryCount.trans hcount,
    (hagrees attempt ⟨hactivation, hfresh, hfence, hsequence, hobserved⟩).1 hkind⟩

end StateKnot
