import StateKnot.Recovery.Loop

/-!
# Recovery does not depend on the order of observations

A planner keeps one entry per ready node and an entry keeps its results apart from its
attempts.  So what matters of a stream of observations is, for every node, which
results it names and in which order its attempts come: two interleavings that agree on
this are both rejected, or both lead to the same planner and hence to the same plan.

When every node of a plan is completed, the plan's result heads are one per ready node,
over the planner's checkpoint, and the barrier takes them.
-/

namespace StateKnot

open Lib

variable {E : Encoding}

/-! ## Interleavings -/

/-- The same observations, with the attempts of every node in the same order. -/
structure SameEvidence (observations observations' : List (RecoveryObservation E)) : Prop where
  perm : observations.Perm observations'
  attempts : ∀ nodeId, attemptsIn (observationsOf nodeId observations) =
    attemptsIn (observationsOf nodeId observations')

namespace SameEvidence

variable {observations observations' : List (RecoveryObservation E)}

variable (h : SameEvidence observations observations')

include h

theorem symm :
    SameEvidence observations' observations :=
  ⟨h.perm.symm, fun nodeId => (h.attempts nodeId).symm⟩

theorem observationsOf_perm (nodeId : NodeId) :
    (observationsOf nodeId observations).Perm (observationsOf nodeId observations') :=
  h.perm.filter _

/-- At most one result of a node is the same one in both. -/
theorem results (nodeId : NodeId)
    (hone : (resultsIn (observationsOf nodeId observations)).length ≤ 1) :
    resultsIn (observationsOf nodeId observations) =
      resultsIn (observationsOf nodeId observations') := by
  have hperm : (resultsIn (observationsOf nodeId observations)).Perm
      (resultsIn (observationsOf nodeId observations')) :=
    (h.observationsOf_perm nodeId).filterMap _
  match hresults : resultsIn (observationsOf nodeId observations) with
  | [] =>
    rw [hresults] at hperm
    exact hperm.nil_eq
  | [result] =>
    rw [hresults] at hperm
    exact (List.perm_singleton.mp hperm.symm).symm
  | _ :: _ :: _ =>
    rw [hresults] at hone
    simp at hone

/-- An entry that accepts its observations accepts them in the other interleaving. -/
theorem foldlM_observe {nodeId : NodeId} {activation : NodeActivation} {entry : RecoveryEntry E}
    (hrun : (observationsOf nodeId observations).foldlM RecoveryEntry.observe
      (.initial activation) = .ok entry) :
    (observationsOf nodeId observations').foldlM RecoveryEntry.observe
      (.initial activation) = .ok entry := by
  rw [RecoveryEntry.foldlM_observe_eq_ok] at hrun ⊢
  obtain ⟨hactivations, hone, hhistory, hentry⟩ := hrun
  rw [← h.attempts nodeId, ← h.results nodeId hone]
  refine ⟨fun observation hobservation => ?_, hone, hhistory, hentry⟩
  exact hactivations observation ((h.observationsOf_perm nodeId).mem_iff.mpr hobservation)

end SameEvidence

namespace ReadyNodeRecoveryPlanner

variable {checkpoint : Checkpoint E} {fence : RunFence}
  {planner observed : ReadyNodeRecoveryPlanner E}

theorem observeAll_of_sameEvidence (hnew : new checkpoint fence = .ok planner)
    {observations observations' : List (RecoveryObservation E)}
    (h : SameEvidence observations observations')
    (hobserve : planner.observeAll observations = .ok observed) :
    planner.observeAll observations' = .ok observed := by
  rw [observeAll_eq_ok] at hobserve ⊢
  obtain ⟨entries, hentries, hobserved⟩ := hobserve
  refine ⟨entries, ?_, hobserved⟩
  refine foldlM_routeStep_eq (keys_nodup_of_new hnew) hentries
    (fun observation hmem => h.perm.mem_iff.mpr hmem) (fun nodeId state state' hstate hrun => ?_)
  obtain ⟨activation, _, rfl⟩ := initial_of_new hnew hstate
  exact h.foldlM_observe hrun

end ReadyNodeRecoveryPlanner

/-! ## Barrier heads -/

/-- One head per ready node of a checkpoint, in node order. -/
def ReadyHeads (checkpoint : Checkpoint E) (heads : List PendingNodeResultHead) : Prop :=
  List.Forall₂ (fun nodeId (head : PendingNodeResultHead) =>
    NodeActivation.forReadyRoot checkpoint nodeId = .ok head.activation)
    checkpoint.readyNodes.nodes heads

namespace ReadyHeads

variable {checkpoint : Checkpoint E} {heads : List PendingNodeResultHead}

theorem nodeIds (h : ReadyHeads checkpoint heads) :
    heads.map (·.activation.nodeId) = checkpoint.readyNodes.nodes := by
  rw [← map_eq_map_of_forall₂ (f := id) h (fun nodeId _ head hhead => ?_), List.map_id]
  exact (NodeActivation.forReadyRoot_eq_ok hhead).2.2.2.symm

theorem activation_eq (h : ReadyHeads checkpoint heads) (head : PendingNodeResultHead)
    (hhead : head ∈ heads) : head.activation.baseCheckpoint = checkpoint.head ∧
      head.activation.graphNamespace = .root := by
  obtain ⟨_, _, hactivation⟩ := exists_of_forall₂_right h hhead
  obtain ⟨_, hbase, hroot, _⟩ := NodeActivation.forReadyRoot_eq_ok hactivation
  exact ⟨hbase, hroot⟩

theorem strictlySorted (h : ReadyHeads checkpoint heads) :
    StrictlySorted PendingNodeResultHead.key heads := by
  have hsorted : heads.Pairwise (fun a b => a.activation.nodeId < b.activation.nodeId) := by
    rw [← List.pairwise_map, h.nodeIds]
    exact checkpoint.readyNodes.sorted
  refine hsorted.imp_of_mem (fun {a b} ha hb hlt => ?_)
  have hroot := (h.activation_eq a ha).2.trans (h.activation_eq b hb).2.symm
  exact Prod.Lex.toLex_lt_toLex.mpr (.inr ⟨hroot, hlt⟩)

theorem commonBase (h : ReadyHeads checkpoint heads) : CommonBase heads where
  bounded := by
    rw [← h.length_eq]
    exact checkpoint.readyNodes.bounded
  root head hhead := (h.activation_eq head hhead).2
  base_eq head hhead first hfirst := by
    rw [(h.activation_eq head hhead).1, (h.activation_eq first (List.mem_of_head? hfirst)).1]
  keys_nodup := h.strictlySorted.nodup_keys

end ReadyHeads

namespace ReadyNodeRecoveryPlanner

variable {checkpoint : Checkpoint E} {fence : RunFence}
  {planner observed : ReadyNodeRecoveryPlanner E} {observations : List (RecoveryObservation E)}

/-- The result that an entry holds is one of the activation of its node. -/
theorem activation_of_result (hnew : new checkpoint fence = .ok planner)
    (hobserve : planner.observeAll observations = .ok observed)
    {entry : NodeId × RecoveryEntry E} (hentry : entry ∈ observed.entries)
    {result : PendingNodeResultHead} (hresult : entry.2.result = some result) :
    NodeActivation.forReadyRoot checkpoint entry.1 = .ok result.activation := by
  obtain ⟨activation, hactivation, hrun⟩ := run_of_observeAll hnew hobserve hentry
  obtain ⟨hsame, _, _, hafter⟩ := RecoveryEntry.foldlM_observe_eq_ok.mp hrun
  rw [hafter] at hresult
  obtain ⟨record, hrecord, rfl⟩ := Option.map_eq_some_iff.mp hresult
  have hmem : record ∈ resultsIn (observationsOf entry.1 observations) :=
    List.mem_of_getLast? hrecord
  obtain ⟨observation, hobservation, hrecord⟩ := List.mem_filterMap.mp hmem
  cases observation with
  | result other =>
    cases hrecord
    have hactivation' : record.intent.activation = activation := hsame _ hobservation
    show _ = Except.ok record.intent.activation
    rw [hactivation', hactivation]
  | attempt _ => cases hrecord

theorem result_of_completed (hnew : new checkpoint fence = .ok planner)
    (hobserve : planner.observeAll observations = .ok observed) {journalHead : JournalHead}
    {observedAt : Timestamp} {plan : ReadyNodeRecoveryPlan E}
    (hfinish : observed.finish journalHead observedAt = .ok plan)
    {entry : NodeId × RecoveryEntry E} (hentry : entry ∈ observed.entries) {node : RecoveryNode E}
    (hclassify : classifyEntry entry.1 entry.2 observed.fence observedAt = .ok node)
    (hkind : node.kind = .completed) : ∃ head, node.result = some head ∧
      NodeActivation.forReadyRoot checkpoint entry.1 = .ok head.activation := by
  have hholds := holds_of_observeAll hnew hobserve
  obtain ⟨_, hafter, hexplains⟩ := explains_of_finish hholds hfinish hentry hclassify
  have hjustified := hexplains.justified
  rw [← hafter] at hjustified
  cases node with
  | completed activation head =>
    exact ⟨head, rfl, activation_of_result hnew hobserve hentry hjustified.1⟩
  | _ => cases hkind

/-- The heads of a ready plan are one per ready node, in order. -/
theorem resultHeads_of_finish (hnew : new checkpoint fence = .ok planner)
    (hobserve : planner.observeAll observations = .ok observed) {journalHead : JournalHead}
    {observedAt : Timestamp} {plan : ReadyNodeRecoveryPlan E}
    (hfinish : observed.finish journalHead observedAt = .ok plan)
    (hready : plan.isBarrierReady = true) :
    ReadyHeads checkpoint (plan.nodes.filterMap RecoveryNode.result) := by
  have hkeys := (holds_of_observeAll hnew hobserve).keys_eq
  obtain ⟨_, nodes, hnodes, hplan⟩ := finish_eq_ok.mp hfinish
  have hcompleted : ∀ node ∈ nodes, node.kind = .completed := by
    subst hplan
    simp only [ReadyNodeRecoveryPlan.isBarrierReady, Bool.and_eq_true, List.all_eq_true,
      decide_eq_true_eq] at hready
    exact hready.2
  have hheads : List.Forall₂ (fun (entry : NodeId × RecoveryEntry E) (head : PendingNodeResultHead) =>
      NodeActivation.forReadyRoot checkpoint entry.1 = .ok head.activation) observed.entries
      (nodes.filterMap RecoveryNode.result) := by
    refine forall₂_filterMap hnodes (fun entry hentry node hnode hclassify => ?_)
    exact result_of_completed hnew hobserve hfinish hentry hclassify (hcompleted node hnode)
  unfold ReadyHeads
  rw [← hkeys, List.forall₂_map_left_iff, hplan]
  exact hheads

end ReadyNodeRecoveryPlanner

/-- A ready plan has the heads that its barrier takes, one per ready node. -/
theorem ReadyNodeRecoveryPlan.barrierResultHeads_of_ready {checkpoint : Checkpoint E}
    {plan : ReadyNodeRecoveryPlan E} (hready : plan.isBarrierReady = true)
    (h : ReadyHeads checkpoint (plan.nodes.filterMap RecoveryNode.result)) :
    ∃ heads, plan.barrierResultHeads = .ok (some heads) ∧
      heads.heads.map (·.activation.nodeId) = checkpoint.readyNodes.nodes ∧
      ∀ head ∈ heads.heads, head.activation.baseCheckpoint = checkpoint.head := by
  have hne : plan.nodes.filterMap RecoveryNode.result ≠ [] := by
    intro hnil
    simp only [isBarrierReady, Bool.and_eq_true, List.all_eq_true, decide_eq_true_eq,
      Bool.not_eq_true', List.isEmpty_eq_false_iff] at hready
    obtain ⟨node, rest, hnodes⟩ := List.exists_cons_of_ne_nil hready.1
    have hnone := List.filterMap_eq_nil_iff.mp hnil node (by rw [hnodes]; exact List.mem_cons_self)
    have hkind := hready.2 node (by rw [hnodes]; exact List.mem_cons_self)
    cases node with
    | completed => cases hnone
    | _ => cases hkind
  obtain ⟨heads, hheads⟩ := BarrierResultHeads.exists_tryNew_eq_ok h.commonBase hne
  have hvalues : heads.heads = plan.nodes.filterMap RecoveryNode.result := by
    rw [BarrierResultHeads.heads_of_tryNew hheads, h.strictlySorted.sortByKey_eq]
  refine ⟨heads, ?_, ?_, ?_⟩
  · rw [barrierResultHeads, if_pos hready, hheads]
    rfl
  · rw [hvalues]
    exact h.nodeIds
  · rw [hvalues]
    exact fun head hhead => (h.activation_eq head hhead).1

/-- Two interleavings of the same results and attempts, which keep the attempts of every node in
order, are both rejected or both accepted, and then every plan finished from them is the same one.
The heads of a ready plan are built and cover the ready set of the checkpoint, each node once. -/
theorem recovery_interleavings_agree {checkpoint : Checkpoint E} {fence : RunFence}
    {planner : ReadyNodeRecoveryPlanner E} {observations observations' : List (RecoveryObservation E)}
    (hnew : ReadyNodeRecoveryPlanner.new checkpoint fence = .ok planner)
    (h : SameEvidence observations observations') :
    ((∃ error, planner.observeAll observations = .error error) ∧
      ∃ error, planner.observeAll observations' = .error error) ∨
    ∃ observed observed', planner.observeAll observations = .ok observed ∧
      planner.observeAll observations' = .ok observed' ∧
      ∀ journalHead observedAt,
        observed.finish journalHead observedAt = observed'.finish journalHead observedAt ∧
        ∀ plan, observed.finish journalHead observedAt = .ok plan → plan.isBarrierReady = true →
          ∃ heads, plan.barrierResultHeads = .ok (some heads) ∧
            heads.heads.map (·.activation.nodeId) = checkpoint.readyNodes.nodes ∧
            ∀ head ∈ heads.heads, head.activation.baseCheckpoint = checkpoint.head := by
  cases hobserve : planner.observeAll observations with
  | ok observed =>
    have hobserve' := ReadyNodeRecoveryPlanner.observeAll_of_sameEvidence hnew h hobserve
    refine .inr ⟨observed, observed, rfl, hobserve', fun journalHead observedAt => ⟨rfl, ?_⟩⟩
    intro plan hfinish hready
    exact plan.barrierResultHeads_of_ready hready
      (ReadyNodeRecoveryPlanner.resultHeads_of_finish hnew hobserve hfinish hready)
  | error error =>
    refine .inl ⟨⟨error, rfl⟩, ?_⟩
    cases hobserve' : planner.observeAll observations' with
    | error error' => exact ⟨error', rfl⟩
    | ok observed =>
      rw [ReadyNodeRecoveryPlanner.observeAll_of_sameEvidence hnew h.symm hobserve'] at hobserve
      cases hobserve

namespace RecoverySample

/-- The successful attempt and the result of one node, and the result of the other one. -/
def bothCompleted : Option (Checkpoint .compact × ReadyNodeRecoveryPlanner .compact ×
    NodeAttempt .compact × PendingNodeResult .compact × PendingNodeResult .compact) := do
  let checkpoint ← checkpoint [⟨"draft"⟩, ⟨"review"⟩]
  let planner ← (ReadyNodeRecoveryPlanner.new checkpoint lease.fence).toOption
  let draft ← (NodeActivation.forReadyRoot checkpoint ⟨"draft"⟩).toOption
  let review ← (NodeActivation.forReadyRoot checkpoint ⟨"review"⟩).toOption
  let start ← (NodeAttemptStart.new draft ⟨"attempt-1"⟩ lease.fence
    (journalHead (.ofNat 2))).toOption
  let result ← pendingResult draft
  let completion ← (NodeAttemptCompletion.succeed start result.head .zero).toOption
  let attempt ← (NodeAttempt.restore start (some completion)).toOption
  let other ← pendingResult review
  return (checkpoint, planner, attempt, result, other)

theorem sameEvidence_reverse (attempt : NodeAttempt E) (result other : PendingNodeResult E) :
    SameEvidence [.attempt attempt, .result result, .result other]
      [.result other, .result result, .attempt attempt] where
  perm := (List.reverse_perm [_, _, _]).symm
  attempts nodeId := by
    simp only [attemptsIn, observationsOf, opsFor, List.filterMap_filter, List.filterMap_cons,
      RecoveryObservation.attempt?, ite_self, List.filterMap_nil]

end RecoverySample

/-- Both results of a checkpoint, observed in either order, give a plan whose heads cover it. -/
theorem recovery_interleavings_agree_reversed :
    ∃ (planner observed observed' : ReadyNodeRecoveryPlanner .compact)
      (attempt : NodeAttempt .compact) (result other : PendingNodeResult .compact)
      (plan : ReadyNodeRecoveryPlan .compact) (heads : BarrierResultHeads),
      planner.observeAll [.attempt attempt, .result result, .result other] = .ok observed ∧
      planner.observeAll [.result other, .result result, .attempt attempt] = .ok observed' ∧
      observed'.finish (RecoverySample.journalHead (.ofNat 3)) (.ofMicros 0) = .ok plan ∧
      plan.barrierResultHeads = .ok (some heads) ∧
      heads.heads.map (·.activation.nodeId) = [⟨"draft"⟩, ⟨"review"⟩] := by
  have hsome : (RecoverySample.bothCompleted.any (fun sample =>
      sample.1.readyNodes.nodes = [⟨"draft"⟩, ⟨"review"⟩] ∧
      ((sample.2.1.observeAll [.attempt sample.2.2.1, .result sample.2.2.2.1,
        .result sample.2.2.2.2]).toOption.any fun observed =>
          (observed.finish (RecoverySample.journalHead (.ofNat 3))
            (.ofMicros 0)).toOption.any ReadyNodeRecoveryPlan.isBarrierReady))) =
      true := by
    decide +kernel
  obtain ⟨⟨checkpoint, planner, attempt, result, other⟩, hsample, hchecked⟩ :=
    (Option.any_eq_true _ _).mp hsome
  obtain ⟨hnodes, hplan⟩ := of_decide_eq_true hchecked
  simp only [Option.any_eq_true, toOption_eq_some] at hplan
  obtain ⟨observed, hobserve, plan, hfinish, hready⟩ := hplan
  simp only [RecoverySample.bothCompleted, Option.bind_eq_bind, Option.bind_eq_some_iff,
    toOption_eq_some, pure, Option.some.injEq, Prod.mk.injEq] at hsample
  obtain ⟨checkpoint, _, planner, hnew, _, _, _, _, _, _, result, _, _, _, attempt, _, other, _,
    rfl, rfl, rfl, rfl, rfl⟩ := hsample
  rcases recovery_interleavings_agree hnew
    (RecoverySample.sameEvidence_reverse attempt result other) with hrejected | haccepted
  · obtain ⟨⟨error, herror⟩, _⟩ := hrejected
    cases hobserve.symm.trans herror
  · obtain ⟨observed₁, observed', hobserve₁, hobserve', hfinishes⟩ := haccepted
    obtain rfl := Except.ok.inj (hobserve.symm.trans hobserve₁)
    obtain ⟨hsame, hplans⟩ := hfinishes _ _
    obtain ⟨heads, hheads, hids, _⟩ := hplans plan hfinish hready
    exact ⟨planner, observed, observed', attempt, result, other, plan, heads, hobserve, hobserve',
      hsame ▸ hfinish, hheads, hids.trans hnodes⟩

end StateKnot
