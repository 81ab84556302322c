import StateKnot.Graph.Planner
import StateKnot.Written

/-!
# What a barrier plan is

`BarrierPlanSpec` says what a successful plan means in terms of the set of results
alone: the results cover the ready set, the reducer sees the updates in node order,
and the successor's ready set is the union of the successor sets that the nodes
declare for the controls they returned.  `plan_spec` shows that the planner meets it.

The proof follows the planner: one lemma for the ordering of results, a step and a
run lemma for the loop over controls, one for the disposition.
-/

namespace StateKnot

open Lib

variable {E : Encoding}

/-! ## Reading a result -/

/-- The successor set that a node declares for a control. -/
def GraphNode.declaredSuccessors (node : GraphNode) : NodeControl E → Option (List NodeId)
  | .continue => node.continueTo.map ReadyNodes.nodes
  | .route routeId => (node.routes.get routeId).map (·.successors.nodes)
  | .wait _ => node.waitTo.map ReadyNodes.nodes
  | .terminal _ => if node.terminal then some [] else none

/-- The successor set that the result's own node declares for the result's control. -/
def CompiledGraph.successorsFor (graph : CompiledGraph E) (result : PendingNodeResult E) :
    Option (List NodeId) :=
  (graph.node result.nodeId).bind (·.declaredSuccessors result.intent.control)

namespace PendingNodeResult

/-- The update that a result hands to the reducer. -/
def reducerInput (result : PendingNodeResult E) : Option (GraphReducerInput E) :=
  result.intent.stateChange.update?.map (⟨result.nodeId, ·⟩)

def waits (result : PendingNodeResult E) : List (NodeWait E) :=
  match result.intent.control with
  | .wait waits => waits.values
  | _ => []

def terminalOutput (result : PendingNodeResult E) : Option (NodeTerminalOutput E) :=
  match result.intent.control with
  | .terminal output => some output
  | _ => none

theorem terminalOutput_eq_some {result : PendingNodeResult E} {output : NodeTerminalOutput E} :
    result.terminalOutput = some output ↔ result.intent.control = .terminal output := by
  unfold terminalOutput
  cases result.intent.control <;> simp

theorem waits_ne_nil {result : PendingNodeResult E} :
    result.waits ≠ [] ↔ ∃ waits, result.intent.control = .wait waits := by
  unfold waits
  split
  next waits hwait => simpa [hwait] using waits.nonempty
  next hother => simpa using hother

end PendingNodeResult

theorem GraphNode.declaredSuccessors_eq_nil {node : GraphNode} {control : NodeControl E}
    (h : node.declaredSuccessors control = some []) : ∃ output, control = .terminal output := by
  unfold declaredSuccessors at h
  split at h
  · obtain ⟨set, hset, hnil⟩ := Option.map_eq_some_iff.mp h
    exact absurd hnil (node.continue_nonempty set hset)
  · obtain ⟨route, _, hnil⟩ := Option.map_eq_some_iff.mp h
    exact absurd hnil route.nonempty
  · obtain ⟨set, hset, hnil⟩ := Option.map_eq_some_iff.mp h
    exact absurd hnil (node.wait_nonempty set hset)
  · exact ⟨_, rfl⟩

/-- A declared successor set is one of the node's successor sets or belongs to termination. -/
theorem GraphNode.mem_successors_of_declared {node : GraphNode} {control : NodeControl E}
    {set : List NodeId} (h : node.declaredSuccessors control = some set) {target : NodeId}
    (htarget : target ∈ set) : target ∈ node.successors := by
  rw [GraphNode.mem_successors]
  unfold declaredSuccessors at h
  split at h
  · obtain ⟨declared, hdeclared, rfl⟩ := Option.map_eq_some_iff.mp h
    exact ⟨declared, GraphNode.mem_successorSets.mpr (.inl hdeclared), htarget⟩
  · obtain ⟨route, hroute, rfl⟩ := Option.map_eq_some_iff.mp h
    exact ⟨route.successors, GraphNode.mem_successorSets.mpr
      (.inr (.inl ⟨route, (GraphRoutes.get_eq_some.mp hroute).1, rfl⟩)), htarget⟩
  · obtain ⟨declared, hdeclared, rfl⟩ := Option.map_eq_some_iff.mp h
    exact ⟨declared, GraphNode.mem_successorSets.mpr (.inr (.inr hdeclared)), htarget⟩
  · split at h
    · cases h
      simp at htarget
    · cases h

/-! ## Ordering results -/

/-- Results of distinct nodes, each under the activation of its ready node. -/
structure ExactActivations (base : Checkpoint E) (results : List (PendingNodeResult E)) :
    Prop where
  activation : ∀ result ∈ results,
    NodeActivation.forReadyRoot base result.nodeId = .ok result.intent.activation
  nodes_nodup : (results.map PendingNodeResult.nodeId).Nodup

theorem ExactActivations.of_append {base : Checkpoint E} {seen rest : List (PendingNodeResult E)}
    (h : ExactActivations base (seen ++ rest)) : ExactActivations base seen := by
  have hnodup := h.nodes_nodup
  rw [List.map_append] at hnodup
  exact ⟨fun result hresult => h.activation result (by simp [hresult]), hnodup.of_append_left⟩

/-- Every result runs under the activation of a ready node, and each ready node has
exactly one result. -/
structure CoversReady (base : Checkpoint E) (results : List (PendingNodeResult E)) : Prop where
  activation : ∀ result ∈ results,
    NodeActivation.forReadyRoot base result.nodeId = .ok result.intent.activation
  nodes_perm : (results.map PendingNodeResult.nodeId).Perm base.readyNodes.nodes

namespace CoversReady

variable {base : Checkpoint E} {results : List (PendingNodeResult E)}

theorem nodes_nodup (h : CoversReady base results) :
    (results.map PendingNodeResult.nodeId).Nodup :=
  h.nodes_perm.nodup_iff.mpr base.readyNodes.sorted.nodup

theorem of_perm (h : CoversReady base results) {results' : List (PendingNodeResult E)}
    (hperm : results.Perm results') : CoversReady base results' :=
  ⟨fun result hresult => h.activation result (hperm.mem_iff.mpr hresult),
    (hperm.map _).symm.trans h.nodes_perm⟩

/-- In node order the heads of the results are in barrier order. -/
theorem strictlySorted_heads (h : CoversReady base results) :
    StrictlySorted PendingNodeResultHead.key
      ((sortByKey PendingNodeResult.nodeId results).map PendingNodeResult.head) := by
  refine List.pairwise_map.mpr ((strictlySorted_sortByKey h.nodes_nodup).imp_of_mem ?_)
  intro a b ha hb hlt
  have hroot : ∀ result ∈ sortByKey PendingNodeResult.nodeId results,
      result.intent.activation.graphNamespace = .root := fun result hresult =>
    (NodeActivation.forReadyRoot_eq_ok (h.activation result (mem_sortByKey.mp hresult))).2.2.1
  exact Prod.Lex.toLex_lt_toLex.mpr (.inr ⟨(hroot a ha).trans (hroot b hb).symm, hlt⟩)

end CoversReady

namespace GraphBarrierPlanner

variable {planner : GraphBarrierPlanner E}

variable {ordered : List (PendingNodeResult E)}

theorem acceptResult_eq_ok {result : PendingNodeResult E}
    {u : Unit} :
    planner.acceptResult ordered result = .ok u ↔
      NodeActivation.forReadyRoot planner.base result.nodeId = .ok result.intent.activation ∧
        result.nodeId ∉ ordered.map PendingNodeResult.nodeId := by
  simp only [acceptResult, bind_eq_ok, reject_eq_ok, mapError_eq_ok, not_not, exists_and_left,
    exists_const]
  constructor
  · rintro ⟨_, _, expected, hexpected, rfl, hfresh⟩
    exact ⟨hexpected, hfresh⟩
  · rintro ⟨hexpected, hfresh⟩
    obtain ⟨_, hbase, hroot, _⟩ := NodeActivation.forReadyRoot_eq_ok hexpected
    exact ⟨hbase, hroot, result.intent.activation, hexpected, rfl, hfresh⟩

/-- The loop of `ordered_results` accepts distinct nodes with their exact activations. -/
theorem collect_acceptResult_eq_ok :
    collect planner.acceptResult [] planner.results = .ok ordered ↔
      ordered = planner.results ∧ ExactActivations planner.base planner.results := by
  refine collect_eq_ok_iff (ExactActivations planner.base) ExactActivations.of_append (fun {seen result _} hseen => ?_)
    ⟨by simp, by simp⟩
  rw [acceptResult_eq_ok]
  constructor
  · rintro ⟨hactivation, hfresh⟩
    refine ⟨fun other hother => ?_, nodup_map_append_singleton.mpr ⟨hseen.nodes_nodup, hfresh⟩⟩
    rcases List.mem_append.mp hother with hother | hother
    · exact hseen.activation other hother
    · rw [List.mem_singleton.mp hother]
      exact hactivation
  · rintro ⟨hactivation, hnodup⟩
    exact ⟨hactivation result (by simp), (nodup_map_append_singleton.mp hnodup).2⟩

theorem orderedResults_eq_ok :
    planner.orderedResults = .ok ordered ↔ CoversReady planner.base planner.results ∧
      ordered = sortByKey PendingNodeResult.nodeId planner.results := by
  simp only [orderedResults, bind_eq_ok, reject_eq_ok, not_not, collect_acceptResult_eq_ok,
    forM_eq_ok]
  constructor
  · rintro ⟨_, hcount, _, ⟨rfl, hexact⟩, _, hmissing, hreturn⟩
    cases hreturn
    refine ⟨⟨hexact.activation, ?_⟩, rfl⟩
    have hsubset : planner.base.readyNodes.nodes ⊆
        planner.results.map PendingNodeResult.nodeId := hmissing
    refine ((List.subperm_of_subset planner.base.readyNodes.sorted.nodup hsubset).perm_of_length_le
      ?_).symm
    rw [List.length_map, hcount, ReadyNodes.len]
  · rintro ⟨hcovers, rfl⟩
    have hlength := hcovers.nodes_perm.length_eq
    rw [List.length_map] at hlength
    exact ⟨(), hlength, planner.results, ⟨rfl, hcovers.activation, hcovers.nodes_nodup⟩, (),
      fun nodeId hnodeId => hcovers.nodes_perm.mem_iff.mpr hnodeId, rfl⟩

/-! ## The loop over controls -/

/-- What one result adds to the accumulators. -/
theorem resolveResult_eq_ok {state state' : ControlState E} {result : PendingNodeResult E}
    (h : planner.resolveResult state result = .ok state') :
    ∃ successors, planner.graph.successorsFor result = some successors ∧
      state'.reducerInputs = state.reducerInputs ++ result.reducerInput.toList ∧
      state'.nextNodes = state.nextNodes ++ successors ∧
      state'.waits = state.waits ++ result.waits ∧
      state'.terminal.toList = state.terminal.toList ++ result.terminalOutput.toList := by
  simp only [resolveResult, bind_eq_ok, okOr_eq_ok] at h
  obtain ⟨node, hnode, updated, hupdate, hcontrol⟩ := h
  have hupdated : updated.reducerInputs = state.reducerInputs ++ result.reducerInput.toList ∧
      updated.nextNodes = state.nextNodes ∧ updated.waits = state.waits ∧
      updated.terminal = state.terminal := by
    unfold resolveUpdate at hupdate
    unfold PendingNodeResult.reducerInput
    split at hupdate
    next hunchanged =>
      cases hupdate
      simp [hunchanged, NodeStateChange.update?]
    next update hchanged =>
      simp only [bind_eq_ok] at hupdate
      obtain ⟨_, _, _, _, hreturn⟩ := hupdate
      cases hreturn
      simp [hchanged, NodeStateChange.update?, PendingNodeResult.nodeId]
  obtain ⟨hinputs, hnext, hwaits, hterminal⟩ := hupdated
  have hsuccessors : planner.graph.successorsFor result =
      node.declaredSuccessors result.intent.control := by
    rw [CompiledGraph.successorsFor, PendingNodeResult.nodeId, hnode, Option.bind_some]
  rw [hsuccessors, ← hinputs, ← hnext, ← hwaits, ← hterminal]
  unfold PendingNodeResult.waits PendingNodeResult.terminalOutput GraphNode.declaredSuccessors
  unfold resolveControl at hcontrol
  cases hc : result.intent.control with
  | «continue» =>
    simp only [hc, bind_eq_ok, okOr_eq_ok] at hcontrol ⊢
    obtain ⟨set, hset, hreturn⟩ := hcontrol
    cases hreturn
    exact ⟨set.nodes, by simp [hset], rfl, rfl, by simp, by simp⟩
  | route routeId =>
    simp only [hc, bind_eq_ok, okOr_eq_ok] at hcontrol ⊢
    obtain ⟨route, hroute, hreturn⟩ := hcontrol
    cases hreturn
    exact ⟨route.successors.nodes, by simp [hroute], rfl, rfl, by simp, by simp⟩
  | wait waits =>
    simp only [hc, bind_eq_ok, okOr_eq_ok] at hcontrol ⊢
    obtain ⟨set, hset, hreturn⟩ := hcontrol
    cases hreturn
    exact ⟨set.nodes, by simp [hset], rfl, rfl, by simp, by simp⟩
  | terminal output =>
    simp only [hc, bind_eq_ok, reject_eq_ok] at hcontrol ⊢
    obtain ⟨_, hallowed, _, _, _, _, _, hfirst, hreturn⟩ := hcontrol
    cases hreturn
    have hnone : updated.terminal = none := by simpa using hfirst
    exact ⟨[], by simpa using hallowed, rfl, by simp, by simp, by simp [hnone]⟩

/-- The accumulators after the loop, for a loop that started in `state`. -/
theorem foldlM_resolveResult {state final : ControlState E}
    (h : ordered.foldlM planner.resolveResult state = .ok final) :
    (∀ result ∈ ordered, (planner.graph.successorsFor result).isSome) ∧
      final.reducerInputs =
        state.reducerInputs ++ ordered.filterMap PendingNodeResult.reducerInput ∧
      final.nextNodes = state.nextNodes ++
        ordered.flatMap (fun result => (planner.graph.successorsFor result).getD []) ∧
      final.waits = state.waits ++ ordered.flatMap PendingNodeResult.waits ∧
      final.terminal.toList =
        state.terminal.toList ++ ordered.filterMap PendingNodeResult.terminalOutput := by
  induction ordered generalizing state with
  | nil =>
    cases h
    simp
  | cons result ordered ih =>
    rw [List.foldlM_cons, bind_eq_ok] at h
    obtain ⟨next, hstep, hrest⟩ := h
    obtain ⟨successors, hsuccessors, hinputs, hnext, hwaits, hterminal⟩ :=
      resolveResult_eq_ok hstep
    obtain ⟨ihsome, ihinputs, ihnext, ihwaits, ihterminal⟩ := ih hrest
    refine ⟨List.forall_mem_cons.mpr ⟨by simp [hsuccessors], ihsome⟩, ?_, ?_, ?_, ?_⟩
    · rw [ihinputs, hinputs, List.append_assoc]
      cases hinput : result.reducerInput <;> simp [hinput]
    · rw [ihnext, hnext]
      simp [hsuccessors]
    · rw [ihwaits, hwaits]
      simp
    · rw [ihterminal, hterminal, List.append_assoc]
      cases houtput : result.terminalOutput <;> simp [houtput]

end GraphBarrierPlanner

/-! ## Dispositions -/

/-- How the controls of the ordered results decide the disposition. -/
structure Disposed (ordered : List (PendingNodeResult E)) (readyNodes : List NodeId)
    (disposition : GraphBarrierDisposition E) : Prop where
  terminal_iff : ∀ output, disposition = .terminal output ↔
    ∃ result, ordered = [result] ∧ result.intent.control = .terminal output
  wait_iff : (∃ waits, disposition = .wait waits) ↔
    ∃ result ∈ ordered, ∃ waits, result.intent.control = .wait waits
  wait_values : ∀ waits, disposition = .wait waits →
    waits.values = ordered.flatMap PendingNodeResult.waits
  ready_empty_iff : readyNodes = [] ↔ ∃ output, disposition = .terminal output

theorem exists_wait_iff {ordered : List (PendingNodeResult E)} :
    ordered.flatMap PendingNodeResult.waits ≠ [] ↔
      ∃ result ∈ ordered, ∃ waits, result.intent.control = .wait waits := by
  simp only [ne_eq, List.flatMap_eq_nil_iff, not_forall, exists_prop]
  exact exists_congr fun result => and_congr_right fun _ => PendingNodeResult.waits_ne_nil

/-- The two arms of `resolve_disposition`: a lone terminal, or a barrier that advances. -/
theorem resolveDisposition_eq_ok {count : Nat} {nextNodes : List NodeId}
    {waits : List (NodeWait E)} {terminal : Option (NodeTerminalOutput E)}
    {disposition : GraphBarrierDisposition E}
    (h : resolveDisposition count nextNodes waits terminal = .ok disposition) :
    (∃ output, terminal = some output ∧ disposition = .terminal output ∧ count = 1 ∧
        waits = [] ∧ nextNodes = []) ∨
      (terminal = none ∧ disposition = .continue ∧ waits = [] ∧ nextNodes ≠ []) ∨
      (terminal = none ∧ waits ≠ [] ∧
        ∃ batch, disposition = .wait batch ∧ batch.values = waits) := by
  unfold resolveDisposition at h
  split at h
  next output =>
    split at h
    · cases h
    next hlone =>
      cases h
      simp only [not_or, not_not] at hlone
      exact .inl ⟨output, rfl, rfl, hlone⟩
  next =>
    split at h
    next hwaits =>
      split at h
      · cases h
      next hnext =>
        cases h
        exact .inr (.inl ⟨rfl, rfl, hwaits, hnext⟩)
    next hwaits =>
      cases hbatch : NodeWaits.tryNew waits with
      | error source => simp [hbatch, Except.mapError, Except.map] at h
      | ok batch =>
        simp only [hbatch, Except.mapError, Except.map, Except.ok.injEq] at h
        exact .inr (.inr ⟨rfl, hwaits, batch, h.symm, NodeWaits.values_of_tryNew hbatch⟩)

theorem successors_ne_nil_of_wait {graph : CompiledGraph E} {result : PendingNodeResult E}
    {waits : NodeWaits E} (hcontrol : result.intent.control = .wait waits)
    {successors : List NodeId} (h : graph.successorsFor result = some successors) :
    successors ≠ [] := by
  rintro rfl
  obtain ⟨node, _, hdeclared⟩ := Option.bind_eq_some_iff.mp h
  obtain ⟨output, hterminal⟩ := GraphNode.declaredSuccessors_eq_nil hdeclared
  rw [hcontrol] at hterminal
  cases hterminal

theorem disposed_of_resolveDisposition {graph : CompiledGraph E}
    {ordered : List (PendingNodeResult E)} {nextNodes : List NodeId}
    {terminal : Option (NodeTerminalOutput E)} {disposition : GraphBarrierDisposition E}
    (hdeclared : ∀ result ∈ ordered, (graph.successorsFor result).isSome)
    (hnext : ∀ node, node ∈ nextNodes ↔ ∃ result ∈ ordered, ∃ successors,
      graph.successorsFor result = some successors ∧ node ∈ successors)
    (hterminal : terminal.toList = ordered.filterMap PendingNodeResult.terminalOutput)
    (h : resolveDisposition ordered.length nextNodes
      (ordered.flatMap PendingNodeResult.waits) terminal = .ok disposition) :
    Disposed ordered nextNodes disposition := by
  -- a lone terminal result leaves its output in the accumulator
  have hlone : ∀ {result output}, ordered = [result] →
      result.intent.control = .terminal output → terminal = some output := by
    rintro result output rfl hcontrol
    have houtput := PendingNodeResult.terminalOutput_eq_some.mpr hcontrol
    rw [List.filterMap_cons_some houtput, List.filterMap_nil] at hterminal
    simpa using hterminal
  rcases resolveDisposition_eq_ok h with
    ⟨output, rfl, rfl, hcount, hwaits, hnil⟩ | ⟨rfl, rfl, hwaits, hne⟩ |
    ⟨rfl, hwaits, batch, rfl, hbatch⟩
  · refine ⟨fun output' => ⟨fun heq => ?_, fun ⟨result, hone, hcontrol⟩ => ?_⟩, ?_, by simp, ?_⟩
    · obtain ⟨result, rfl⟩ := List.length_eq_one_iff.mp hcount
      have hmem : output ∈ [result].filterMap PendingNodeResult.terminalOutput := by
        rw [← hterminal]
        simp
      obtain ⟨other, hother, houtput⟩ := List.mem_filterMap.mp hmem
      obtain rfl := List.mem_singleton.mp hother
      cases heq
      exact ⟨other, rfl, PendingNodeResult.terminalOutput_eq_some.mp houtput⟩
    · rw [Option.some.inj (hlone hone hcontrol)]
    · rw [← exists_wait_iff]
      simp [hwaits]
    · simp [hnil]
  · refine ⟨fun output => ⟨by simp, fun ⟨result, hone, hcontrol⟩ => ?_⟩, ?_,
      by simp, ?_⟩
    · exact absurd (hlone hone hcontrol) (by simp)
    · rw [← exists_wait_iff]
      simp [hwaits]
    · simp [hne]
  · refine ⟨fun output => ⟨by simp, fun ⟨result, hone, hcontrol⟩ => ?_⟩, ?_,
      ?_, ?_⟩
    · exact absurd (hlone hone hcontrol) (by simp)
    · rw [← exists_wait_iff]
      simpa using hwaits
    · rintro waits heq
      cases heq
      exact hbatch
    · obtain ⟨result, hresult, waits, hcontrol⟩ := exists_wait_iff.mp hwaits
      obtain ⟨successors, hsuccessors⟩ := Option.isSome_iff_exists.mp (hdeclared result hresult)
      obtain ⟨node, hnode⟩ :=
        List.exists_mem_of_ne_nil _ (successors_ne_nil_of_wait hcontrol hsuccessors)
      have hmem : node ∈ nextNodes := (hnext node).mpr ⟨result, hresult, successors, hsuccessors,
        hnode⟩
      simp [List.ne_nil_of_mem hmem]

/-! ## The plan -/

/-- What a barrier plan over a set of results is. -/
structure BarrierPlanSpec (graph : CompiledGraph E) (base : Checkpoint E)
    (results : List (PendingNodeResult E)) (reducer : GraphReducer E)
    (plan : GraphBarrierPlan E) : Prop where
  /-- Each ready node has exactly one result. -/
  covers : (results.map PendingNodeResult.nodeId).Perm base.readyNodes.nodes
  /-- The barrier names the base and consumes the heads in node order. -/
  base_eq : plan.barrier.baseCheckpoint = base.head
  heads_eq : plan.barrier.resultHeads.heads =
    (sortByKey PendingNodeResult.nodeId results).map PendingNodeResult.head
  /-- Without updates the state is unchanged. -/
  state_unchanged :
    (sortByKey PendingNodeResult.nodeId results).filterMap PendingNodeResult.reducerInput = [] →
      plan.barrier.successor.state.data = base.state.data
  /-- With updates it is what the reducer makes of them, in node order. -/
  state_reduced :
    (sortByKey PendingNodeResult.nodeId results).filterMap PendingNodeResult.reducerInput ≠ [] →
      reducer.reduce base.state.data
        ((sortByKey PendingNodeResult.nodeId results).filterMap PendingNodeResult.reducerInput) =
          .returned (.ok plan.barrier.successor.state.data)
  superstep_eq : plan.barrier.successor.superstep.value = base.superstep.value + 1
  graph_eq : plan.barrier.successor.graph = base.graph
  /-- Every node declares the control that it returned. -/
  declared : ∀ result ∈ results, (graph.successorsFor result).isSome
  /-- The ready set is the union of the declared successor sets. -/
  ready_iff : ∀ node, node ∈ plan.barrier.successor.readyNodes ↔ ∃ result ∈ results,
    ∃ successors, graph.successorsFor result = some successors ∧ node ∈ successors
  ready_le : plan.barrier.successor.readyNodes.len ≤ graph.limits.maximumParallelism
  disposed : Disposed (sortByKey PendingNodeResult.nodeId results)
    plan.barrier.successor.readyNodes.nodes plan.disposition

namespace GraphBarrierPlanner

variable {planner : GraphBarrierPlanner E}

theorem resolveControls_eq_ok {ordered : List (PendingNodeResult E)}
    {resolved : ResolvedControls E} (h : planner.resolveControls ordered = .ok resolved) :
    (∀ result ∈ ordered, (planner.graph.successorsFor result).isSome) ∧
      resolved.reducerInputs = ordered.filterMap PendingNodeResult.reducerInput ∧
      (∀ node, node ∈ resolved.readyNodes ↔ ∃ result ∈ ordered, ∃ successors,
        planner.graph.successorsFor result = some successors ∧ node ∈ successors) ∧
      resolved.readyNodes.len ≤ planner.graph.limits.maximumParallelism ∧
      Disposed ordered resolved.readyNodes.nodes resolved.disposition := by
  simp only [resolveControls, bind_eq_ok, reject_eq_ok, mapError_eq_ok, not_lt,
    ReadyNodes.tryNew_eq_ok] at h
  obtain ⟨final, hfold, disposition, hdisposition, _, hwidth, ready, ⟨_, _, hready⟩, hreturn⟩ := h
  cases hreturn
  obtain ⟨hdeclared, hinputs, hnext, hwaits, hterminal⟩ := foldlM_resolveResult hfold
  have hready' : ready.nodes = toOrderedSet final.nextNodes := by
    rw [hready, (strictlySorted_toOrderedSet _).sortByKey_eq]
  have hmem : ∀ node, node ∈ toOrderedSet final.nextNodes ↔ ∃ result ∈ ordered, ∃ successors,
      planner.graph.successorsFor result = some successors ∧ node ∈ successors := by
    intro node
    rw [mem_toOrderedSet, hnext, List.nil_append, List.mem_flatMap]
    refine exists_congr fun result => and_congr_right fun hresult => ?_
    obtain ⟨successors, hsuccessors⟩ := Option.isSome_iff_exists.mp (hdeclared result hresult)
    simp [hsuccessors]
  refine ⟨hdeclared, by simpa using hinputs, fun node => ?_, ?_, ?_⟩
  · rw [ReadyNodes.mem_def, hready']
    exact hmem node
  · rwa [ReadyNodes.len, hready']
  · rw [hready']
    rw [hwaits, List.nil_append] at hdisposition
    exact disposed_of_resolveDisposition hdeclared hmem (by simpa using hterminal) hdisposition

theorem reduceState_eq_ok {inputs : List (GraphReducerInput E)} {state : CheckpointState E}
    (h : planner.reduceState inputs = .ok state) :
    (inputs = [] → state.data = planner.base.state.data) ∧
      (inputs ≠ [] → planner.reducer.reduce planner.base.state.data inputs =
        .returned (.ok state.data)) := by
  simp only [reduceState, bind_eq_ok, mapError_eq_ok] at h
  obtain ⟨reduced, hreduced, _, _, hstate⟩ := h
  obtain ⟨_, rfl⟩ := CheckpointState.new_eq_ok hstate
  unfold reducedData at hreduced
  split at hreduced
  next hnil => exact ⟨fun _ => (Except.ok.inj hreduced).symm, fun hne => absurd hnil hne⟩
  next hne =>
    refine ⟨fun hnil => absurd hnil hne, fun _ => ?_⟩
    split at hreduced
    · cases hreduced
    · cases hreduced
    next value hvalue =>
      cases hreduced
      exact hvalue

variable {plan : GraphBarrierPlan E}

theorem plan_spec (h : planner.plan = .ok plan) :
    BarrierPlanSpec planner.graph planner.base planner.results planner.reducer plan := by
  simp only [GraphBarrierPlanner.plan, bind_eq_ok, mapError_eq_ok, orderedResults_eq_ok] at h
  obtain ⟨_, _, _, _, _, _, ordered, ⟨hcovers, rfl⟩, resolved, hresolved, state, hstate,
    successor, hsuccessor, barrier, hbarrier, hreturn⟩ := h
  cases hreturn
  obtain ⟨hdeclared, hinputs, hready, hwidth, hdisposed⟩ := resolveControls_eq_ok hresolved
  obtain ⟨hunchanged, hreduced⟩ := reduceState_eq_ok hstate
  obtain ⟨hsuperstep, hgraph, _, _, _, hstate', hready', _⟩ :=
    CheckpointWrite.successor_eq_ok hsuccessor
  obtain ⟨hbase, _, rfl, hheads⟩ := CheckpointBarrier.new_eq_ok hbarrier
  rw [hinputs] at hunchanged hreduced
  refine ⟨hcovers.nodes_perm, hbase, ?_, ?_, ?_, hsuperstep, hgraph, ?_, ?_, ?_, ?_⟩
  · rw [hheads, hcovers.strictlySorted_heads.sortByKey_eq]
  · rwa [hstate']
  · rwa [hstate']
  · exact fun result hresult => hdeclared result (mem_sortByKey.mpr hresult)
  · simpa [hready'] using hready
  · rwa [hready']
  · rwa [hready']

/-- A plan succeeds only on a checkpoint of the graph, below the superstep limit, with a
nonempty ready set. -/
theorem base_of_plan (h : planner.plan = .ok plan) :
    planner.base.graph = planner.graph.reference ∧
      planner.base.superstep.value < planner.graph.limits.maximumSupersteps.value ∧
      planner.base.readyNodes.nodes ≠ [] := by
  simp only [GraphBarrierPlanner.plan, bind_eq_ok, mapError_eq_ok] at h
  obtain ⟨_, hcheckpoint, _, _, _, _, _, _, _, _, _, _, successor, _, barrier, hbarrier, _⟩ := h
  simp only [validateCheckpoint, bind_eq_ok, reject_eq_ok, not_not, not_le] at hcheckpoint
  obtain ⟨_, hgraph, _, _, _, hsuperstep, _⟩ := hcheckpoint
  have hready := barrier.baseReadyNodes_ne_nil
  rw [(CheckpointBarrier.new_eq_ok hbarrier).2.1] at hready
  exact ⟨hgraph, hsuperstep, hready⟩

theorem plan_eq_ok_of_perm {results : List (PendingNodeResult E)}
    (hperm : planner.results.Perm results)
    (h : planner.plan = .ok plan) :
    { planner with results := results }.plan = .ok plan := by
  simp only [GraphBarrierPlanner.plan, bind_eq_ok, orderedResults_eq_ok] at h ⊢
  obtain ⟨_, hcheckpoint, _, hreducer, _, hschema, ordered, ⟨hcovers, hordered⟩, hrest⟩ := h
  refine ⟨(), hcheckpoint, (), hreducer, (), hschema, ordered, ⟨hcovers.of_perm hperm, ?_⟩, hrest⟩
  rw [hordered]
  exact sortByKey_eq_of_perm hperm hcovers.nodes_nodup

end GraphBarrierPlanner

/-- Barrier planning is a function of the set of results: a successful plan meets its
specification, and every order of the results gives the same plan. -/
theorem planBarrier_of_result_set (graph : CompiledGraph E) (base : Checkpoint E)
    (results : List (PendingNodeResult E)) (successorId : CheckpointId)
    (schemas : GraphSchemaValidator) (reducer : GraphReducer E) :
    (∀ plan, graph.planBarrier base results successorId schemas reducer = .ok plan →
      BarrierPlanSpec graph base results reducer plan) ∧
    ∀ results', results.Perm results' → ∀ plan,
      graph.planBarrier base results successorId schemas reducer = .ok plan ↔
        graph.planBarrier base results' successorId schemas reducer = .ok plan := by
  refine ⟨fun plan h => GraphBarrierPlanner.plan_spec h, fun results' hperm plan => ?_⟩
  constructor
  · exact GraphBarrierPlanner.plan_eq_ok_of_perm hperm
  · exact GraphBarrierPlanner.plan_eq_ok_of_perm hperm.symm

/-! ## A concrete barrier -/

namespace Sample

def data : BoundedJson := ⟨.null, ⟨4, 0, 1⟩⟩

/-- A validator that accepts everything. -/
def schemas : GraphSchemaValidator := fun _ _ => .returned (.ok ())

/-- A reducer that keeps the state. -/
def reducer : GraphReducer .compact :=
  ⟨⟨identity, ⟨[]⟩⟩, fun state _ => .returned (.ok state)⟩

/-- `start` continues to `left` and `right`; both continue to the terminal node `done`. -/
def graph : Option (CompiledGraph .compact) := do
  let entry ← (ReadyNodes.tryNew [⟨"start"⟩]).toOption
  let middle ← (ReadyNodes.tryNew [⟨"right"⟩, ⟨"left"⟩]).toOption
  let last ← (ReadyNodes.tryNew [⟨"done"⟩]).toOption
  let start ← (GraphNode.new ⟨"start"⟩ (some middle) .empty none false).toOption
  let left ← (GraphNode.new ⟨"left"⟩ (some last) .empty none false).toOption
  let right ← (GraphNode.new ⟨"right"⟩ (some last) .empty none false).toOption
  let done ← (GraphNode.new ⟨"done"⟩ none .empty none true).toOption
  let limits ← (GraphExecutionLimits.new (.ofNat 4) 2).toOption
  (CompiledGraph.compile identity schema schema schema schema ⟨identity, ⟨[]⟩⟩ entry
    [start, left, right, done] limits).toOption

def journalHead (sequence : JournalSequence) : JournalHead :=
  ⟨⟨"tenant"⟩, ⟨"run"⟩, sequence, ⟨"event"⟩, .ofMicros 0, ⟨[]⟩⟩

/-- The first checkpoint of a run. -/
def first (graph : CompiledGraph .compact) : Option (Checkpoint .compact) := do
  let state ← (CheckpointState.new schema data).toOption
  let write ← (CheckpointWrite.initial ⟨"tenant"⟩ ⟨"run"⟩ ⟨"c0"⟩ graph.reference state
    graph.entryNodes).toOption
  (Checkpoint.commit write (journalHead (.ofNat 1))).toOption

/-- A result of a ready node, recorded right after the base checkpoint. -/
def result (base : Checkpoint .compact) (nodeId : NodeId) (control : NodeControl .compact) :
    Option (PendingNodeResult .compact) := do
  let activation ← (NodeActivation.forReadyRoot base nodeId).toOption
  let sequence ← base.journalHead.sequence.checkedNext
  let fence : RunFence := ⟨⟨"tenant"⟩, ⟨"run"⟩, ⟨"attempt"⟩, .first⟩
  if h : validateBasicResultScope activation fence (journalHead sequence) = .ok () then
    some ⟨⟨activation, .unchanged, control, ⟨[]⟩⟩, fence, journalHead sequence, ⟨[]⟩, h⟩
  else none

/-- One barrier: record the results, plan, and commit the successor. -/
def advance (graph : CompiledGraph .compact) (base : Checkpoint .compact)
    (controls : List (NodeId × NodeControl .compact)) (successorId : CheckpointId) :
    Option (List (PendingNodeResult .compact) × GraphBarrierPlan .compact ×
      Checkpoint .compact) := do
  let results ← controls.mapM (fun control => result base control.1 control.2)
  let plan ← (graph.planBarrier base results successorId schemas reducer).toOption
  let sequence ← base.journalHead.sequence.checkedNext
  let next ← (Checkpoint.commit plan.barrier.successor (journalHead sequence)).toOption
  return (results, plan, next)

theorem advance_eq_some {graph : CompiledGraph .compact} {base next : Checkpoint .compact}
    {controls : List (NodeId × NodeControl .compact)} {successorId : CheckpointId}
    {results : List (PendingNodeResult .compact)} {plan : GraphBarrierPlan .compact}
    (h : advance graph base controls successorId = some (results, plan, next)) :
    graph.planBarrier base results successorId schemas reducer = .ok plan ∧
      ∃ head, Checkpoint.commit plan.barrier.successor head = .ok next := by
  simp only [advance, Option.bind_eq_bind, Option.bind_eq_some_iff, toOption_eq_some, pure,
    Option.some.injEq, Prod.mk.injEq] at h
  obtain ⟨_, _, _, hplan, sequence, _, _, hnext, rfl, rfl, rfl⟩ := h
  exact ⟨hplan, _, hnext⟩

/-- The second barrier of a run: `right` finished before `left`. -/
def secondBarrier : Option (CompiledGraph .compact × Checkpoint .compact ×
    List (PendingNodeResult .compact) × GraphBarrierPlan .compact) := do
  let graph ← graph
  let base ← first graph
  let (_, _, middle) ← advance graph base [(⟨"start"⟩, .continue)] ⟨"c1"⟩
  let (results, plan, _) ← advance graph middle
    [(⟨"right"⟩, .continue), (⟨"left"⟩, .continue)] ⟨"c2"⟩
  return (graph, middle, results, plan)

end Sample

/-- Two results in reverse node order give a plan that meets its specification, and so
does the node order. -/
theorem planBarrier_of_result_set_sample : ∃ graph base results plan,
    graph.planBarrier base results ⟨"c2"⟩ Sample.schemas Sample.reducer = .ok plan ∧
      BarrierPlanSpec graph base results Sample.reducer plan ∧ results.length = 2 ∧
      graph.planBarrier base results.reverse ⟨"c2"⟩ Sample.schemas Sample.reducer = .ok plan := by
  have hsome : (Sample.secondBarrier.any (fun sample => sample.2.2.1.length = 2)) = true := by
    decide +kernel
  obtain ⟨⟨graph, base, results, plan⟩, hsample, hlength⟩ := (Option.any_eq_true _ _).mp hsome
  simp only [Sample.secondBarrier, Option.bind_eq_bind, Option.bind_eq_some_iff, pure,
    Option.some.injEq, Prod.mk.injEq] at hsample
  obtain ⟨graph, _, base, _, ⟨_, _, middle⟩, _, ⟨results, plan, _⟩, hadvance, rfl, rfl, rfl, rfl⟩ :=
    hsample
  obtain ⟨hplan, _⟩ := Sample.advance_eq_some hadvance
  obtain ⟨hspec, hperm⟩ := planBarrier_of_result_set graph middle results ⟨"c2"⟩ Sample.schemas
    Sample.reducer
  exact ⟨graph, middle, results, plan, hplan, hspec plan hplan, by simpa using hlength,
    (hperm results.reverse (List.reverse_perm results).symm plan).mp hplan⟩

end StateKnot
