import StateKnot.Graph.PlanSpec

/-!
# Superstep runs

A run starts from a checkpoint whose ready set is the graph's entry nodes and takes
one barrier after the other.  The step lemma says what one barrier preserves; by
induction it holds in every checkpoint of a run: ready nodes are nodes of the graph,
no superstep is wider than the graph allows, and the ready set is empty exactly
after a terminal plan.  A barrier needs a ready node, so a terminal checkpoint is
the last one.
-/

namespace StateKnot

open Lib

variable {E : Encoding}

/-- A checkpoint of a run with the plan that produced it; the first one has none. -/
abbrev RunEntry (E : Encoding) := Checkpoint E × Option (GraphBarrierPlan E)

/-- The finite runs of a graph under a validator and a reducer, oldest checkpoint first. -/
inductive SuperstepChain (graph : CompiledGraph E) (schemas : GraphSchemaValidator)
    (reducer : GraphReducer E) : List (RunEntry E) → Prop where
  | start {first : Checkpoint E} (hgraph : first.graph = graph.reference)
      (hsuperstep : first.superstep = .initial) (hready : first.readyNodes = graph.entryNodes) :
      SuperstepChain graph schemas reducer [(first, none)]
  | step {chain : List (RunEntry E)} {base : Checkpoint E}
      {producer : Option (GraphBarrierPlan E)} {results : List (PendingNodeResult E)}
      {successorId : CheckpointId} {plan : GraphBarrierPlan E} {journalHead : JournalHead}
      {next : Checkpoint E}
      (hchain : SuperstepChain graph schemas reducer (chain ++ [(base, producer)]))
      (hplan : graph.planBarrier base results successorId schemas reducer = .ok plan)
      (hcommit : Checkpoint.commit plan.barrier.successor journalHead = .ok next) :
      SuperstepChain graph schemas reducer (chain ++ [(base, producer)] ++ [(next, some plan)])

/-- What holds of the checkpoint at position `index` of a run. -/
structure EntryInvariant (graph : CompiledGraph E) (index : Nat) (entry : RunEntry E) : Prop where
  ready_mem : ∀ node ∈ entry.1.readyNodes, node ∈ nodeIds graph.nodes
  ready_le : entry.1.readyNodes.len ≤ graph.limits.maximumParallelism
  graph_eq : entry.1.graph = graph.reference
  superstep_eq : entry.1.superstep.value = index
  superstep_le : index ≤ graph.limits.maximumSupersteps.value
  ready_empty_iff : entry.1.readyNodes.nodes = [] ↔
    ∃ plan output, entry.2 = some plan ∧ plan.disposition = .terminal output

theorem entryInvariant_start {graph : CompiledGraph E} {first : Checkpoint E}
    (hgraph : first.graph = graph.reference) (hsuperstep : first.superstep = .initial)
    (hready : first.readyNodes = graph.entryNodes) : EntryInvariant graph 0 (first, none) where
  ready_mem := fun node hnode => graph.wellShaped.closed.entry_mem node (hready ▸ hnode)
  ready_le := hready ▸ graph.wellShaped.within.entry_le
  graph_eq := hgraph
  superstep_eq := by rw [hsuperstep]; rfl
  superstep_le := Nat.zero_le _
  ready_empty_iff := by simp [hready, graph.wellShaped.entry_nonempty]

/-- One barrier: the successor of a planned checkpoint is the next checkpoint of the run. -/
theorem entryInvariant_step {graph : CompiledGraph E} {schemas : GraphSchemaValidator}
    {reducer : GraphReducer E} {base next : Checkpoint E} {results : List (PendingNodeResult E)}
    {successorId : CheckpointId} {plan : GraphBarrierPlan E} {journalHead : JournalHead}
    (hplan : graph.planBarrier base results successorId schemas reducer = .ok plan)
    (hcommit : Checkpoint.commit plan.barrier.successor journalHead = .ok next) :
    EntryInvariant graph (base.superstep.value + 1) (next, some plan) := by
  obtain ⟨hgraph, hsuperstep, _⟩ := GraphBarrierPlanner.base_of_plan hplan
  have hspec := GraphBarrierPlanner.plan_spec hplan
  obtain ⟨hwrite, _⟩ := Checkpoint.commit_eq_ok hcommit
  have hready : next.readyNodes = plan.barrier.successor.readyNodes := by rw [← hwrite]
  refine ⟨fun node hnode => ?_, hready ▸ hspec.ready_le, ?_, ?_, hsuperstep, ?_⟩
  · obtain ⟨result, _, successors, hsuccessors, hmem⟩ := (hspec.ready_iff node).mp (hready ▸ hnode)
    obtain ⟨declaring, hdeclaring, hdeclared⟩ := Option.bind_eq_some_iff.mp hsuccessors
    exact graph.wellShaped.closed.successors_mem declaring
      (CompiledGraph.node_eq_some.mp hdeclaring).1 node
      (GraphNode.mem_successors_of_declared hdeclared hmem)
  · have : next.graph = plan.barrier.successor.graph := by rw [← hwrite]
    rw [this, hspec.graph_eq, hgraph]
  · have : next.superstep = plan.barrier.successor.superstep := by rw [← hwrite]
    rw [this, hspec.superstep_eq]
  · rw [hready, hspec.disposed.ready_empty_iff]
    simp

namespace SuperstepChain

variable {graph : CompiledGraph E} {schemas : GraphSchemaValidator} {reducer : GraphReducer E}
  {chain : List (RunEntry E)}

/-- Every checkpoint of a run satisfies the invariant, and only the last can be terminal. -/
theorem invariant (h : SuperstepChain graph schemas reducer chain) :
    ∀ index entry, chain[index]? = some entry → EntryInvariant graph index entry ∧
      (index + 1 < chain.length → entry.1.readyNodes.nodes ≠ []) := by
  induction h with
  | start hgraph hsuperstep hready =>
    intro index entry hentry
    obtain ⟨rfl, rfl⟩ : index = 0 ∧ entry = (_, none) := by
      simpa [List.getElem?_singleton, eq_comm] using hentry
    exact ⟨entryInvariant_start hgraph hsuperstep hready, by simp⟩
  | @step chain base producer results successorId plan journalHead next _ hplan hcommit ih =>
    intro index entry hentry
    have hbase := (ih chain.length (base, producer) (by simp)).1.superstep_eq
    rw [List.getElem?_append] at hentry
    split at hentry
    next hindex =>
      obtain ⟨hinvariant, hready⟩ := ih index entry hentry
      refine ⟨hinvariant, fun _ => ?_⟩
      -- the last checkpoint so far was planned from, so its ready set is not empty either
      by_cases hlast : index + 1 < (chain ++ [(base, producer)]).length
      · exact hready hlast
      · obtain rfl : index = chain.length := by
          rw [List.length_append, List.length_singleton] at hindex hlast
          omega
        obtain rfl : (base, producer) = entry := by simpa using hentry
        exact (GraphBarrierPlanner.base_of_plan hplan).2.2
    next hindex =>
      rw [List.getElem?_singleton] at hentry
      split at hentry
      next hzero =>
        obtain rfl := Option.some.inj hentry
        rw [List.length_append, List.length_singleton] at hindex hzero
        have hlength : index = base.superstep.value + 1 := by
          simp only at hbase
          omega
        refine ⟨hlength ▸ entryInvariant_step hplan hcommit, fun hlt => ?_⟩
        simp only [List.length_append, List.length_singleton] at hlt
        omega
      next => cases hentry

theorem ne_nil (h : SuperstepChain graph schemas reducer chain) : chain ≠ [] := by
  cases h <;> simp

end SuperstepChain

/-- The superstep run invariant: every checkpoint of a run stays inside the graph and its
limits, the ready set is empty exactly after a terminal plan, no plan succeeds on an empty
ready set, and so a run has at most `maximum_supersteps` barriers and ends when it
terminates. -/
theorem superstep_run_invariant (graph : CompiledGraph E) (schemas : GraphSchemaValidator)
    (reducer : GraphReducer E) :
    (∀ chain, SuperstepChain graph schemas reducer chain →
      (∀ index checkpoint producer, chain[index]? = some (checkpoint, producer) →
        (∀ node ∈ checkpoint.readyNodes, node ∈ nodeIds graph.nodes) ∧
        checkpoint.readyNodes.len ≤ graph.limits.maximumParallelism ∧
        checkpoint.graph = graph.reference ∧
        checkpoint.superstep.value = index ∧
        checkpoint.superstep.value ≤ graph.limits.maximumSupersteps.value ∧
        (checkpoint.readyNodes.nodes = [] ↔
          ∃ plan output, producer = some plan ∧ plan.disposition = .terminal output) ∧
        (checkpoint.readyNodes.nodes = [] → index + 1 = chain.length)) ∧
      chain.length ≤ graph.limits.maximumSupersteps.value + 1) ∧
    ∀ (base : Checkpoint E) (results : List (PendingNodeResult E)) (successorId : CheckpointId),
      base.readyNodes.nodes = [] →
        ∀ plan, graph.planBarrier base results successorId schemas reducer ≠ .ok plan := by
  refine ⟨fun chain hchain => ⟨?_, ?_⟩, ?_⟩
  · intro index checkpoint producer hentry
    obtain ⟨hinvariant, hready⟩ := hchain.invariant index (checkpoint, producer) hentry
    refine ⟨hinvariant.ready_mem, hinvariant.ready_le, hinvariant.graph_eq,
      hinvariant.superstep_eq, hinvariant.superstep_eq ▸ hinvariant.superstep_le,
      hinvariant.ready_empty_iff, fun hempty => ?_⟩
    have hindex := (List.getElem?_eq_some_iff.mp hentry).1
    by_contra hne
    exact hready (by omega) hempty
  · have hpos := List.length_pos_of_ne_nil hchain.ne_nil
    have hlast : chain[chain.length - 1]? = some (chain[chain.length - 1]) :=
      List.getElem?_eq_getElem (by omega)
    have hle := (hchain.invariant _ _ hlast).1.superstep_le
    omega
  · intro base results successorId hempty plan hplan
    exact (GraphBarrierPlanner.base_of_plan hplan).2.2 hempty

/-- A complete run of the sample graph, up to its terminal checkpoint. -/
def Sample.run : Option (CompiledGraph .compact × List (RunEntry .compact)) := do
  let graph ← Sample.graph
  let first ← Sample.first graph
  let (_, plan₁, second) ← Sample.advance graph first [(⟨"start"⟩, .continue)] ⟨"c1"⟩
  let (_, plan₂, third) ← Sample.advance graph second
    [(⟨"right"⟩, .continue), (⟨"left"⟩, .continue)] ⟨"c2"⟩
  let output ← (SchemaPayload.new Sample.schema Sample.data).toOption
  let (_, plan₃, last) ← Sample.advance graph third [(⟨"done"⟩, .terminal output)] ⟨"c3"⟩
  return (graph, [(first, none), (second, some plan₁), (third, some plan₂), (last, some plan₃)])

private theorem Sample.first_eq_some {graph : CompiledGraph .compact}
    {first : Checkpoint .compact} (h : Sample.first graph = some first) :
    first.graph = graph.reference ∧ first.superstep = .initial ∧
      first.readyNodes = graph.entryNodes := by
  simp only [Sample.first, Option.bind_eq_bind, Option.bind_eq_some_iff, toOption_eq_some] at h
  obtain ⟨state, _, write, hwrite, hcommit⟩ := h
  obtain ⟨_, _, _, hsuperstep, hgraph, _, hready, _⟩ := CheckpointWrite.build_eq_ok hwrite
  obtain ⟨rfl, _⟩ := Checkpoint.commit_eq_ok hcommit
  exact ⟨hgraph, hsuperstep, hready⟩

private theorem Sample.run_superstepChain {graph : CompiledGraph .compact}
    {chain : List (RunEntry .compact)} (h : Sample.run = some (graph, chain)) :
    SuperstepChain graph Sample.schemas Sample.reducer chain := by
  simp only [Sample.run, Option.bind_eq_bind, Option.bind_eq_some_iff, pure, Option.some.injEq,
    Prod.mk.injEq] at h
  obtain ⟨graph, _, first, hfirst, ⟨_, plan₁, second⟩, h₁, ⟨_, plan₂, third⟩, h₂, _, _,
    ⟨_, plan₃, last⟩, h₃, rfl, rfl⟩ := h
  obtain ⟨hgraph, hsuperstep, hready⟩ := Sample.first_eq_some hfirst
  obtain ⟨hplan₁, _, hcommit₁⟩ := Sample.advance_eq_some h₁
  obtain ⟨hplan₂, _, hcommit₂⟩ := Sample.advance_eq_some h₂
  obtain ⟨hplan₃, _, hcommit₃⟩ := Sample.advance_eq_some h₃
  have hsecond : SuperstepChain graph Sample.schemas Sample.reducer
      ([] ++ [(first, none)] ++ [(second, some plan₁)]) :=
    .step (.start hgraph hsuperstep hready) hplan₁ hcommit₁
  have hthird : SuperstepChain graph Sample.schemas Sample.reducer
      ([(first, none)] ++ [(second, some plan₁)] ++ [(third, some plan₂)]) :=
    .step hsecond hplan₂ hcommit₂
  exact .step hthird hplan₃ hcommit₃

/-- The sample run takes three barriers and its last checkpoint is terminal. -/
theorem superstep_run_invariant_sample : ∃ graph chain,
    SuperstepChain graph Sample.schemas Sample.reducer chain ∧ chain.length = 4 ∧
      chain.length ≤ graph.limits.maximumSupersteps.value + 1 ∧
      ∃ last producer, chain[3]? = some (last, producer) ∧ last.superstep.value = 3 ∧
        ∀ results successorId plan,
          graph.planBarrier last results successorId Sample.schemas Sample.reducer ≠ .ok plan := by
  have hsome : (Sample.run.any (fun sample => sample.2.length = 4 ∧
      sample.2[3]?.any (fun entry => entry.1.readyNodes.nodes = []))) = true := by
    decide +kernel
  obtain ⟨⟨graph, chain⟩, hrun, hlast⟩ := (Option.any_eq_true _ _).mp hsome
  obtain ⟨hlength, hlast⟩ := of_decide_eq_true hlast
  obtain ⟨⟨last, producer⟩, hentry, hempty⟩ := (Option.any_eq_true _ _).mp hlast
  have hchain := Sample.run_superstepChain hrun
  obtain ⟨hruns, habsorbing⟩ := superstep_run_invariant graph Sample.schemas Sample.reducer
  obtain ⟨hentries, hbound⟩ := hruns chain hchain
  exact ⟨graph, chain, hchain, hlength, hbound, last, producer, hentry,
    (hentries 3 last producer hentry).2.2.2.1,
    fun results successorId => habsorbing last results successorId (of_decide_eq_true hempty)⟩

end StateKnot
