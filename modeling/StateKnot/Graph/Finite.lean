import StateKnot.Graph.Template
import StateKnot.Lib.Toposort

/-!
# Finite templates

`validate_finite_template` counts incoming edges, visits nodes whose edges are all
removed, and tracks the depth of every node.  This module reads the loop as the
topological visits of `Lib.Toposort`: it accepts exactly the acyclic templates
whose body paths are no longer than the step limit.
-/

namespace StateKnot

open Lib

variable {E : Encoding}

namespace CompiledGraph

/-- Successor occurrences in a compiled graph. -/
def edges (graph : CompiledGraph E) : NodeId → List NodeId := successorsOf graph.nodes

variable {graph : CompiledGraph E}

theorem edges_nodeId {node : GraphNode} (hnode : node ∈ graph.nodes) :
    graph.edges node.nodeId = node.successors :=
  successorsOf_nodeId graph.ids_nodup hnode

theorem edges_inside (graph : CompiledGraph E) : Inside graph.edges (nodeIds graph.nodes) where
  nodup := graph.ids_nodup
  source := by
    intro u v hedge
    obtain ⟨node, hnode, rfl, _⟩ := exists_of_mem_successorsOf hedge
    exact List.mem_map_of_mem hnode
  target := by
    intro u v hedge
    exact successorsOf_mem graph.wellShaped.closed hedge

theorem flatMap_edges (graph : CompiledGraph E) :
    (nodeIds graph.nodes).flatMap graph.edges = graph.nodes.flatMap GraphNode.successors := by
  rw [nodeIds, List.flatMap_map]
  exact List.flatMap_congr fun node hnode => edges_nodeId hnode

theorem entry_of_no_edge {nodeId : NodeId}
    (hmem : nodeId ∈ nodeIds graph.nodes) (hno : ∀ u, nodeId ∉ graph.edges u) :
    nodeId ∈ graph.entryNodes := by
  obtain ⟨node, hnode, rfl⟩ := List.mem_map.mp hmem
  obtain ⟨entry, hentry, hreach⟩ := graph.wellShaped.connected.reachable node hnode
  cases hreach with
  | refl => exact hentry
  | tail _ hedge => exact absurd hedge (hno _)

end CompiledGraph

/-! ## The loop -/

/-- The accumulators of the source's loop as the state of the visits. -/
def SweepState.layers (queue : List NodeId) (state : SweepState) : Layers NodeId :=
  ⟨queue ++ state.ready, state.incoming, state.depths⟩

variable {graph : CompiledGraph E} {nodeId : NodeId}

/-- Inside the graph the loop over the successors of a node only removes edges, and queues
only successors. -/
theorem foldlM_relaxEdge {targets : List NodeId}
    (htargets : ∀ target ∈ targets, target ∈ nodeIds graph.nodes) (depth : Nat)
    (queue : List NodeId) (state : SweepState) :
    ∃ state', targets.foldlM (relaxEdge graph depth) state = .ok state' ∧
      state'.layers queue = targets.foldl (relax depth) (state.layers queue) ∧
      ∀ nodeId ∈ state'.ready, nodeId ∈ state.ready ∨ nodeId ∈ targets := by
  induction targets generalizing state with
  | nil => exact ⟨state, rfl, rfl, fun _ h => .inl h⟩
  | cons next targets ih =>
    obtain ⟨state', hfold, hlayers, hready⟩ := ih (fun target h => htargets target (by simp [h])) {
      incoming := Function.update state.incoming next (state.incoming next - 1)
      depths := Function.update state.depths next (max (state.depths next) (depth + 1))
      ready := if state.incoming next - 1 = 0 then state.ready ++ [next] else state.ready }
    refine ⟨state', ?_, ?_, ?_⟩
    · have hnext : ¬ next ∉ nodeIds graph.nodes := not_not.mpr (htargets next (by simp))
      rw [List.foldlM_cons, relaxEdge, reject, if_neg hnext]
      exact hfold
    · rw [hlayers, List.foldl_cons]
      congr 1
      by_cases hlast : state.incoming next - 1 = 0 <;> simp [SweepState.layers, relax, hlast]
    · intro nodeId hmem
      rcases hready nodeId hmem with hold | htarget
      · by_cases hlast : state.incoming next - 1 = 0
        · simp only [hlast, if_true, List.mem_append, List.mem_singleton] at hold
          rcases hold with hold | rfl
          · exact .inl hold
          · exact .inr (by simp)
        · simp only [hlast, if_false] at hold
          exact .inl hold
      · exact .inr (by simp [htarget])

/-- A visit of a body node deeper than the step limit. -/
def TooDeep (graph : CompiledGraph E) (ports : List NodeId) (visit : NodeId × Nat) : Prop :=
  visit.1 ∉ ports ∧ visit.2 > graph.limits.maximumSupersteps.value

instance {graph : CompiledGraph E} {ports : List NodeId} {visit : NodeId × Nat} :
    Decidable (TooDeep graph ports visit) :=
  inferInstanceAs (Decidable (_ ∧ _))

/-- The loop counts the visits and stops at the first one that is too deep. -/
theorem sweepTemplate_eq {ports : List NodeId} {fuel : Nat}
    {queue : List NodeId} {incoming depths : NodeId → Nat} {visited : Nat}
    (hqueue : ∀ nodeId ∈ queue, nodeId ∈ nodeIds graph.nodes) :
    sweepTemplate graph ports fuel queue incoming depths visited =
      if ∃ visit ∈ visits graph.edges fuel ⟨queue, incoming, depths⟩, TooDeep graph ports visit then
        .error .templateStepLimit
      else .ok (visited + (visits graph.edges fuel ⟨queue, incoming, depths⟩).length) := by
  induction fuel generalizing queue incoming depths visited with
  | zero => simp [sweepTemplate, visits, pure, Except.pure]
  | succ fuel ih =>
    cases queue with
    | nil => simp [sweepTemplate, visits, pure, Except.pure]
    | cons nodeId queue =>
      obtain ⟨node, hnode, rfl⟩ := List.mem_map.mp (hqueue nodeId (by simp))
      have htargets : ∀ target ∈ node.successors, target ∈ nodeIds graph.nodes :=
        graph.wellShaped.closed.successors_mem node hnode
      rw [sweepTemplate, visits, CompiledGraph.edges_nodeId hnode]
      by_cases hdeep : node.nodeId ∉ ports ∧
          depths node.nodeId > graph.limits.maximumSupersteps.value
      · rw [reject, if_pos hdeep, if_pos ⟨_, List.mem_cons_self, hdeep⟩]
        rfl
      · obtain ⟨state, hfold, hlayers, hready⟩ := foldlM_relaxEdge htargets
          (depths node.nodeId) queue ⟨incoming, depths, []⟩
        have hnext : ∀ id ∈ queue ++ state.ready, id ∈ nodeIds graph.nodes := by
          intro id hid
          rcases List.mem_append.mp hid with hid | hid
          · exact hqueue id (by simp [hid])
          · rcases hready id hid with hnil | htarget
            · simp at hnil
            · exact htargets id htarget
        have hfound : graph.node node.nodeId = some node :=
          CompiledGraph.node_eq_some.mpr ⟨hnode, rfl⟩
        have hhead : ¬ TooDeep graph ports (node.nodeId, depths node.nodeId) := hdeep
        simp only [SweepState.layers, List.append_nil] at hlayers
        rw [reject, if_neg hdeep, ok_bind, hfound, okOr, ok_bind, hfold, ok_bind, ih hnext, hlayers]
        simp only [List.mem_cons, exists_eq_or_imp, hhead, false_or, List.length_cons]
        rw [Nat.add_assoc, Nat.add_comm 1]

/-- Nodes of a template in the order of the visits, with their depths. -/
def templateVisits (graph : CompiledGraph E) : List (NodeId × Nat) :=
  allVisits graph.edges (nodeIds graph.nodes)

theorem validateFiniteTemplate_eq (graph : CompiledGraph E) (ports : List NodeId) :
    validateFiniteTemplate graph ports =
      if ∃ visit ∈ templateVisits graph, TooDeep graph ports visit then
        .error .templateStepLimit
      else if (templateVisits graph).length ≠ graph.nodes.length then .error .cyclicTemplate
      else .ok () := by
  have htargets : forM (graph.nodes.flatMap GraphNode.successors) (fun target =>
      reject (target ∉ nodeIds graph.nodes) GraphCompositionError.identityCollision) = .ok () := by
    rw [forM_eq_ok]
    intro target htarget
    obtain ⟨node, hnode, htarget⟩ := List.mem_flatMap.mp htarget
    rw [reject_eq_ok, not_not]
    exact graph.wellShaped.closed.successors_mem node hnode target htarget
  have hqueue : ∀ nodeId ∈ (nodeIds graph.nodes).filter
      (fun nodeId => (graph.nodes.flatMap GraphNode.successors).count nodeId = 0),
      nodeId ∈ nodeIds graph.nodes := fun nodeId h => List.mem_of_mem_filter h
  have hvisits : templateVisits graph = visits graph.edges graph.nodes.length
      ⟨(nodeIds graph.nodes).filter
        (fun nodeId => (graph.nodes.flatMap GraphNode.successors).count nodeId = 0),
        fun nodeId => (graph.nodes.flatMap GraphNode.successors).count nodeId, fun _ => 1⟩ := by
    rw [templateVisits, allVisits, initialLayers, graph.flatMap_edges, nodeIds, List.length_map]
  rw [validateFiniteTemplate, htargets, ok_bind]
  simp only
  rw [sweepTemplate_eq hqueue, ← hvisits, Nat.zero_add]
  split
  · rfl
  · rw [ok_bind, reject]

/-! ## What a finite template is -/

/-- A path through the body of a template that starts at an entry node. -/
structure BodyPath (graph : CompiledGraph E) (ports path : List NodeId) : Prop where
  chain : path.IsChain (Edge graph.edges)
  entry : ∃ entry ∈ graph.entryNodes, path.head? = some entry
  body : ∀ nodeId ∈ path, nodeId ∉ ports

theorem length_templateVisits_iff (graph : CompiledGraph E) :
    (templateVisits graph).length = graph.nodes.length ↔
      ((templateVisits graph).map Prod.fst).Perm (nodeIds graph.nodes) := by
  have hids : (nodeIds graph.nodes).length = graph.nodes.length := by simp [nodeIds]
  constructor
  · intro hlength
    have hsubperm := (allVisits_nodup graph.edges_inside).subperm
      (fun _ => mem_univ_of_mem_allVisits graph.edges_inside)
    exact hsubperm.perm_of_length_le (by rw [hids, ← hlength, templateVisits, List.length_map])
  · intro hperm
    rw [← hids, ← hperm.length_eq, List.length_map]

/-- On a path every node but the last has a successor. -/
theorem exists_edge_of_mem_path {path : List NodeId} {last : NodeId}
    (hchain : path.IsChain (Edge graph.edges)) (hlast : path.getLast? = some last) (hmem : nodeId ∈ path) :
    nodeId = last ∨ ∃ target, target ∈ graph.edges nodeId := by
  induction path with
  | nil => simp at hmem
  | cons first rest ih =>
    cases rest with
    | nil =>
      obtain rfl : first = last := by simpa using hlast
      exact .inl (by simpa using hmem)
    | cons next rest =>
      rw [List.isChain_cons_cons] at hchain
      rcases List.mem_cons.mp hmem with rfl | hmem
      · exact .inr ⟨next, hchain.1⟩
      · exact ih hchain.2 (by simpa using hlast) hmem

/-- A path that starts at a node of the graph stays in the graph. -/
theorem mem_nodeIds_of_path {first : NodeId} {rest : List NodeId}
    (hchain : (first :: rest).IsChain (Edge graph.edges)) (hfirst : first ∈ nodeIds graph.nodes) (hmem : nodeId ∈ first :: rest) : nodeId ∈ nodeIds graph.nodes := by
  induction rest generalizing first with
  | nil =>
    rw [List.mem_singleton.mp hmem]
    exact hfirst
  | cons next rest ih =>
    rw [List.isChain_cons_cons] at hchain
    rcases List.mem_cons.mp hmem with rfl | hmem
    · exact hfirst
    · exact ih hchain.2 (graph.edges_inside.target first next hchain.1) hmem

theorem validateFiniteTemplate_visits {ports : List NodeId} {u : Unit} :
    validateFiniteTemplate graph ports = .ok u ↔
      (∀ visit ∈ templateVisits graph, ¬ TooDeep graph ports visit) ∧ Acyclic graph.edges := by
  rw [validateFiniteTemplate_eq, ← allVisits_perm_iff graph.edges_inside, ← templateVisits,
    ← length_templateVisits_iff]
  split
  next hdeep =>
    obtain ⟨visit, hvisit, hdeep⟩ := hdeep
    simp only [reduceCtorEq, false_iff, not_and]
    exact fun h => absurd hdeep (h visit hvisit)
  next hshallow =>
    push Not at hshallow
    split
    next hcyclic => simp [hcyclic]
    next hall => exact ⟨fun _ => ⟨hshallow, not_not.mp hall⟩, fun _ => rfl⟩

/-- The finiteness check accepts exactly the acyclic templates whose body paths fit the
step limit. -/
theorem validateFiniteTemplate_eq_ok {ports : List NodeId}
    (hpure : ∀ nodeId ∈ ports, graph.edges nodeId = []) {u : Unit} :
    validateFiniteTemplate graph ports = .ok u ↔ Acyclic graph.edges ∧
      ∀ path, BodyPath graph ports path →
        path.length ≤ graph.limits.maximumSupersteps.value := by
  have hinside := graph.edges_inside
  rw [validateFiniteTemplate_visits]
  constructor
  · intro ⟨hshallow, hacyclic⟩
    refine ⟨hacyclic, fun path hpath => ?_⟩
    obtain ⟨entry, hentry, hhead⟩ := hpath.entry
    obtain ⟨rest, rfl⟩ := List.head?_eq_some_iff.mp hhead
    obtain ⟨before, last, hsplit⟩ := (List.eq_nil_or_concat (entry :: rest)).resolve_left (by simp)
    rw [List.concat_eq_append] at hsplit
    have hlast : last ∈ entry :: rest := by simp [hsplit]
    have hids : last ∈ nodeIds graph.nodes := mem_nodeIds_of_path hpath.chain
      (graph.wellShaped.closed.entry_mem entry hentry) hlast
    rw [← ((allVisits_perm_iff hinside).mpr hacyclic).mem_iff] at hids
    obtain ⟨⟨nodeId, depth⟩, hvisit, rfl⟩ := List.mem_map.mp hids
    have hlength := length_le_of_mem_allVisits hinside hvisit (hsplit ▸ hpath.chain)
    have hdepth : depth ≤ graph.limits.maximumSupersteps.value := by
      by_contra hdeep
      exact hshallow _ hvisit ⟨hpath.body _ hlast, Nat.lt_of_not_le hdeep⟩
    rw [hsplit, List.length_append, List.length_singleton]
    omega
  · intro ⟨hacyclic, hpaths⟩
    refine ⟨fun visit hvisit hdeep => ?_, hacyclic⟩
    obtain ⟨nodeId, depth⟩ := visit
    obtain ⟨first, rest, hchain, hlast, hlength, hno⟩ := exists_path_of_mem_allVisits hinside hvisit
    have hedges : ∀ {id}, id ∈ first :: rest → id = nodeId ∨ ∃ target, target ∈ graph.edges id :=
      exists_edge_of_mem_path hchain hlast
    have hfirst : first ∈ nodeIds graph.nodes := by
      rcases hedges List.mem_cons_self with rfl | ⟨target, hedge⟩
      · exact mem_univ_of_mem_allVisits hinside (List.mem_map_of_mem hvisit)
      · exact hinside.source first target hedge
    have hpath : BodyPath graph ports (first :: rest) := by
      refine ⟨hchain, ⟨first, CompiledGraph.entry_of_no_edge hfirst hno, rfl⟩, ?_⟩
      intro id hid hport
      rcases hedges hid with rfl | ⟨target, hedge⟩
      · exact hdeep.1 hport
      · simp [hpure id hport] at hedge
    have hle := hpaths _ hpath
    have hgt : depth > graph.limits.maximumSupersteps.value := hdeep.2
    omega

/-! ## Accepted templates -/

/-- Identities of the nodes that may end the run: the return ports of a template. -/
def CompiledGraph.terminalIds (graph : CompiledGraph E) : List NodeId :=
  nodeIds (graph.nodes.filter GraphNode.terminal)

/-- Terminal nodes are pure exits that no run enters at, there is one of them and a node of
another kind, no path returns to its start, and no body path outgrows the step limit. -/
structure FiniteTemplate (graph : CompiledGraph E) : Prop where
  exits : ∀ node ∈ graph.nodes, node.terminal = true →
    node.nodeId ∉ graph.entryNodes ∧ node.successors = []
  port : ∃ node ∈ graph.nodes, node.terminal = true
  body : ∃ node ∈ graph.nodes, node.terminal = false
  acyclic : Acyclic graph.edges
  steps : ∀ path, BodyPath graph graph.terminalIds path →
    path.length ≤ graph.limits.maximumSupersteps.value

theorem mem_terminalIds :
    nodeId ∈ graph.terminalIds ↔
      ∃ node ∈ graph.nodes, node.terminal = true ∧ node.nodeId = nodeId := by
  rw [CompiledGraph.terminalIds, nodeIds, List.mem_map]
  simp only [List.mem_filter, and_assoc]

theorem GraphNode.pure_of_successors_eq_nil {node : GraphNode} (h : node.successors = []) :
    ¬ (node.continueTo.isSome ∨ node.routes.routes ≠ [] ∨ node.waitTo.isSome) := by
  have hsets : node.successorSets = [] := by
    rw [List.eq_nil_iff_forall_not_mem]
    intro set hset
    obtain ⟨target, htarget⟩ := List.exists_mem_of_ne_nil _ (successorSets_nonempty hset)
    have hmem := mem_successors.mpr ⟨set, hset, htarget⟩
    simp [h] at hmem
  simpa [successorSets, and_assoc] using hsets

theorem edges_eq_nil_of_mem_terminalIds
    (hexits : ∀ node ∈ graph.nodes, node.terminal = true → node.successors = []) :
    ∀ nodeId ∈ graph.terminalIds, graph.edges nodeId = [] := by
  intro nodeId hport
  obtain ⟨node, hnode, hterminal, rfl⟩ := mem_terminalIds.mp hport
  rw [CompiledGraph.edges_nodeId hnode, hexits node hnode hterminal]

namespace SharedStateSubgraph

theorem ports_eq_terminalIds (subgraph : SharedStateSubgraph E) :
    subgraph.ports = subgraph.graph.terminalIds :=
  subgraph.ports_eq

theorem finiteTemplate (subgraph : SharedStateSubgraph E) : FiniteTemplate subgraph.graph := by
  have hports := subgraph.ports_eq_terminalIds
  have hfinite := subgraph.finite
  rw [hports, validateFiniteTemplate_eq_ok (edges_eq_nil_of_mem_terminalIds subgraph.ports_pure)]
    at hfinite
  refine ⟨fun node hnode hterminal => ⟨fun hentry => ?_, subgraph.ports_pure node hnode hterminal⟩,
    ?_, ?_, hfinite.1, hfinite.2⟩
  · exact subgraph.entry_not_port _ hentry ((nodeId_mem_ports hnode).mpr hterminal)
  · obtain ⟨port, hport⟩ := List.exists_mem_of_ne_nil _ subgraph.ports_nonempty
    obtain ⟨node, hnode, hterminal, _⟩ := mem_ports_iff.mp hport
    exact ⟨node, hnode, hterminal⟩
  · obtain ⟨entry, hentry⟩ := List.exists_mem_of_ne_nil _ subgraph.graph.wellShaped.entry_nonempty
    obtain ⟨node, hnode, rfl⟩ :=
      List.mem_map.mp (subgraph.graph.wellShaped.closed.entry_mem entry hentry)
    refine ⟨node, hnode, ?_⟩
    have hnot := subgraph.entry_not_port _ hentry
    rw [nodeId_mem_ports hnode] at hnot
    simpa using hnot

theorem graph_of_new {subgraph : SharedStateSubgraph E}
    (h : new graph = .ok subgraph) : subgraph.graph = graph := by
  unfold new at h
  split at h
  · cases h
  obtain ⟨_, _, h⟩ := attach_eq_ok.mp h
  split at h
  · cases h
  split at h
  · cases h
  obtain ⟨_, _, h⟩ := attach_eq_ok.mp h
  cases h
  rfl

theorem exists_new_eq_ok (hchild : graph.childRuns = none)
    (htemplate : FiniteTemplate graph) : ∃ subgraph, new graph = .ok subgraph := by
  have hexits : ∀ node ∈ graph.nodes, node.terminal = true → node.successors = [] :=
    fun node hnode hterminal => (htemplate.exits node hnode hterminal).2
  have hmixed : forM graph.nodes (fun node =>
      reject (node.terminal = true ∧
        (node.continueTo.isSome ∨ node.routes.routes ≠ [] ∨ node.waitTo.isSome))
        (GraphCompositionError.mixedReturnPort node.nodeId)) = .ok () := by
    rw [forM_eq_ok]
    intro node hnode
    rw [reject_eq_ok]
    intro ⟨hterminal, hcontrol⟩
    exact GraphNode.pure_of_successors_eq_nil (hexits node hnode hterminal) hcontrol
  have hports : graph.terminalIds ≠ [] := by
    obtain ⟨node, hnode, hterminal⟩ := htemplate.port
    exact List.ne_nil_of_mem (mem_terminalIds.mpr ⟨node, hnode, hterminal, rfl⟩)
  have hentry : ¬ ∃ entry ∈ graph.entryNodes.nodes, entry ∈ graph.terminalIds := by
    intro ⟨entry, hmem, hport⟩
    obtain ⟨node, hnode, hterminal, rfl⟩ := mem_terminalIds.mp hport
    exact (htemplate.exits node hnode hterminal).1 hmem
  have hfinite : validateFiniteTemplate graph graph.terminalIds = .ok () :=
    (validateFiniteTemplate_eq_ok (edges_eq_nil_of_mem_terminalIds hexits)).mpr
      ⟨htemplate.acyclic, htemplate.steps⟩
  unfold CompiledGraph.terminalIds at hports hentry hfinite
  unfold new
  rw [dif_neg (not_not.mpr hchild), exists_attach_eq_ok]
  refine ⟨(), hmixed, ?_⟩
  rw [dif_neg hports, dif_neg hentry, exists_attach_eq_ok]
  exact ⟨(), hfinite, _, rfl⟩

end SharedStateSubgraph

/-- A compiled graph becomes a template exactly when it delegates to no child runs and is a
finite template; its return ports are then its terminal nodes.  The counting loop visits no
node twice, it visits every node exactly when there is no cycle, and its result depends on
the visits alone. -/
theorem subgraph_template_accepted_iff (graph : CompiledGraph E) :
    ((∃ subgraph, SharedStateSubgraph.new graph = .ok subgraph) ↔
      graph.childRuns = none ∧ FiniteTemplate graph) ∧
    (∀ subgraph, SharedStateSubgraph.new graph = .ok subgraph →
      subgraph.graph = graph ∧ subgraph.ports = graph.terminalIds) ∧
    ((templateVisits graph).map Prod.fst).Nodup ∧
    (((templateVisits graph).map Prod.fst).Perm (nodeIds graph.nodes) ↔ Acyclic graph.edges) ∧
    ∀ ports, validateFiniteTemplate graph ports =
      if ∃ visit ∈ templateVisits graph, TooDeep graph ports visit then
        .error .templateStepLimit
      else if (templateVisits graph).length ≠ graph.nodes.length then .error .cyclicTemplate
      else .ok () := by
  refine ⟨⟨?_, ?_⟩, ?_, allVisits_nodup graph.edges_inside, allVisits_perm_iff graph.edges_inside,
    validateFiniteTemplate_eq graph⟩
  · intro ⟨subgraph, h⟩
    rw [← SharedStateSubgraph.graph_of_new h]
    exact ⟨subgraph.child_runs_none, subgraph.finiteTemplate⟩
  · intro ⟨hchild, htemplate⟩
    exact SharedStateSubgraph.exists_new_eq_ok hchild htemplate
  · intro subgraph h
    have hgraph := SharedStateSubgraph.graph_of_new h
    refine ⟨hgraph, ?_⟩
    rw [← hgraph]
    exact subgraph.ports_eq_terminalIds

/-- A body node that continues to a return port, with one delegation slot. -/
def Sample.delegating : Option (CompiledGraph .compact) := do
  let successors ← (ReadyNodes.tryNew [⟨"exit"⟩]).toOption
  let body ← (GraphNode.new ⟨"body"⟩ (some successors) .empty none false).toOption
  let exit ← (GraphNode.new ⟨"exit"⟩ none .empty none true).toOption
  let graph ← compile [⟨"body"⟩] [body, exit] 1
  let limits ← (ChildRunTopologyLimits.new 1 1 1).toOption
  let policy ← (GraphChildRunPolicy.new limits [⟨⟨"body"⟩, ⟨"slot"⟩, ⟨identity, ⟨[]⟩⟩,
    graph.reference, schema, schema⟩]).toOption
  (graph.withChildRuns policy).toOption

/-- A finite template that delegates to child runs is refused. -/
theorem subgraph_refuses_delegation :
    ∃ graph : CompiledGraph .compact, FiniteTemplate graph ∧
      SharedStateSubgraph.new graph = .error .childDelegationUnsupported := by
  have hsome : Sample.delegating.any (fun graph : CompiledGraph .compact =>
      graph.childRuns.isSome ∧
      (∀ node ∈ graph.nodes, node.terminal = true →
        node.nodeId ∉ graph.entryNodes ∧ node.successors = []) ∧
      (∃ node ∈ graph.nodes, node.terminal = true) ∧
      (∃ node ∈ graph.nodes, node.terminal = false) ∧
      (validateFiniteTemplate graph graph.terminalIds).toOption = some ()) = true := by
    decide +kernel
  obtain ⟨graph, _, hgraph⟩ := (Option.any_eq_true _ _).mp hsome
  obtain ⟨hchild, hexits, hport, hbody, hfinite⟩ := of_decide_eq_true hgraph
  obtain ⟨hacyclic, hsteps⟩ := (validateFiniteTemplate_eq_ok (edges_eq_nil_of_mem_terminalIds
    (fun node hnode hterminal => (hexits node hnode hterminal).2))).mp
    (toOption_eq_some.mp hfinite)
  refine ⟨graph, ⟨hexits, hport, hbody, hacyclic, hsteps⟩, ?_⟩
  rw [SharedStateSubgraph.new, dif_pos]
  intro hnone
  simp [hnone] at hchild

end StateKnot
