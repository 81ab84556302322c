import StateKnot.Graph.Compile

/-!
# Subgraph templates and calls

A shared-state subgraph is an acyclic compiled graph whose terminal nodes are
symbolic return ports.  A call replaces one node of a parent graph by copies of a
template's body: once, or as a bounded loop that enters the next copy through a
repeat port.  The parent's call site declares one route for each port, which is
where control goes when the template returns there.
-/

namespace StateKnot

open Lib

inductive GraphCompositionError where
  | childDelegationUnsupported
  | mixedReturnPort (nodeId : NodeId)
  | missingReturnPorts
  | entryIsReturnPort
  | cyclicTemplate
  | templateStepLimit
  | invalidIterationLimit
  | unknownRepeatPort (port : NodeId)
  | duplicateCallSite (nodeId : NodeId)
  | unknownCallSite (nodeId : NodeId)
  | returnRoutesMismatch (nodeId : NodeId)
  | sharedStateContractMismatch (nodeId : NodeId)
  | templateParallelismLimit (nodeId : NodeId)
  | expansionTooLarge
  | canonicalSerialization
  | identityCollision
  | graph (source : GraphCompileError)

variable {E : Encoding}

/-! ## Finite templates -/

/-- Accumulators of the topological sweep: open incoming edges, longest path so far, and
the nodes whose last incoming edge was just removed. -/
structure SweepState where
  incoming : NodeId → Nat
  depths : NodeId → Nat
  ready : List NodeId

/-- Remove one edge into `next`. -/
def relaxEdge (graph : CompiledGraph E) (depth : Nat) (state : SweepState) (next : NodeId) :
    Except GraphCompositionError SweepState := do
  reject (next ∉ nodeIds graph.nodes) .identityCollision
  let count := state.incoming next - 1
  return {
    incoming := Function.update state.incoming next count
    depths := Function.update state.depths next (max (state.depths next) (depth + 1))
    ready := if count = 0 then state.ready ++ [next] else state.ready }

/-- Visit queued nodes until the queue is empty; the result counts the visits. -/
def sweepTemplate (graph : CompiledGraph E) (ports : List NodeId) :
    Nat → List NodeId → (NodeId → Nat) → (NodeId → Nat) → Nat →
      Except GraphCompositionError Nat
  | 0, _, _, _, visited => return visited
  | _ + 1, [], _, _, visited => return visited
  | fuel + 1, nodeId :: queue, incoming, depths, visited => do
    let depth := depths nodeId
    reject (nodeId ∉ ports ∧ depth > graph.limits.maximumSupersteps.value) .templateStepLimit
    let node ← okOr (graph.node nodeId) .identityCollision
    let state ← node.successors.foldlM (relaxEdge graph depth) ⟨incoming, depths, []⟩
    sweepTemplate graph ports fuel (queue ++ state.ready) state.incoming state.depths (visited + 1)

/-- `validate_finite_template`.  A node is queued when its last incoming edge goes, so one
visit per node is enough fuel. -/
def validateFiniteTemplate (graph : CompiledGraph E) (ports : List NodeId) :
    Except GraphCompositionError Unit := do
  let targets := graph.nodes.flatMap GraphNode.successors
  forM targets fun target => reject (target ∉ nodeIds graph.nodes) .identityCollision
  let incoming := fun nodeId => targets.count nodeId
  let queue := (nodeIds graph.nodes).filter (incoming · = 0)
  let visited ← sweepTemplate graph ports graph.nodes.length queue incoming (fun _ => 1) 0
  reject (visited ≠ graph.nodes.length) .cyclicTemplate

/-- A template with its return ports. -/
structure SharedStateSubgraph (E : Encoding) where
  graph : CompiledGraph E
  ports : List NodeId
  child_runs_none : graph.childRuns = none
  ports_eq : ports = nodeIds (graph.nodes.filter GraphNode.terminal)
  ports_pure : ∀ node ∈ graph.nodes, node.terminal = true → node.successors = []
  ports_nonempty : ports ≠ []
  entry_not_port : ∀ entry ∈ graph.entryNodes, entry ∉ ports
  finite : validateFiniteTemplate graph ports = .ok ()

theorem GraphNode.successors_eq_nil_of_pure {node : GraphNode}
    (h : ¬ (node.continueTo.isSome ∨ node.routes.routes ≠ [] ∨ node.waitTo.isSome)) :
    node.successors = [] := by
  have hcontinue : node.continueTo = none := by simpa using fun hsome => h (.inl hsome)
  have hroutes : node.routes.routes = [] := by
    by_contra hne
    exact h (.inr (.inl hne))
  have hwait : node.waitTo = none := by simpa using fun hsome => h (.inr (.inr hsome))
  simp [GraphNode.successors, GraphNode.successorSets, hcontinue, hroutes, hwait]

namespace SharedStateSubgraph

def new (graph : CompiledGraph E) : Except GraphCompositionError (SharedStateSubgraph E) :=
  if hchild : graph.childRuns ≠ none then .error .childDelegationUnsupported
  else
    attach (forM graph.nodes fun node =>
      reject (node.terminal = true ∧
        (node.continueTo.isSome ∨ node.routes.routes ≠ [] ∨ node.waitTo.isSome))
        (GraphCompositionError.mixedReturnPort node.nodeId)) fun _ hmixed =>
    if hports : nodeIds (graph.nodes.filter GraphNode.terminal) = [] then
      .error .missingReturnPorts
    else if hentry : ∃ entry ∈ graph.entryNodes.nodes,
        entry ∈ nodeIds (graph.nodes.filter GraphNode.terminal) then .error .entryIsReturnPort
    else
      attach (validateFiniteTemplate graph (nodeIds (graph.nodes.filter GraphNode.terminal)))
        fun _ hfinite =>
      .ok {
        graph := graph
        ports := nodeIds (graph.nodes.filter GraphNode.terminal)
        child_runs_none := not_not.mp hchild
        ports_eq := rfl
        ports_pure := fun node hnode hterminal => by
          have hpure := reject_eq_ok.mp (forM_eq_ok.mp hmixed node hnode)
          exact GraphNode.successors_eq_nil_of_pure (fun h => hpure ⟨hterminal, h⟩)
        ports_nonempty := hports
        entry_not_port := fun entry hmem hport => hentry ⟨entry, hmem, hport⟩
        finite := hfinite }

/-- Executable nodes of the template with their position among all its nodes. -/
def bodyNodes (subgraph : SharedStateSubgraph E) : List (GraphNode × Nat) :=
  subgraph.graph.nodes.zipIdx.filter (fun entry => entry.1.nodeId ∉ subgraph.ports)

theorem mem_ports_iff {subgraph : SharedStateSubgraph E} {nodeId : NodeId} :
    nodeId ∈ subgraph.ports ↔
      ∃ node ∈ subgraph.graph.nodes, node.terminal = true ∧ node.nodeId = nodeId := by
  rw [subgraph.ports_eq, nodeIds, List.mem_map]
  constructor
  · rintro ⟨node, hnode, hid⟩
    obtain ⟨hmem, hterminal⟩ := List.mem_filter.mp hnode
    exact ⟨node, hmem, hterminal, hid⟩
  · rintro ⟨node, hmem, hterminal, hid⟩
    exact ⟨node, List.mem_filter.mpr ⟨hmem, hterminal⟩, hid⟩

theorem nodeId_mem_ports {subgraph : SharedStateSubgraph E} {node : GraphNode}
    (hnode : node ∈ subgraph.graph.nodes) :
    node.nodeId ∈ subgraph.ports ↔ node.terminal = true := by
  rw [mem_ports_iff]
  constructor
  · intro ⟨other, hother, hterminal, hid⟩
    have heq := subgraph.graph.nodes_sorted.eq_of_key_eq hother hnode hid
    rw [← heq]
    exact hterminal
  · intro hterminal
    exact ⟨node, hnode, hterminal, rfl⟩

end SharedStateSubgraph

/-! ## Calls -/

/-- A complete binding of return ports to parent routes. -/
structure BindsPorts (ports : List NodeId) (returnRoutes : List (NodeId × RouteId)) : Prop where
  ports_perm : (returnRoutes.map Prod.fst).Perm ports
  routes_nodup : (returnRoutes.map Prod.snd).Nodup

/-- One call site with the template that replaces it. -/
structure GraphSubgraphCall (E : Encoding) where
  nodeId : NodeId
  subgraph : SharedStateSubgraph E
  maximumIterations : Nat
  repeatPort : Option NodeId
  returnRoutes : List (NodeId × RouteId)
  iterations_ok : 1 ≤ maximumIterations ∧ maximumIterations ≤ CompiledGraph.maxNodes
  repeat_mem : ∀ port ∈ repeatPort, port ∈ subgraph.ports
  once_of_no_repeat : repeatPort = none → maximumIterations = 1
  bindings_ok : returnRoutes = [] ∨ BindsPorts subgraph.ports returnRoutes

namespace GraphSubgraphCall

def once (nodeId : NodeId) (subgraph : SharedStateSubgraph E) : GraphSubgraphCall E :=
  ⟨nodeId, subgraph, 1, none, [], by decide, by simp, fun _ => rfl, .inl rfl⟩

def boundedLoop (nodeId : NodeId) (subgraph : SharedStateSubgraph E) (repeatPort : NodeId)
    (maximumIterations : Nat) : Except GraphCompositionError (GraphSubgraphCall E) :=
  if hlimit : maximumIterations = 0 ∨ maximumIterations > CompiledGraph.maxNodes then
    .error .invalidIterationLimit
  else if hport : repeatPort ∉ subgraph.ports then .error (.unknownRepeatPort repeatPort)
  else .ok ⟨nodeId, subgraph, maximumIterations, some repeatPort, [], by omega,
    by simpa using hport, by simp, .inl rfl⟩

/-- `with_return_routes`, whose loop and final count share the one error. -/
def withReturnRoutes (call : GraphSubgraphCall E) (routes : List (NodeId × RouteId)) :
    Except GraphCompositionError (GraphSubgraphCall E) :=
  if h : (∀ binding ∈ routes, binding.1 ∈ call.subgraph.ports) ∧ (routes.map Prod.snd).Nodup ∧
      (routes.map Prod.fst).Nodup ∧ routes.length = call.subgraph.ports.length then
    .ok { call with
      returnRoutes := sortByKey Prod.fst routes
      bindings_ok := .inr (by
        obtain ⟨hports, hroutes, hnodup, hlength⟩ := h
        have hsubset : routes.map Prod.fst ⊆ call.subgraph.ports := by
          intro port hport
          obtain ⟨binding, hbinding, rfl⟩ := List.mem_map.mp hport
          exact hports binding hbinding
        have hperm : (routes.map Prod.fst).Perm call.subgraph.ports := by
          apply (List.subperm_of_subset hnodup hsubset).perm_of_length_le
          rw [List.length_map, hlength]
        exact ⟨((sortByKey_perm _ _).map _).trans hperm,
          ((sortByKey_perm _ _).map _).nodup_iff.mpr hroutes⟩) }
  else .error (.returnRoutesMismatch call.nodeId)

/-- Without an explicit binding a port returns through the route of the same name. -/
def matchesReturn (call : GraphSubgraphCall E) (port : NodeId) (route : RouteId) : Bool :=
  match call.returnRoutes.lookup port with
  | some bound => bound = route
  | none => port.text = route.text

/-- Number of nodes that one call adds. -/
def copyCount (call : GraphSubgraphCall E) : Nat :=
  (call.subgraph.graph.nodes.length - call.subgraph.ports.length) * call.maximumIterations

end GraphSubgraphCall

/-- `validate_call`: the call site is a pure router with one route per port, and both graphs
share their schemas and reducer. -/
def validateCall (parent : CompiledGraph E) (call : GraphSubgraphCall E) :
    Except GraphCompositionError Unit := do
  let node ← okOr (parent.node call.nodeId) (.unknownCallSite call.nodeId)
  reject (node.continueTo.isSome ∨ node.waitTo.isSome ∨ node.terminal = true ∨
    node.routes.routes.length ≠ call.subgraph.ports.length ∨
    ∃ route ∈ node.routes.routes,
      ¬ ∃ port ∈ call.subgraph.ports, call.matchesReturn port route.routeId = true)
    (.returnRoutesMismatch call.nodeId)
  let child := call.subgraph.graph
  reject (parent.inputSchema ≠ child.inputSchema ∨ parent.stateSchema ≠ child.stateSchema ∨
    parent.updateSchema ≠ child.updateSchema ∨ parent.outputSchema ≠ child.outputSchema ∨
    parent.reducer ≠ child.reducer) (.sharedStateContractMismatch call.nodeId)
  reject (parent.limits.maximumParallelism > child.limits.maximumParallelism)
    (.templateParallelismLimit call.nodeId)

/-- The node count that `collect_calls` keeps. -/
def expandedCount (parent : CompiledGraph E) (calls : List (GraphSubgraphCall E)) : Nat :=
  calls.foldl (fun count call => count - 1 + call.copyCount) parent.nodes.length

/-- One turn of the loop of `collect_calls`. -/
def acceptCall (parent : CompiledGraph E) (byId : List (GraphSubgraphCall E))
    (call : GraphSubgraphCall E) : Except GraphCompositionError Unit := do
  reject (call.nodeId ∈ byId.map GraphSubgraphCall.nodeId) (.duplicateCallSite call.nodeId)
  validateCall parent call
  reject (expandedCount parent (byId ++ [call]) > CompiledGraph.maxNodes) .expansionTooLarge

/-- Validated calls, ordered by call site. -/
def collectCalls (parent : CompiledGraph E) (calls : List (GraphSubgraphCall E)) :
    Except GraphCompositionError (List (GraphSubgraphCall E)) := do
  let byId ← collect (acceptCall parent) [] calls
  return sortByKey GraphSubgraphCall.nodeId byId

end StateKnot
