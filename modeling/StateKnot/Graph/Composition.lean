import StateKnot.Graph.Template

/-!
# Graph composition

`GraphComposition::compile` lowers subgraph calls into an ordinary graph.  Every
body node of every iteration gets a generated identity; then each node of the
parent is either copied with its successors redirected, or, at a call site,
replaced by the copies of the template's body.  The result is compiled like any
other graph.

The second half of the module says what remapping computes: a remapped node has
the redirected successor sets of its source under renamed routes (`Remaps`).
-/

namespace StateKnot

open Lib

variable {E : Encoding}

/-! ## Generated identities -/

/-- Original role of a generated node. -/
structure GraphNodeSource where
  graph : GraphReference
  nodeId : NodeId
  callSite : NodeId
  iteration : Nat
  routes : List (RouteId × RouteId)

/-- The source's `format!` with width four and leading zeros. -/
def pad4 (n : Nat) : String :=
  String.ofList (List.replicate (4 - (Nat.repr n).toList.length) '0' ++ (Nat.repr n).toList)

/-- Preimage of the scope digest that all nodes of one instance share. -/
def scopeWire (parent : CompiledGraph E) (call : GraphSubgraphCall E) (iteration : Nat) : Json :=
  .obj [("domain", .str "stateknot.graph-composition.v1"), ("parent", parent.reference.toJson),
    ("graph", call.subgraph.graph.reference.toJson), ("call_site", call.nodeId.toJson),
    ("iteration", .num (.int iteration)),
    ("maximum_iterations", .num (.int call.maximumIterations)),
    ("repeat_port", Json.ofOption Ident.toJson call.repeatPort),
    ("return_routes",
      .obj (call.returnRoutes.map (fun binding => (binding.1.text, binding.2.toJson))))]

/-- Preimage of a generated route identity. -/
def routeWire (generated : NodeId) (routeId : RouteId) : Json :=
  .obj [("domain", .str "stateknot.graph-composition.route.v1"), ("node_id", generated.toJson),
    ("route_id", routeId.toJson)]

/-- The global identity of a template route in one instance. -/
def lowerRoute (E : Encoding) (generated : NodeId) (route : GraphRoute) :
    Except GraphCompositionError (RouteId × RouteId) := do
  let bytes ← okOr (E.toVec (routeWire generated route.routeId)) .canonicalSerialization
  let routeId ← (RouteId.new ("skr-" ++ (E.sha256 bytes).hex)).mapError
    (fun _ => .canonicalSerialization)
  return (route.routeId, routeId)

/-- The text of a generated node identity: the scope digest, then the position of the node
in the template. -/
def generatedText (scope : Digest) (ordinal : Nat) : String :=
  "skc-" ++ scope.hex ++ "-" ++ pad4 ordinal

def lowerIdentity (parent : CompiledGraph E) (call : GraphSubgraphCall E) (node : GraphNode)
    (iteration ordinal : Nat) : Except GraphCompositionError (NodeId × GraphNodeSource) := do
  let bytes ← okOr (E.toVec (scopeWire parent call iteration)) .canonicalSerialization
  let generated ← (NodeId.new (generatedText (E.sha256 bytes) ordinal)).mapError
    (fun _ => .canonicalSerialization)
  let routes ← node.routes.routes.mapM (lowerRoute E generated)
  return (generated,
    ⟨call.subgraph.graph.reference, node.nodeId, call.nodeId, iteration, routes⟩)

/-- One body node of one iteration of one call, with its generated identity. -/
structure LoweredNode where
  node : GraphNode
  generated : NodeId
  source : GraphNodeSource

/-- A body node to be lowered. -/
structure BodyInstance (E : Encoding) where
  call : GraphSubgraphCall E
  iteration : Nat
  node : GraphNode
  ordinal : Nat

/-- The body nodes of all calls, iteration by iteration. -/
def bodyInstances (calls : List (GraphSubgraphCall E)) : List (BodyInstance E) :=
  calls.flatMap fun call =>
    (List.range call.maximumIterations).flatMap fun iteration =>
      call.subgraph.bodyNodes.map fun entry => ⟨call, iteration, entry.1, entry.2⟩

/-- Generate the identities one after the other; none may collide with a parent node or
with an earlier one. -/
def lowerInstances (parent : CompiledGraph E) :
    List LoweredNode → List (BodyInstance E) → Except GraphCompositionError (List LoweredNode)
  | lowered, [] => return lowered
  | lowered, body :: rest => do
    let (generated, source) ←
      lowerIdentity parent body.call body.node body.iteration body.ordinal
    reject ((parent.node generated).isSome ∨ generated ∈ lowered.map LoweredNode.generated)
      .identityCollision
    lowerInstances parent (lowered ++ [⟨body.node, generated, source⟩]) rest

/-! ## Redirection -/

/-- Collect a successor set without duplicates.  The source stops as soon as the set passes
the bound. -/
def ready (nodes : List NodeId) : Except GraphCompositionError ReadyNodes := do
  let unique := toOrderedSet nodes
  reject (unique.length > ReadyNodes.maxLen) .expansionTooLarge
  (ReadyNodes.tryNew unique).mapError (fun _ => .expansionTooLarge)

/-- The generated identity of a body node of one instance. -/
def generatedFor (lowered : List LoweredNode) (callSite : NodeId) (iteration : Nat)
    (nodeId : NodeId) : Option NodeId :=
  (lowered.find? (fun entry => entry.source.callSite = callSite ∧
    entry.source.iteration = iteration ∧ entry.source.nodeId = nodeId)).map LoweredNode.generated

/-- Entry sets by call site and iteration. -/
abbrev EntryMap := List ((NodeId × Nat) × ReadyNodes)

/-- The generated entry nodes of every iteration of every call. -/
def instanceEntries (lowered : List LoweredNode) (calls : List (GraphSubgraphCall E)) :
    Except GraphCompositionError EntryMap :=
  (calls.flatMap fun call => (List.range call.maximumIterations).map (call, ·)).mapM
    fun (call, iteration) => do
      let nodes ← ready (call.subgraph.graph.entryNodes.nodes.flatMap
        (fun nodeId => (generatedFor lowered call.nodeId iteration nodeId).toList))
      return ((call.nodeId, iteration), nodes)

/-- A parent node stands for itself, a call site for the entries of its first iteration. -/
def redirectParent (entries : EntryMap) (nodeId : NodeId) : List NodeId :=
  match entries.lookup (nodeId, 0) with
  | some nodes => nodes.nodes
  | none => [nodeId]

/-- A body node stands for its copy in the same iteration, the repeat port for the entries of
the next iteration while there is one, any other port for where its parent route leads. -/
def redirectChild (lowered : List LoweredNode) (entries : EntryMap) (site : GraphNode)
    (call : GraphSubgraphCall E) (iteration : Nat) (nodeId : NodeId) : List NodeId :=
  if nodeId ∉ call.subgraph.ports then
    (generatedFor lowered call.nodeId iteration nodeId).toList
  else if call.repeatPort = some nodeId ∧ iteration + 1 < call.maximumIterations then
    ((entries.lookup (call.nodeId, iteration + 1)).map ReadyNodes.nodes).getD []
  else
    ((site.routes.routes.find? (fun route => call.matchesReturn nodeId route.routeId)).map
      (fun route => route.successors.nodes.flatMap (redirectParent entries))).getD []

/-- A route with its new identity and redirected successors. -/
def remapRoute (redirect : NodeId → List NodeId) (rename : RouteId → RouteId)
    (route : GraphRoute) : Except GraphCompositionError GraphRoute := do
  let successors ← ready (route.successors.nodes.flatMap redirect)
  (GraphRoute.new (rename route.routeId) successors).mapError (fun _ => .expansionTooLarge)

/-- A declared successor set is redirected, an absent one stays absent. -/
def remapOption (redirect : NodeId → List NodeId) :
    Option ReadyNodes → Except GraphCompositionError (Option ReadyNodes)
  | none => return none
  | some nodes => do
    let remapped ← ready (nodes.nodes.flatMap redirect)
    return some remapped

def remapNode (node : GraphNode) (nodeId : NodeId) (redirect : NodeId → List NodeId)
    (rename : RouteId → RouteId) : Except GraphCompositionError GraphNode := do
  let routes ← node.routes.routes.mapM (remapRoute redirect rename)
  let continueTo ← remapOption redirect node.continueTo
  let routes ← (GraphRoutes.tryNew routes).mapError (fun _ => .expansionTooLarge)
  let waitTo ← remapOption redirect node.waitTo
  (GraphNode.new nodeId continueTo routes waitTo node.terminal).mapError
    (fun _ => .expansionTooLarge)

/-- The recorded renaming of a generated node's routes. -/
def GraphNodeSource.rename (source : GraphNodeSource) (routeId : RouteId) : RouteId :=
  (source.routes.lookup routeId).getD routeId

/-! ## Expansion -/

/-- What one parent node becomes: the copies of a template's body at a call site, in the
order of iterations and template nodes, or the redirected node itself. -/
def expandNode (lowered : List LoweredNode) (entries : EntryMap)
    (calls : List (GraphSubgraphCall E)) (node : GraphNode) :
    Except GraphCompositionError (List GraphNode) :=
  match calls.find? (·.nodeId = node.nodeId) with
  | some call =>
    (lowered.filter (fun entry => entry.source.callSite = node.nodeId)).mapM fun entry =>
      remapNode entry.node entry.generated
        (redirectChild lowered entries node call entry.source.iteration) entry.source.rename
  | none => do
    let remapped ← remapNode node node.nodeId (redirectParent entries) id
    return [remapped]

/-- Everything that the final compilation receives, with the source map. -/
structure Expansion where
  entryNodes : ReadyNodes
  nodes : List GraphNode
  lowered : List LoweredNode

/-- The lowering of `GraphComposition::compile`, up to the final compilation. -/
def expand (parent : CompiledGraph E) (calls : List (GraphSubgraphCall E)) :
    Except GraphCompositionError Expansion := do
  let lowered ← lowerInstances parent [] (bodyInstances calls)
  let entries ← instanceEntries lowered calls
  let nodes ← parent.nodes.mapM (expandNode lowered entries calls)
  let entryNodes ← ready (parent.entryNodes.nodes.flatMap (redirectParent entries))
  return ⟨entryNodes, nodes.flatten, lowered⟩

/-- The final compilation keeps everything of the parent but its nodes. -/
def compileExpansion (parent : CompiledGraph E) (expansion : Expansion) :
    Except GraphCompileError (CompiledGraph E) :=
  CompiledGraph.compile parent.identity parent.inputSchema parent.stateSchema parent.updateSchema
    parent.outputSchema parent.reducer expansion.entryNodes expansion.nodes parent.limits

/-- A composed graph with its source map, by generated identity. -/
structure GraphComposition (E : Encoding) where
  graph : CompiledGraph E
  sources : List (NodeId × GraphNodeSource)

namespace GraphComposition

/-- What `compile` does after the calls are collected. -/
def compileCollected (parent : CompiledGraph E) (byId : List (GraphSubgraphCall E)) :
    Except GraphCompositionError (GraphComposition E) :=
  match byId with
  | [] => return ⟨parent, []⟩
  | _ :: _ => do
    reject parent.childRuns.isSome .childDelegationUnsupported
    let expansion ← expand parent byId
    let graph ← (compileExpansion parent expansion).mapError .graph
    return ⟨graph, sortByKey Prod.fst
      (expansion.lowered.map (fun entry => (entry.generated, entry.source)))⟩

def compile (parent : CompiledGraph E) (calls : List (GraphSubgraphCall E)) :
    Except GraphCompositionError (GraphComposition E) := do
  compileCollected parent (← collectCalls parent calls)

/-- Ordinary parent nodes have no source entry. -/
def nodeSource (composition : GraphComposition E) (nodeId : NodeId) : Option GraphNodeSource :=
  composition.sources.lookup nodeId

end GraphComposition

/-! ## What remapping computes -/

theorem mem_of_ready_eq_ok {nodes : List NodeId} {out : ReadyNodes} (h : ready nodes = .ok out)
    {nodeId : NodeId} : nodeId ∈ out ↔ nodeId ∈ nodes := by
  simp only [ready, bind_eq_ok, mapError_eq_ok, ReadyNodes.tryNew_eq_ok] at h
  obtain ⟨_, _, _, _, hout⟩ := h
  rw [ReadyNodes.mem_def, hout, mem_sortByKey, mem_toOrderedSet]

/-- `set'` holds what the members of `set` lead to. -/
def RemapsSet (leads : NodeId → NodeId → Prop) (set set' : ReadyNodes) : Prop :=
  ∀ target, target ∈ set' ↔ ∃ node ∈ set, leads node target

variable {redirect : NodeId → List NodeId}

theorem remapsSet_of_ready {set out : ReadyNodes}
    (h : ready (set.nodes.flatMap redirect) = .ok out) :
    RemapsSet (fun node target => target ∈ redirect node) set out := by
  intro target
  rw [mem_of_ready_eq_ok h, List.mem_flatMap]
  exact Iff.rfl

/-- `node'` has the controls of `node`, with redirected successor sets and renamed routes. -/
structure Remaps (leads : NodeId → NodeId → Prop) (rename : RouteId → RouteId)
    (node node' : GraphNode) : Prop where
  terminal_eq : node'.terminal = node.terminal
  continue_rel : Option.Rel (RemapsSet leads) node.continueTo node'.continueTo
  wait_rel : Option.Rel (RemapsSet leads) node.waitTo node'.waitTo
  route_to : ∀ route ∈ node.routes.routes, ∃ route' ∈ node'.routes.routes,
    route'.routeId = rename route.routeId ∧ RemapsSet leads route.successors route'.successors
  route_from : ∀ route' ∈ node'.routes.routes, ∃ route ∈ node.routes.routes,
    route'.routeId = rename route.routeId ∧ RemapsSet leads route.successors route'.successors

theorem remapRoute_eq_ok {rename : RouteId → RouteId}
    {route route' : GraphRoute} (h : remapRoute redirect rename route = .ok route') :
    route'.routeId = rename route.routeId ∧
      RemapsSet (fun node target => target ∈ redirect node) route.successors
        route'.successors := by
  simp only [remapRoute, bind_eq_ok, mapError_eq_ok] at h
  obtain ⟨successors, hready, hroute⟩ := h
  unfold GraphRoute.new at hroute
  split at hroute
  · cases hroute
  · cases hroute
    exact ⟨rfl, remapsSet_of_ready hready⟩

theorem remapOption_eq_ok {set set' : Option ReadyNodes}
    (h : remapOption redirect set = .ok set') :
    Option.Rel (RemapsSet (fun node target => target ∈ redirect node)) set set' := by
  cases set with
  | none =>
    cases h
    exact .none
  | some nodes =>
    simp only [remapOption, bind_eq_ok] at h
    obtain ⟨remapped, hready, hreturn⟩ := h
    cases hreturn
    exact .some (remapsSet_of_ready hready)

theorem remapNode_eq_ok {node node' : GraphNode} {nodeId : NodeId} {rename : RouteId → RouteId}
    (h : remapNode node nodeId redirect rename = .ok node') :
    node'.nodeId = nodeId ∧ Remaps (fun node target => target ∈ redirect node) rename node node' := by
  simp only [remapNode, bind_eq_ok, mapError_eq_ok, mapM_eq_ok, GraphRoutes.tryNew_eq_ok] at h
  obtain ⟨routes, hroutes, continueTo, hcontinue, sorted, ⟨_, _, hsorted⟩, waitTo, hwait, hnode⟩ := h
  have hmem : ∀ route', route' ∈ sorted.routes ↔ route' ∈ routes := by
    intro route'
    rw [hsorted, mem_sortByKey]
  unfold GraphNode.new at hnode
  split at hnode
  · cases hnode
  split at hnode
  · cases hnode
  split at hnode
  · cases hnode
  cases hnode
  refine ⟨rfl, rfl, remapOption_eq_ok hcontinue, remapOption_eq_ok hwait, ?_, ?_⟩
  · intro route hroute
    obtain ⟨route', hroute', hremap⟩ := exists_of_forall₂_left hroutes hroute
    exact ⟨route', (hmem route').mpr hroute', remapRoute_eq_ok hremap⟩
  · intro route' hroute'
    obtain ⟨route, hroute, hremap⟩ := exists_of_forall₂_right hroutes ((hmem route').mp hroute')
    exact ⟨route, hroute, remapRoute_eq_ok hremap⟩

/-- Remapping succeeds where every successor set has a nonempty image and routes stay apart. -/
theorem exists_remapNode {node : GraphNode} (rename : RouteId → RouteId)
    (hsets : ∀ set ∈ node.successorSets, ∃ out, ready (set.nodes.flatMap redirect) = .ok out ∧
      out.nodes ≠ [])
    (hroutes : (node.routes.routes.map (fun route => rename route.routeId)).Nodup)
    (nodeId : NodeId) : ∃ node', remapNode node nodeId redirect rename = .ok node' := by
  have hoption : ∀ option : Option ReadyNodes, (∀ set ∈ option, set ∈ node.successorSets) →
      ∃ out, remapOption redirect option = .ok out ∧ out.isSome = option.isSome ∧
        ∀ set ∈ out, set.nodes ≠ [] := by
    intro option hmem
    cases option with
    | none => exact ⟨none, rfl, rfl, by simp⟩
    | some set =>
      obtain ⟨out, hout, hne⟩ := hsets set (hmem set rfl)
      exact ⟨some out, by rw [remapOption, hout]; rfl, rfl, by simpa using hne⟩
  have hroute : ∀ route ∈ node.routes.routes, ∃ route',
      remapRoute redirect rename route = .ok route' ∧ route'.routeId = rename route.routeId := by
    intro route hroute
    obtain ⟨out, hout, hne⟩ := hsets route.successors
      (GraphNode.mem_successorSets.mpr (.inr (.inl ⟨route, hroute, rfl⟩)))
    refine ⟨⟨rename route.routeId, out, hne⟩, ?_, rfl⟩
    rw [remapRoute, hout, ok_bind, GraphRoute.new, dif_neg hne]
    rfl
  obtain ⟨routes, hremapped⟩ := exists_forall₂ hroute
  have hids : node.routes.routes.map (fun route => rename route.routeId) =
      routes.map GraphRoute.routeId :=
    map_eq_map_of_forall₂ hremapped (fun _ _ _ hremap => hremap.2.symm)
  have hlength : routes.length ≤ GraphRoutes.maxLen := hremapped.length_eq ▸ node.routes.bounded
  let sorted : GraphRoutes := ⟨sortByKey GraphRoute.routeId routes,
    strictlySorted_sortByKey (hids ▸ hroutes), by simpa using hlength⟩
  obtain ⟨continueTo, hcontinue, hcontinues, hcontinueNe⟩ := hoption node.continueTo
    (fun set hset => GraphNode.mem_successorSets.mpr (.inl hset))
  obtain ⟨waitTo, hwait, hwaits, hwaitNe⟩ := hoption node.waitTo
    (fun set hset => GraphNode.mem_successorSets.mpr (.inr (.inr hset)))
  have hcontrol : ¬ (continueTo = none ∧ sorted.routes = [] ∧ waitTo = none ∧
      node.terminal = false) := by
    rintro ⟨rfl, hnil, rfl, hterminal⟩
    have hperm := sortByKey_perm GraphRoute.routeId routes
    rw [show sortByKey GraphRoute.routeId routes = [] from hnil] at hperm
    refine node.has_control ⟨by simpa using hcontinues.symm, ?_, by simpa using hwaits.symm,
      hterminal⟩
    exact List.forall₂_nil_right_iff.mp (hperm.nil_eq ▸ hremapped)
  simp only [remapNode, bind_eq_ok, mapM_eq_ok, mapError_eq_ok]
  refine ⟨⟨nodeId, continueTo, sorted, waitTo, node.terminal, hcontinueNe, hwaitNe, hcontrol⟩,
    routes, hremapped.imp (fun _ _ hremap => hremap.1), continueTo, hcontinue, sorted,
    GraphRoutes.tryNew_eq_ok.mpr ⟨hids ▸ hroutes, hlength, rfl⟩, waitTo, hwait, ?_⟩
  rw [GraphNode.new, dif_neg (not_not.mpr hcontinueNe), dif_neg (not_not.mpr hwaitNe),
    dif_neg hcontrol]

namespace Remaps

variable {leads : NodeId → NodeId → Prop} {rename : RouteId → RouteId} {node node' : GraphNode}

theorem mem_successors (h : Remaps leads rename node node') {target : NodeId} :
    target ∈ node'.successors ↔ ∃ next ∈ node.successors, leads next target := by
  have hoption : ∀ {set set' : Option ReadyNodes}, Option.Rel (RemapsSet leads) set set' →
      ((∃ nodes ∈ set', target ∈ nodes) ↔
        ∃ nodes ∈ set, ∃ next ∈ nodes, leads next target) := by
    intro set set' hrel
    cases hrel with
    | none => simp
    | some hset => simpa using hset target
  have hcontinue := hoption h.continue_rel
  have hwait := hoption h.wait_rel
  simp only [GraphNode.mem_successors, GraphNode.mem_successorSets]
  constructor
  · intro ⟨set', hset', htarget⟩
    rcases hset' with hset' | ⟨route', hroute', rfl⟩ | hset'
    · obtain ⟨set, hset, next, hnext, hleads⟩ := hcontinue.mp ⟨set', hset', htarget⟩
      exact ⟨next, ⟨set, .inl hset, hnext⟩, hleads⟩
    · obtain ⟨route, hroute, _, hset⟩ := h.route_from route' hroute'
      obtain ⟨next, hnext, hleads⟩ := (hset target).mp htarget
      exact ⟨next, ⟨route.successors, .inr (.inl ⟨route, hroute, rfl⟩), hnext⟩, hleads⟩
    · obtain ⟨set, hset, next, hnext, hleads⟩ := hwait.mp ⟨set', hset', htarget⟩
      exact ⟨next, ⟨set, .inr (.inr hset), hnext⟩, hleads⟩
  · intro ⟨next, ⟨set, hset, hnext⟩, hleads⟩
    rcases hset with hset | ⟨route, hroute, rfl⟩ | hset
    · obtain ⟨set', hset', htarget⟩ := hcontinue.mpr ⟨set, hset, next, hnext, hleads⟩
      exact ⟨set', .inl hset', htarget⟩
    · obtain ⟨route', hroute', _, hset⟩ := h.route_to route hroute
      exact ⟨route'.successors, .inr (.inl ⟨route', hroute', rfl⟩),
        (hset target).mpr ⟨next, hnext, hleads⟩⟩
    · obtain ⟨set', hset', htarget⟩ := hwait.mpr ⟨set, hset, next, hnext, hleads⟩
      exact ⟨set', .inr (.inr hset'), htarget⟩

theorem isBoundary_eq (h : Remaps leads rename node node') :
    node'.isBoundary = node.isBoundary := by
  have hsome : ∀ {set set' : Option ReadyNodes}, Option.Rel (RemapsSet leads) set set' →
      set'.isSome = set.isSome := by
    intro set set' hrel
    cases hrel with
    | none => rfl
    | some => rfl
  have hwait := hsome h.wait_rel
  rw [GraphNode.isBoundary, GraphNode.isBoundary, h.terminal_eq, hwait]

end Remaps

end StateKnot
