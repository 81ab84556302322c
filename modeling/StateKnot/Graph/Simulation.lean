import StateKnot.Graph.Progress
import StateKnot.Graph.Soundness

/-!
# Composition simulates the parent and the templates

The source map of a composition sends every composed node to its origin.  It is a
bijection between the composed nodes and the nodes of the unrolled graph, and it
carries every successor set to the targets of the source's set.  Within one
instance the generated identities keep the template's order of nodes, because
their texts differ only in a zero-padded position.
-/

namespace StateKnot

open Lib

variable {E : Encoding}

/-! ## Order of generated identities -/

theorem generatedText_lt {scope : Digest} {m n : Nat} (hlt : m < n)
    (hn : n ≤ CompiledGraph.maxNodes) : generatedText scope m < generatedText scope n := by
  rw [String.lt_iff_toList_lt]
  simp only [generatedText, String.toList_append]
  exact List.append_left_lt (pad4_strictMono hlt hn)

variable {parent : CompiledGraph E} {calls calls' : List (GraphSubgraphCall E)}

theorem Lowers.generated_lt {call : GraphSubgraphCall E}
    {iteration : Nat} {node node' : GraphNode} {ordinal ordinal' : Nat}
    {entry entry' : LoweredNode}
    (hentry : Lowers parent ⟨call, iteration, node, ordinal⟩ entry)
    (hentry' : Lowers parent ⟨call, iteration, node', ordinal'⟩ entry')
    (hbody : (node, ordinal) ∈ call.subgraph.bodyNodes)
    (hbody' : (node', ordinal') ∈ call.subgraph.bodyNodes) (hlt : node.nodeId < node'.nodeId) :
    entry.generated < entry'.generated := by
  have hget := (SharedStateSubgraph.mem_bodyNodes.mp hbody).1
  have hget' := (SharedStateSubgraph.mem_bodyNodes.mp hbody').1
  obtain ⟨hindex, rfl⟩ := List.getElem?_eq_some_iff.mp hget
  obtain ⟨hindex', rfl⟩ := List.getElem?_eq_some_iff.mp hget'
  have hordinal : ordinal < ordinal' := by
    by_contra hnot
    rcases Nat.lt_or_eq_of_le (Nat.le_of_not_lt hnot) with hgt | rfl
    · exact lt_asymm hlt (List.pairwise_iff_getElem.mp call.subgraph.graph.nodes_sorted _ _
        hindex' hindex hgt)
    · exact lt_irrefl _ hlt
  have hbounded := call.subgraph.graph.collectable.bounded
  rw [hentry.generated_eq, hentry'.generated_eq, Ident.lt_iff]
  exact generatedText_lt hordinal (hindex'.le.trans hbounded)

/-! ## Simulation -/

/-- The origin of a composed node, read off the source map. -/
def GraphComposition.origin (composition : GraphComposition E) (nodeId : NodeId) : Origin :=
  match composition.nodeSource nodeId with
  | none => .parent nodeId
  | some source => source.origin

/-- The members of `set'` have the origins that the members of `set` lead to. -/
def SimulatesSet (originOf : NodeId → Origin) (target : NodeId → Origin → Prop)
    (set set' : ReadyNodes) : Prop :=
  ∀ origin, (∃ name ∈ set', originOf name = origin) ↔ ∃ next ∈ set, target next origin

/-- `node'` has the controls of `node`; its successor sets hold the targets of the sets of
`node`, its routes carry renamed identities. -/
structure SimulatesNode (originOf : NodeId → Origin) (rename : RouteId → RouteId)
    (target : NodeId → Origin → Prop) (node node' : GraphNode) : Prop where
  terminal_eq : node'.terminal = node.terminal
  continue_rel : Option.Rel (SimulatesSet originOf target) node.continueTo node'.continueTo
  wait_rel : Option.Rel (SimulatesSet originOf target) node.waitTo node'.waitTo
  route_to : ∀ route ∈ node.routes.routes, ∃ route' ∈ node'.routes.routes,
    route'.routeId = rename route.routeId ∧
      SimulatesSet originOf target route.successors route'.successors
  route_from : ∀ route' ∈ node'.routes.routes, ∃ route ∈ node.routes.routes,
    route'.routeId = rename route.routeId ∧
      SimulatesSet originOf target route.successors route'.successors

/-- A composition that simulates its parent and its templates. -/
structure Simulates (parent : CompiledGraph E) (calls : List (GraphSubgraphCall E))
    (composition : GraphComposition E) : Prop where
  /-- The composed nodes are the parent's own nodes and one copy of every body node for
  every call and iteration. -/
  origin_bij : Set.BijOn composition.origin {nodeId | nodeId ∈ nodeIds composition.graph.nodes}
    {origin | ∃ node target, Unrolls parent calls origin node target}
  entry : ∀ origin, (∃ name ∈ composition.graph.entryNodes, composition.origin name = origin) ↔
    UnrolledEntry parent calls origin
  node : ∀ node' ∈ composition.graph.nodes, ∀ node target,
    Unrolls parent calls (composition.origin node'.nodeId) node target →
      SimulatesNode composition.origin (routeName (composition.nodeSource node'.nodeId)) target
        node node'
  /-- The source map records a name for every route of a copied node. -/
  routes : ∀ node' ∈ composition.graph.nodes, ∀ node target source,
    Unrolls parent calls (composition.origin node'.nodeId) node target →
      composition.nodeSource node'.nodeId = some source →
        source.routes.map Prod.fst = node.routes.routes.map GraphRoute.routeId
  /-- Copies of one iteration are ordered as their template nodes are. -/
  order : ∀ nodeId ∈ nodeIds composition.graph.nodes, ∀ nodeId' ∈ nodeIds composition.graph.nodes,
    ∀ callSite iteration source source',
      composition.origin nodeId = .copy callSite iteration source →
      composition.origin nodeId' = .copy callSite iteration source' →
        (nodeId < nodeId' ↔ source < source')

section Expansion

variable {parent : CompiledGraph E} {calls : List (GraphSubgraphCall E)} {expansion : Expansion}

theorem unrolls_of_mem_bodyInstances (hvalid : ValidCalls parent calls) {body : BodyInstance E}
    (hbody : body ∈ bodyInstances calls) :
    ∃ target, Unrolls parent calls body.origin body.node target := by
  obtain ⟨hcall, hiteration, hordinal⟩ := mem_bodyInstances.mp hbody
  obtain ⟨site, hsite⟩ := hvalid.exists_callSite hcall
  obtain ⟨hnode, hport⟩ := SharedStateSubgraph.mem_nodes_of_mem_bodyNodes hordinal
  exact ⟨_, .copy hcall hsite.mem hsite.nodeId_eq hiteration hnode hport⟩

/-- A composed graph made of an expansion, with the expansion's source map. -/
structure ComposedFrom (parent : CompiledGraph E) (calls : List (GraphSubgraphCall E))
    (expansion : Expansion) (composition : GraphComposition E) : Prop
    extends ExpansionOf parent calls expansion where
  nodes_perm : composition.graph.nodes.Perm expansion.nodes
  entry_eq : composition.graph.entryNodes = expansion.entryNodes
  source_eq : ∀ nodeId, composition.nodeSource nodeId = sourceOf expansion.lowered nodeId

namespace ComposedFrom

variable {composition : GraphComposition E}

variable {target : NodeId → Origin → Prop}

variable (h : ComposedFrom parent calls expansion composition)

include h

theorem origin_eq {origin : Origin} {node : GraphNode} (hunrolls : Unrolls parent calls origin node target)
    {name : NodeId} (hname : Names expansion.lowered origin name) :
    composition.origin name = origin := by
  rw [GraphComposition.origin, h.source_eq]
  cases origin with
  | parent nodeId =>
    rw [Names] at hname
    cases hunrolls with
    | parent hnode =>
      rw [hname, h.lowering.sourceOf_parent (List.mem_map_of_mem hnode)]
  | copy callSite iteration nodeId =>
    obtain ⟨entry, hentry, horigin, rfl⟩ := hname
    rw [h.lowering.sourceOf_generated hentry]
    exact horigin

/-- A named successor set is simulated when its members lead into the unrolled graph. -/
theorem simulatesSet {set set' : ReadyNodes}
    (hclosed : ∀ next ∈ set, ∀ origin, target next origin →
      ∃ node reading, Unrolls parent calls origin node reading)
    (hset : RemapsSet (Through expansion.lowered target) set set') :
    SimulatesSet composition.origin target set set' := by
  intro origin
  constructor
  · intro ⟨name, hname, horigin⟩
    obtain ⟨next, hnext, origin', htarget, hnames⟩ := (hset name).mp hname
    obtain ⟨_, _, hunrolls⟩ := hclosed next hnext origin' htarget
    rw [← horigin, h.origin_eq hunrolls hnames]
    exact ⟨next, hnext, htarget⟩
  · intro ⟨next, hnext, htarget⟩
    obtain ⟨_, _, hunrolls⟩ := hclosed next hnext origin htarget
    obtain ⟨node', _, hrealises⟩ := h.complete hunrolls
    exact ⟨node'.nodeId, (hset _).mpr ⟨next, hnext, origin, htarget, hrealises.name⟩,
      h.origin_eq hunrolls hrealises.name⟩

theorem simulatesNode {origin : Origin} {node node' : GraphNode}
    (hunrolls : Unrolls parent calls origin node target)
    (hrealises : Realises expansion.lowered origin node target node') :
    SimulatesNode composition.origin (routeName (composition.nodeSource node'.nodeId)) target
      node node' := by
  have hset : ∀ {set set' : ReadyNodes}, set ∈ node.successorSets →
      RemapsSet (Through expansion.lowered target) set set' →
        SimulatesSet composition.origin target set set' := by
    intro set set' hmem hremaps
    refine h.simulatesSet (fun next hnext origin' htarget => ?_) hremaps
    have hstep : UnrolledStep parent calls origin origin' :=
      ⟨node, target, hunrolls, next, GraphNode.mem_successors.mpr ⟨set, hmem, hnext⟩, htarget⟩
    exact hstep.exists_unrolls h.valid
  have hoption : ∀ {set set' : Option ReadyNodes},
      (∀ nodes ∈ set, nodes ∈ node.successorSets) →
      Option.Rel (RemapsSet (Through expansion.lowered target)) set set' →
        Option.Rel (SimulatesSet composition.origin target) set set' := by
    intro set set' hmem hrel
    cases hrel with
    | none => exact .none
    | some hremaps => exact .some (hset (hmem _ rfl) hremaps)
  have hremaps := hrealises.remaps
  rw [← h.source_eq] at hremaps
  refine ⟨hremaps.terminal_eq, hoption (fun nodes hnodes => ?_) hremaps.continue_rel,
    hoption (fun nodes hnodes => ?_) hremaps.wait_rel, ?_, ?_⟩
  · exact GraphNode.mem_successorSets.mpr (.inl hnodes)
  · exact GraphNode.mem_successorSets.mpr (.inr (.inr hnodes))
  · intro route hroute
    obtain ⟨route', hroute', hid, hsuccessors⟩ := hremaps.route_to route hroute
    exact ⟨route', hroute', hid,
      hset (GraphNode.mem_successorSets.mpr (.inr (.inl ⟨route, hroute, rfl⟩))) hsuccessors⟩
  · intro route' hroute'
    obtain ⟨route, hroute, hid, hsuccessors⟩ := hremaps.route_from route' hroute'
    exact ⟨route, hroute, hid,
      hset (GraphNode.mem_successorSets.mpr (.inr (.inl ⟨route, hroute, rfl⟩))) hsuccessors⟩

theorem exists_origin {node' : GraphNode} (hnode' : node' ∈ composition.graph.nodes) :
    ∃ node target,
      Unrolls parent calls (composition.origin node'.nodeId) node target ∧
      Realises expansion.lowered (composition.origin node'.nodeId) node target node' := by
  obtain ⟨origin, node, target, hunrolls, hrealises⟩ :=
    h.sound node' (h.nodes_perm.mem_iff.mp hnode')
  rw [h.origin_eq hunrolls hrealises.name]
  exact ⟨node, target, hunrolls, hrealises⟩

theorem origin_bijOn :
    Set.BijOn composition.origin {nodeId | nodeId ∈ nodeIds composition.graph.nodes}
      {origin | ∃ node target, Unrolls parent calls origin node target} := by
  refine ⟨?_, ?_, ?_⟩
  · intro nodeId hmem
    obtain ⟨node', hnode', rfl⟩ := List.mem_map.mp hmem
    obtain ⟨node, target, hunrolls, _⟩ := h.exists_origin hnode'
    exact ⟨node, target, hunrolls⟩
  · intro nodeId hmem nodeId' hmem' heq
    obtain ⟨first, hfirst, rfl⟩ := List.mem_map.mp hmem
    obtain ⟨second, hsecond, rfl⟩ := List.mem_map.mp hmem'
    obtain ⟨_, _, _, hrealises⟩ := h.exists_origin hfirst
    obtain ⟨_, _, _, hrealises'⟩ := h.exists_origin hsecond
    exact h.names_unique hrealises.name (heq ▸ hrealises'.name)
  · intro origin ⟨node, target, hunrolls⟩
    obtain ⟨node', hnode', hrealises⟩ := h.complete hunrolls
    exact ⟨node'.nodeId, List.mem_map_of_mem (h.nodes_perm.mem_iff.mpr hnode'),
      h.origin_eq hunrolls hrealises.name⟩

theorem name_lt {callSite source source' name name' : NodeId}
    {iteration : Nat} (hname : Names expansion.lowered (.copy callSite iteration source) name)
    (hname' : Names expansion.lowered (.copy callSite iteration source') name')
    (hlt : source < source') : name < name' := by
  obtain ⟨entry, hentry, horigin, rfl⟩ := hname
  obtain ⟨entry', hentry', horigin', rfl⟩ := hname'
  obtain ⟨⟨call, iteration₁, node, ordinal⟩, hbody, hlowers⟩ :=
    h.lowering.exists_body hentry
  obtain ⟨⟨call', iteration₂, node', ordinal'⟩, hbody', hlowers'⟩ :=
    h.lowering.exists_body hentry'
  obtain ⟨hcall, _, hordinal⟩ := mem_bodyInstances.mp hbody
  obtain ⟨hcall', _, hordinal'⟩ := mem_bodyInstances.mp hbody'
  obtain ⟨hsite, hturn, hid⟩ := Origin.copy.inj (hlowers.origin_eq.symm.trans horigin)
  obtain ⟨hsite', hturn', hid'⟩ := Origin.copy.inj (hlowers'.origin_eq.symm.trans horigin')
  have heq : call = call' :=
    List.inj_on_of_nodup_map h.valid.ids_nodup hcall hcall' (hsite.trans hsite'.symm)
  subst heq
  have hturns : iteration₁ = iteration₂ := hturn.trans hturn'.symm
  subst hturns
  refine hlowers.generated_lt hlowers' hordinal hordinal' ?_
  rw [show node.nodeId = source from hid, show node'.nodeId = source' from hid']
  exact hlt

theorem simulates :
    Simulates parent calls composition := by
  refine ⟨h.origin_bijOn, ?_, ?_, ?_, ?_⟩
  · intro origin
    rw [h.entry_eq]
    constructor
    · intro ⟨name, hname, horigin⟩
      obtain ⟨origin', hentry, hnames⟩ := (h.entry_iff name).mp hname
      obtain ⟨_, _, hunrolls⟩ := hentry.exists_unrolls h.valid
      rw [← horigin, h.origin_eq hunrolls hnames]
      exact hentry
    · intro hentry
      obtain ⟨_, _, hunrolls⟩ := hentry.exists_unrolls h.valid
      obtain ⟨node', _, hrealises⟩ := h.complete hunrolls
      exact ⟨node'.nodeId, (h.entry_iff _).mpr ⟨origin, hentry, hrealises.name⟩,
        h.origin_eq hunrolls hrealises.name⟩
  · intro node' hnode' node target hunrolls
    obtain ⟨node₀, target₀, hunrolls₀, hrealises⟩ := h.exists_origin hnode'
    obtain ⟨rfl, rfl⟩ := hunrolls.unique h.valid hunrolls₀
    exact h.simulatesNode hunrolls hrealises
  · intro node' _ node target source hunrolls hsource
    rw [h.source_eq] at hsource
    obtain ⟨entry, hentry, _, rfl⟩ := h.lowering.exists_of_sourceOf hsource
    obtain ⟨body, hbody, hlowers⟩ := h.lowering.exists_body hentry
    obtain ⟨reading, hcopy⟩ := unrolls_of_mem_bodyInstances h.valid hbody
    have horigin : composition.origin node'.nodeId = body.origin := by
      rw [GraphComposition.origin, h.source_eq, hsource]
      exact hlowers.origin_eq
    rw [horigin] at hunrolls
    obtain ⟨rfl, _⟩ := hcopy.unique h.valid hunrolls
    rw [hlowers.routes_eq, List.map_map]
    rfl
  · intro nodeId hmem nodeId' hmem' callSite iteration source source' horigin horigin'
    obtain ⟨first, hfirst, rfl⟩ := List.mem_map.mp hmem
    obtain ⟨second, hsecond, rfl⟩ := List.mem_map.mp hmem'
    obtain ⟨_, _, _, hrealises⟩ := h.exists_origin hfirst
    obtain ⟨_, _, _, hrealises'⟩ := h.exists_origin hsecond
    have hname := hrealises.name
    have hname' := hrealises'.name
    rw [horigin] at hname
    rw [horigin'] at hname'
    refine ⟨fun hlt => ?_, h.name_lt hname hname'⟩
    by_contra hnot
    rcases lt_or_eq_of_le (not_lt.mp hnot) with hgt | rfl
    · exact lt_asymm hlt (h.name_lt hname' hname hgt)
    · exact hlt.ne (h.names_unique hname hname')

end ComposedFrom

end Expansion

/-! ## Compositions -/

theorem parentTarget_eq_of_perm
    (hperm : calls.Perm calls') : ParentTarget calls = ParentTarget calls' := by
  have himp : ∀ {calls calls' : List (GraphSubgraphCall E)}, calls.Perm calls' →
      ∀ {nodeId origin}, ParentTarget calls nodeId origin → ParentTarget calls' nodeId origin := by
    intro calls calls' hperm nodeId origin h
    cases h with
    | node hplain => exact .node (fun hmem => hplain ((hperm.map _).mem_iff.mpr hmem))
    | entry hcall hentry => exact .entry (hperm.mem_iff.mp hcall) hentry
  funext nodeId origin
  exact propext ⟨himp hperm, himp hperm.symm⟩

theorem unrolls_eq_of_perm
    (hperm : calls.Perm calls') : Unrolls parent calls = Unrolls parent calls' := by
  have hchild : ∀ {calls calls' : List (GraphSubgraphCall E)}, calls.Perm calls' →
      ∀ {site call iteration nodeId origin}, ChildTarget calls site call iteration nodeId origin →
        ChildTarget calls' site call iteration nodeId origin := by
    intro calls calls' hperm site call iteration nodeId origin h
    cases h with
    | body hbody => exact .body hbody
    | again hport hnext hentry => exact .again hport hnext hentry
    | exit hport hlast hroute hnext horigin =>
      exact .exit hport hlast hroute hnext (parentTarget_eq_of_perm hperm ▸ horigin)
  have htarget : ChildTarget calls = ChildTarget calls' := by
    funext site call iteration nodeId origin
    exact propext ⟨hchild hperm, hchild hperm.symm⟩
  have himp : ∀ {calls calls' : List (GraphSubgraphCall E)}, calls.Perm calls' →
      ParentTarget calls = ParentTarget calls' → ChildTarget calls = ChildTarget calls' →
      ∀ {origin node target}, Unrolls parent calls origin node target →
        Unrolls parent calls' origin node target := by
    intro calls calls' hperm hparent hchild origin node target h
    cases h with
    | parent hnode hplain =>
      rw [hparent]
      exact .parent hnode (fun hmem => hplain ((hperm.map _).mem_iff.mpr hmem))
    | copy hcall hsite hid hiteration hnode hbody =>
      rw [hchild]
      exact .copy (hperm.mem_iff.mp hcall) hsite hid hiteration hnode hbody
  have hparent := parentTarget_eq_of_perm hperm
  funext origin node target
  exact propext ⟨himp hperm hparent htarget, himp hperm.symm hparent.symm htarget.symm⟩

theorem Simulates.of_perm
    {composition : GraphComposition E} (h : Simulates parent calls composition)
    (hperm : calls.Perm calls') : Simulates parent calls' composition := by
  have hunrolls : Unrolls parent calls = Unrolls parent calls' := unrolls_eq_of_perm hperm
  obtain ⟨hbij, hentry, hnode, hroutes, horder⟩ := h
  simp only [UnrolledEntry, parentTarget_eq_of_perm hperm] at hentry
  rw [hunrolls] at hbij hnode hroutes
  exact ⟨hbij, hentry, hnode, hroutes, horder⟩

/-- Without calls the parent is its own expansion. -/
theorem expansionOf_nil (hvalid : ValidCalls parent []) :
    ExpansionOf parent [] ⟨parent.entryNodes, parent.nodes, []⟩ := by
  have hthrough : Through [] (ParentTarget ([] : List (GraphSubgraphCall E))) =
      fun next name => name = next := by
    funext next name
    refine propext ⟨fun ⟨origin, horigin, hname⟩ => ?_, fun heq => ⟨_, .node (by simp), heq⟩⟩
    rw [horigin.eq_parent (by simp)] at hname
    exact hname
  have hset : ∀ set : ReadyNodes, RemapsSet (fun next name => name = next) set set := by
    intro set target
    simp
  have hoption : ∀ set : Option ReadyNodes,
      Option.Rel (RemapsSet (fun next name => name = next)) set set := by
    intro set
    cases set with
    | none => exact .none
    | some nodes => exact .some (hset nodes)
  have hrealises : ∀ node : GraphNode, Realises [] (.parent node.nodeId) node
      (ParentTarget ([] : List (GraphSubgraphCall E))) node := by
    intro node
    refine ⟨rfl, ?_⟩
    rw [hthrough]
    exact ⟨rfl, hoption _, hoption _, fun route hroute => ⟨route, hroute, rfl, hset _⟩,
      fun route hroute => ⟨route, hroute, rfl, hset _⟩⟩
  refine ⟨⟨hvalid, .nil, by simp, by simp⟩, ?_, ?_, ?_, ?_⟩
  · intro node hnode
    exact ⟨_, node, _, .parent hnode (by simp), hrealises node⟩
  · intro origin node target hunrolls
    cases hunrolls with
    | parent hnode => exact ⟨node, hnode, hrealises node⟩
    | copy hcall => cases hcall
  · intro name
    constructor
    · intro hname
      exact ⟨_, ⟨name, hname, .node (by simp)⟩, rfl⟩
    · intro ⟨origin, ⟨entry, hentry, horigin⟩, hname⟩
      rw [horigin.eq_parent (by simp)] at hname
      rw [show name = entry from hname]
      exact hentry
  · simp [nodeIds, List.map_eq_flatMap]

theorem composedFrom_of_compileExpansion
    {calls : List (GraphSubgraphCall E)} {expansion : Expansion}
    (hexpansion : ExpansionOf parent calls expansion) {graph : CompiledGraph E}
    (h : compileExpansion parent expansion = .ok graph) :
    ComposedFrom parent calls expansion ⟨graph, sortByKey Prod.fst
      (expansion.lowered.map (fun entry => (entry.generated, entry.source)))⟩ := by
  have hdefinition := CompiledGraph.build_eq_ok h
  refine ⟨hexpansion, ?_, ?_, ?_⟩
  · show graph.nodes.Perm expansion.nodes
    rw [show graph.nodes = sortByKey GraphNode.nodeId expansion.nodes from
      congrArg GraphDefinition.nodes hdefinition]
    exact sortByKey_perm _ _
  · exact congrArg GraphDefinition.entryNodes hdefinition
  · intro nodeId
    have hperm := sortByKey_perm Prod.fst
      (expansion.lowered.map (fun entry => (entry.generated, entry.source)))
    refine lookup_eq_of_perm hperm ((hperm.map Prod.fst).nodup_iff.mpr ?_)
    rw [List.map_map]
    exact hexpansion.lowering.generated_nodup

theorem Simulates.step {composition : GraphComposition E} (h : Simulates parent calls composition)
    {name name' : NodeId} (hedge : Edge composition.graph.edges name name') :
    UnrolledStep parent calls (composition.origin name) (composition.origin name') := by
  obtain ⟨node', hnode', rfl, hnext⟩ := exists_of_mem_successorsOf hedge
  obtain ⟨node, target, hunrolls⟩ := h.origin_bij.mapsTo (List.mem_map_of_mem hnode')
  have hnode := h.node node' hnode' node target hunrolls
  obtain ⟨set', hset', hmem⟩ := GraphNode.mem_successors.mp hnext
  have hoption : ∀ {sets sets' : Option ReadyNodes},
      Option.Rel (SimulatesSet composition.origin target) sets sets' → set' ∈ sets' →
        ∃ set ∈ sets, SimulatesSet composition.origin target set set' := by
    intro sets sets' hrel hset'
    cases hrel with
    | none => cases hset'
    | some hset =>
      cases hset'
      exact ⟨_, rfl, hset⟩
  obtain ⟨set, hset, hsimulates⟩ : ∃ set ∈ node.successorSets,
      SimulatesSet composition.origin target set set' := by
    simp only [GraphNode.mem_successorSets] at hset' ⊢
    rcases hset' with hset' | ⟨route', hroute', rfl⟩ | hset'
    · obtain ⟨set, hset, hsimulates⟩ := hoption hnode.continue_rel hset'
      exact ⟨set, .inl hset, hsimulates⟩
    · obtain ⟨route, hroute, _, hsimulates⟩ := hnode.route_from route' hroute'
      exact ⟨_, .inr (.inl ⟨route, hroute, rfl⟩), hsimulates⟩
    · obtain ⟨set, hset, hsimulates⟩ := hoption hnode.wait_rel hset'
      exact ⟨set, .inr (.inr hset), hsimulates⟩
  obtain ⟨next, hnext, htarget⟩ := (hsimulates _).mp ⟨name', hmem, rfl⟩
  exact ⟨node, target, hunrolls, next, GraphNode.mem_successors.mpr ⟨set, hset, hnext⟩, htarget⟩

/-- A composition that adds no unbounded loop to its parent. -/
structure BoundedLoops (parent : CompiledGraph E) (calls : List (GraphSubgraphCall E))
    (composition : GraphComposition E) : Prop where
  acyclic : Acyclic parent.edges → Acyclic composition.graph.edges
  /-- Control leaves the copies of a call in time, unless its site leads back to itself. -/
  steps : ∀ call ∈ calls, ¬ Edge parent.edges call.nodeId call.nodeId →
    ∀ path : List NodeId, path.IsChain (Edge composition.graph.edges) →
      (∀ name ∈ path, (composition.origin name).site = call.nodeId) →
        path.length ≤ call.maximumSteps

theorem Simulates.boundedLoops {composition : GraphComposition E}
    (h : Simulates parent calls composition) (hvalid : ValidCalls parent calls) :
    BoundedLoops parent calls composition := by
  refine ⟨fun hacyclic name hcycle => ?_, fun call hcall hsite path hpath hinside => ?_⟩
  · exact unrolled_acyclic hvalid hacyclic (hcycle.lift composition.origin fun _ _ => h.step)
  · rw [← List.length_map composition.origin]
    apply length_le_maximumSteps hvalid hcall hsite
    · exact List.isChain_map_of_isChain composition.origin (fun _ _ => h.step) hpath
    · simpa using hinside

/-- Every composition simulates its parent and its templates.  Its loops are bounded: composing
an acyclic parent closes no cycle, and a call is left within its iterations times the step
limit of its template. -/
theorem composition_simulates {parent : CompiledGraph E} {calls : List (GraphSubgraphCall E)}
    {composition : GraphComposition E}
    (h : GraphComposition.compile parent calls = .ok composition) :
    Simulates parent calls composition ∧ BoundedLoops parent calls composition := by
  rw [GraphComposition.compile, bind_eq_ok] at h
  obtain ⟨byId, hcalls, h⟩ := h
  obtain ⟨hvalid, hperm⟩ := validCalls_of_collectCalls hcalls
  have hsimulates : Simulates parent byId composition := by
    cases byId with
    | nil =>
      cases h
      exact ComposedFrom.simulates ⟨expansionOf_nil hvalid, List.Perm.refl _, rfl, fun _ => rfl⟩
    | cons call rest =>
      simp only [GraphComposition.compileCollected, bind_eq_ok, mapError_eq_ok] at h
      obtain ⟨_, _, expansion, hexpand, graph, hgraph, hreturn⟩ := h
      cases hreturn
      have hexpansion := expansionOf_of_expand hvalid hexpand
      exact (composedFrom_of_compileExpansion hexpansion hgraph).simulates
  have hbounded := hsimulates.boundedLoops hvalid
  exact ⟨hsimulates.of_perm hperm, hbounded.acyclic,
    fun call hcall => hbounded.steps call (hperm.mem_iff.mpr hcall)⟩

/-- The two iterations of the sample loop have origins of their own. -/
theorem composition_simulates_loop : ∃ (parent : CompiledGraph .compact)
    (call : GraphSubgraphCall .compact) (composition : GraphComposition .compact),
    GraphComposition.compile parent [call] = .ok composition ∧
      composition.graph.nodes.length = 3 ∧ Simulates parent [call] composition := by
  have hsome : ((Sample.loopCall Sample.choice).any fun sample =>
      (GraphComposition.compile sample.1 [sample.2]).toOption.any
        (fun composition => composition.graph.nodes.length = 3)) = true := by
    decide +kernel
  obtain ⟨⟨parent, call⟩, _, hcompile⟩ := (Option.any_eq_true _ _).mp hsome
  obtain ⟨composition, hcomposition, hlength⟩ := (Option.any_eq_true _ _).mp hcompile
  rw [toOption_eq_some] at hcomposition
  exact ⟨parent, call, composition, hcomposition, by simpa using hlength,
    (composition_simulates hcomposition).1⟩

end StateKnot
