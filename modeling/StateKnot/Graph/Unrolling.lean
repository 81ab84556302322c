import StateKnot.Graph.CallSite

/-!
# Unrolled graphs

What composition is for, without identities, digests or ordered collections: the
graph in which every call site is replaced by one copy of the template's body per
iteration.  A node of the unrolled graph is known by its `Origin`.  The successor
sets of its source are read through `ParentTarget` or `ChildTarget`, which say
where control goes instead of a call site, a body node or a port.

The unrolled graph of validated calls is connected because the parent and the
templates are: their paths lift to it (`Lib.exists_path_of_lift`), inside an
iteration and then along the parent, where a path through a call site leaves the
last iteration by the port of the route it takes.
-/

namespace StateKnot

open Lib

variable {E : Encoding}

/-- Where a composed node comes from. -/
inductive Origin where
  | parent (nodeId : NodeId)
  | copy (callSite : NodeId) (iteration : Nat) (nodeId : NodeId)

/-- Where control goes that a parent graph sends to one of its nodes: to the node itself, or
to the entries of the first iteration at a call site. -/
inductive ParentTarget (calls : List (GraphSubgraphCall E)) : NodeId → Origin → Prop where
  | node {nodeId : NodeId} (hplain : nodeId ∉ calls.map GraphSubgraphCall.nodeId) :
      ParentTarget calls nodeId (.parent nodeId)
  | entry {call : GraphSubgraphCall E} {entry : NodeId} (hcall : call ∈ calls)
      (hentry : entry ∈ call.subgraph.graph.entryNodes) :
      ParentTarget calls call.nodeId (.copy call.nodeId 0 entry)

/-- Where control goes that one iteration of a template sends to one of its nodes: to the
copy of a body node, from the repeat port to the next iteration while there is one, and from
any other port along the parent route bound to it. -/
inductive ChildTarget (calls : List (GraphSubgraphCall E)) (site : GraphNode)
    (call : GraphSubgraphCall E) (iteration : Nat) : NodeId → Origin → Prop where
  | body {nodeId : NodeId} (hbody : nodeId ∉ call.subgraph.ports) :
      ChildTarget calls site call iteration nodeId (.copy call.nodeId iteration nodeId)
  | again {port entry : NodeId} (hport : call.repeatPort = some port)
      (hnext : iteration + 1 < call.maximumIterations)
      (hentry : entry ∈ call.subgraph.graph.entryNodes) :
      ChildTarget calls site call iteration port (.copy call.nodeId (iteration + 1) entry)
  | exit {port next : NodeId} {route : GraphRoute} {origin : Origin}
      (hport : port ∈ call.subgraph.ports)
      (hlast : ¬ (call.repeatPort = some port ∧ iteration + 1 < call.maximumIterations))
      (hroute : call.returnRoute site port = some route) (hnext : next ∈ route.successors)
      (horigin : ParentTarget calls next origin) :
      ChildTarget calls site call iteration port origin

/-- The nodes of the unrolled graph, each with its source and the reading of the source's
successor sets: the parent's own nodes, and the body nodes of each iteration. -/
inductive Unrolls (parent : CompiledGraph E) (calls : List (GraphSubgraphCall E)) :
    Origin → GraphNode → (NodeId → Origin → Prop) → Prop where
  | parent {node : GraphNode} (hnode : node ∈ parent.nodes)
      (hplain : node.nodeId ∉ calls.map GraphSubgraphCall.nodeId) :
      Unrolls parent calls (.parent node.nodeId) node (ParentTarget calls)
  | copy {call : GraphSubgraphCall E} {site node : GraphNode} {iteration : Nat}
      (hcall : call ∈ calls) (hsite : site ∈ parent.nodes) (hid : site.nodeId = call.nodeId)
      (hiteration : iteration < call.maximumIterations)
      (hnode : node ∈ call.subgraph.graph.nodes) (hbody : node.nodeId ∉ call.subgraph.ports) :
      Unrolls parent calls (.copy call.nodeId iteration node.nodeId) node
        (ChildTarget calls site call iteration)

/-- One step of control in the unrolled graph. -/
def UnrolledStep (parent : CompiledGraph E) (calls : List (GraphSubgraphCall E))
    (origin origin' : Origin) : Prop :=
  ∃ node target, Unrolls parent calls origin node target ∧
    ∃ next ∈ node.successors, target next origin'

/-- Paths of the unrolled graph. -/
abbrev UnrolledPath (parent : CompiledGraph E) (calls : List (GraphSubgraphCall E)) :
    Origin → Origin → Prop :=
  Relation.ReflTransGen (UnrolledStep parent calls)

/-- Entries of the unrolled graph. -/
def UnrolledEntry (parent : CompiledGraph E) (calls : List (GraphSubgraphCall E))
    (origin : Origin) : Prop :=
  ∃ entry ∈ parent.entryNodes, ParentTarget calls entry origin

/-- Nodes of the unrolled graph that wait or terminate. -/
def UnrolledBoundary (parent : CompiledGraph E) (calls : List (GraphSubgraphCall E))
    (origin : Origin) : Prop :=
  ∃ node target, Unrolls parent calls origin node target ∧ node.isBoundary = true

/-! ## Inside an iteration -/

section Iteration

variable {parent : CompiledGraph E} {calls : List (GraphSubgraphCall E)}
  {call : GraphSubgraphCall E} {site : GraphNode} {iteration : Nat}

theorem ChildTarget.eq_copy {nodeId : NodeId} {origin : Origin}
    (h : ChildTarget calls site call iteration nodeId origin)
    (hbody : nodeId ∉ call.subgraph.ports) : origin = .copy call.nodeId iteration nodeId := by
  cases h with
  | body => rfl
  | again hport => exact absurd (call.repeat_mem _ hport) hbody
  | exit hport => exact absurd hport hbody

theorem iteration_path (hcall : call ∈ calls) (hsite : CallSite parent call site)
    (hiteration : iteration < call.maximumIterations) {nodeId nodeId' : NodeId}
    (hpath : Reaches (successorsOf call.subgraph.graph.nodes) nodeId nodeId') {origin' : Origin}
    (horigin : ChildTarget calls site call iteration nodeId' origin') :
    ∃ origin, ChildTarget calls site call iteration nodeId origin ∧
      UnrolledPath parent calls origin origin' := by
  refine exists_path_of_lift ?_ hpath horigin
  intro source target origin hedge htarget
  obtain ⟨node, hnode, rfl, hnext⟩ := exists_of_mem_successorsOf hedge
  -- A node with a successor is no port.
  have hbody : node.nodeId ∉ call.subgraph.ports := by
    intro hport
    have hpure := call.subgraph.ports_pure node hnode
      ((SharedStateSubgraph.nodeId_mem_ports hnode).mp hport)
    rw [hpure] at hnext
    exact List.not_mem_nil hnext
  refine ⟨_, .body hbody, .single ⟨node, _, ?_, target, hnext, htarget⟩⟩
  exact .copy hcall hsite.mem hsite.nodeId_eq hiteration hnode hbody

/-- Whatever an iteration leads to is reached from one of its entries. -/
theorem exists_entry_path (hcall : call ∈ calls) (hsite : CallSite parent call site)
    (hiteration : iteration < call.maximumIterations) {node : GraphNode}
    (hnode : node ∈ call.subgraph.graph.nodes) {origin : Origin}
    (horigin : ChildTarget calls site call iteration node.nodeId origin) :
    ∃ entry ∈ call.subgraph.graph.entryNodes,
      UnrolledPath parent calls (.copy call.nodeId iteration entry) origin := by
  obtain ⟨entry, hentry, hpath⟩ :=
    call.subgraph.graph.wellShaped.connected.reachable node hnode
  obtain ⟨first, hfirst, hreach⟩ := iteration_path hcall hsite hiteration hpath horigin
  have hcopy := hfirst.eq_copy (call.subgraph.entry_not_port entry hentry)
  exact ⟨entry, hentry, hcopy ▸ hreach⟩

/-- The entries of every iteration are reached from those of the first: each iteration
enters the next one through the repeat port. -/
theorem exists_first_entry_path (hcall : call ∈ calls) (hsite : CallSite parent call site)
    (hiteration : iteration < call.maximumIterations) {entry : NodeId}
    (hentry : entry ∈ call.subgraph.graph.entryNodes) :
    ∃ first ∈ call.subgraph.graph.entryNodes, UnrolledPath parent calls
      (.copy call.nodeId 0 first) (.copy call.nodeId iteration entry) := by
  induction iteration generalizing entry with
  | zero => exact ⟨entry, hentry, .refl⟩
  | succ iteration ih =>
    have hrepeat : call.repeatPort ≠ none := by
      intro hnone
      have honce := call.once_of_no_repeat hnone
      omega
    obtain ⟨port, hport⟩ := Option.ne_none_iff_exists'.mp hrepeat
    obtain ⟨node, hnode, _, rfl⟩ :=
      SharedStateSubgraph.mem_ports_iff.mp (call.repeat_mem port hport)
    obtain ⟨previous, hprevious, hlast⟩ := exists_entry_path hcall hsite (by omega) hnode
      (.again hport hiteration hentry)
    obtain ⟨first, hfirst, hpath⟩ := ih (by omega) hprevious
    exact ⟨first, hfirst, hpath.trans hlast⟩

end Iteration

/-! ## Along the parent -/

section Parent

variable {parent : CompiledGraph E} {calls : List (GraphSubgraphCall E)}

variable {origin : Origin} {call : GraphSubgraphCall E} {nodeId : NodeId} {site : GraphNode}
  {node : GraphNode} {iteration : Nat}

theorem ParentTarget.eq_parent
    (h : ParentTarget calls nodeId origin)
    (hplain : nodeId ∉ calls.map GraphSubgraphCall.nodeId) : origin = .parent nodeId := by
  cases h with
  | node => rfl
  | entry hcall => exact absurd (List.mem_map_of_mem hcall) hplain

theorem ParentTarget.exists_entry
    (h : ParentTarget calls nodeId origin)
    (hsite : nodeId ∈ calls.map GraphSubgraphCall.nodeId) :
    ∃ call ∈ calls, call.nodeId = nodeId ∧
      ∃ entry ∈ call.subgraph.graph.entryNodes, origin = .copy nodeId 0 entry := by
  cases h with
  | node hplain => exact absurd hsite hplain
  | @entry call entry hcall hentry => exact ⟨call, hcall, rfl, entry, hentry, rfl⟩

theorem ValidCalls.exists_callSite (hvalid : ValidCalls parent calls) (hcall : call ∈ calls) :
    ∃ site, CallSite parent call site :=
  callSite_of_validateCall (hvalid.valid call hcall)

theorem ValidCalls.callSite (hvalid : ValidCalls parent calls) (hcall : call ∈ calls)
    (hnode : node ∈ parent.nodes) (hid : node.nodeId = call.nodeId) :
    CallSite parent call node := by
  obtain ⟨site, hsite⟩ := hvalid.exists_callSite hcall
  have heq := parent.nodes_sorted.eq_of_key_eq hsite.mem hnode (hsite.nodeId_eq.trans hid.symm)
  exact heq ▸ hsite

/-- Control that the parent sends to a call site passes through all iterations to any node
that a route of the site leads to. -/
theorem exists_path_through_call
    (hcall : call ∈ calls) (hsite : CallSite parent call site) {target : NodeId}
    (htarget : target ∈ site.successors)
    (horigin : ParentTarget calls target origin) :
    ∃ first, ParentTarget calls call.nodeId first ∧ UnrolledPath parent calls first origin := by
  obtain ⟨route, hroute, hnext⟩ := hsite.mem_successors.mp htarget
  obtain ⟨port, hport, hreturn⟩ := hsite.port_of_route route hroute
  obtain ⟨node, hnode, _, rfl⟩ := SharedStateSubgraph.mem_ports_iff.mp hport
  -- Every port leaves the last iteration.
  have hpos := call.iterations_ok.1
  have hlast : call.maximumIterations - 1 < call.maximumIterations := by omega
  have hexit : ChildTarget calls site call (call.maximumIterations - 1) node.nodeId origin :=
    .exit hport (fun h => by omega) hreturn hnext horigin
  obtain ⟨entry, hentry, hleave⟩ := exists_entry_path hcall hsite hlast hnode hexit
  obtain ⟨first, hfirst, hloop⟩ := exists_first_entry_path hcall hsite hlast hentry
  exact ⟨_, .entry hcall hfirst, hloop.trans hleave⟩

variable {origin' : Origin} {target : NodeId → Origin → Prop}

/-- Control can go on from `origin` to a boundary. -/
def ReachesBoundary (parent : CompiledGraph E) (calls : List (GraphSubgraphCall E))
    (origin : Origin) : Prop :=
  ∃ last, UnrolledBoundary parent calls last ∧ UnrolledPath parent calls origin last

theorem ReachesBoundary.of_path
    (h : ReachesBoundary parent calls origin') (hpath : UnrolledPath parent calls origin origin') :
    ReachesBoundary parent calls origin := by
  obtain ⟨last, hlast, hreach⟩ := h
  exact ⟨last, hlast, hpath.trans hreach⟩

variable (hvalid : ValidCalls parent calls)

include hvalid

theorem parent_path {nodeId' : NodeId}
    (hpath : Reaches (successorsOf parent.nodes) nodeId nodeId')
    (horigin : ParentTarget calls nodeId' origin') :
    ∃ origin, ParentTarget calls nodeId origin ∧ UnrolledPath parent calls origin origin' := by
  refine exists_path_of_lift ?_ hpath horigin
  intro source target origin hedge htarget
  obtain ⟨node, hnode, rfl, hnext⟩ := exists_of_mem_successorsOf hedge
  by_cases hplain : node.nodeId ∈ calls.map GraphSubgraphCall.nodeId
  · obtain ⟨call, hcall, hid⟩ := List.mem_map.mp hplain
    rw [← hid]
    exact exists_path_through_call hcall (hvalid.callSite hcall hnode hid.symm) hnext htarget
  · exact ⟨_, .node hplain, .single ⟨node, _, .parent hnode hplain, target, hnext, htarget⟩⟩

theorem unrolled_reachable (h : Unrolls parent calls origin node target) :
    ∃ first, UnrolledEntry parent calls first ∧ UnrolledPath parent calls first origin := by
  have hparent : ∀ {source : GraphNode} {origin : Origin}, source ∈ parent.nodes →
      ParentTarget calls source.nodeId origin →
      ∃ first, UnrolledEntry parent calls first ∧ UnrolledPath parent calls first origin := by
    intro source origin hsource horigin
    obtain ⟨entry, hentry, hpath⟩ := parent.wellShaped.connected.reachable source hsource
    obtain ⟨first, hfirst, hreach⟩ := parent_path hvalid hpath horigin
    exact ⟨first, ⟨entry, hentry, hfirst⟩, hreach⟩
  cases h with
  | parent hnode hplain => exact hparent hnode (.node hplain)
  | @copy call _ _ _ hcall _ _ hiteration hnode hbody =>
    obtain ⟨site, hsite⟩ := hvalid.exists_callSite hcall
    obtain ⟨entry, hentry, hinside⟩ :=
      exists_entry_path hcall hsite hiteration hnode (.body hbody)
    obtain ⟨start, hstart, hloop⟩ := exists_first_entry_path hcall hsite hiteration hentry
    have hcallee : ParentTarget calls site.nodeId (.copy call.nodeId 0 start) :=
      hsite.nodeId_eq ▸ .entry hcall hstart
    obtain ⟨first, hfirst, hreach⟩ := hparent hsite.mem hcallee
    exact ⟨first, hfirst, hreach.trans (hloop.trans hinside)⟩

/-! ## Closure -/

theorem ParentTarget.exists_unrolls (h : ParentTarget calls nodeId origin)
    (hmem : nodeId ∈ nodeIds parent.nodes) :
    ∃ node target, Unrolls parent calls origin node target := by
  cases h with
  | node hplain =>
    obtain ⟨node, hnode, rfl⟩ := List.mem_map.mp hmem
    exact ⟨node, _, .parent hnode hplain⟩
  | @entry call entry hcall hentry =>
    obtain ⟨site, hsite⟩ := hvalid.exists_callSite hcall
    obtain ⟨node, hnode, rfl⟩ := List.mem_map.mp
      (call.subgraph.graph.wellShaped.closed.entry_mem entry hentry)
    exact ⟨node, _, .copy hcall hsite.mem hsite.nodeId_eq call.iterations_ok.1 hnode
      (call.subgraph.entry_not_port _ hentry)⟩

theorem ChildTarget.exists_unrolls (hcall : call ∈ calls) (hsite : CallSite parent call site)
    (hiteration : iteration < call.maximumIterations)
    (h : ChildTarget calls site call iteration nodeId origin)
    (hmem : nodeId ∈ nodeIds call.subgraph.graph.nodes) :
    ∃ node target, Unrolls parent calls origin node target := by
  cases h with
  | body hbody =>
    obtain ⟨node, hnode, rfl⟩ := List.mem_map.mp hmem
    exact ⟨node, _, .copy hcall hsite.mem hsite.nodeId_eq hiteration hnode hbody⟩
  | @again entry _ hnext hentry =>
    obtain ⟨node, hnode, rfl⟩ := List.mem_map.mp
      (call.subgraph.graph.wellShaped.closed.entry_mem entry hentry)
    exact ⟨node, _, .copy hcall hsite.mem hsite.nodeId_eq hnext hnode
      (call.subgraph.entry_not_port _ hentry)⟩
  | @exit next route _ _ _ hroute hnext horigin =>
    have hsuccessor : next ∈ site.successors := hsite.mem_successors.mpr
      ⟨route, (GraphSubgraphCall.returnRoute_eq_some.mp hroute).1, hnext⟩
    exact horigin.exists_unrolls hvalid
      (parent.wellShaped.closed.successors_mem site hsite.mem next hsuccessor)

theorem UnrolledEntry.exists_unrolls (h : UnrolledEntry parent calls origin) :
    ∃ node target, Unrolls parent calls origin node target := by
  obtain ⟨entry, hmem, horigin⟩ := h
  exact horigin.exists_unrolls hvalid (parent.wellShaped.closed.entry_mem entry hmem)

/-- An origin has one source and one reading of its successor sets. -/
theorem Unrolls.unique
    {node' : GraphNode} {target' : NodeId → Origin → Prop}
    (h : Unrolls parent calls origin node target)
    (h' : Unrolls parent calls origin node' target') : node = node' ∧ target = target' := by
  cases h with
  | parent hnode =>
    generalize horigin : Origin.parent node.nodeId = origin at h'
    cases h' with
    | parent hnode' =>
      exact ⟨parent.nodes_sorted.eq_of_key_eq hnode hnode' (Origin.parent.inj horigin), rfl⟩
    | copy => cases horigin
  | @copy call site _ iteration hcall hsite hid _ hnode =>
    generalize horigin : Origin.copy call.nodeId iteration node.nodeId = origin at h'
    cases h' with
    | parent => cases horigin
    | @copy call' site' _ iteration' hcall' hsite' hid' _ hnode' =>
      obtain ⟨hcallId, hturn, hnodeId⟩ := Origin.copy.inj horigin
      have hcalls : call = call' :=
        List.inj_on_of_nodup_map hvalid.ids_nodup hcall hcall' hcallId
      subst hcalls
      have hsites : site = site' :=
        parent.nodes_sorted.eq_of_key_eq hsite hsite' (hid.trans hid'.symm)
      rw [hsites, hturn]
      exact ⟨call.subgraph.graph.nodes_sorted.eq_of_key_eq hnode hnode' hnodeId, rfl⟩

/-- Control never leaves the unrolled graph. -/
theorem UnrolledStep.exists_unrolls (h : UnrolledStep parent calls origin origin') :
    ∃ node target, Unrolls parent calls origin' node target := by
  obtain ⟨source, reading, hunrolls, next, hnext, htarget⟩ := h
  cases hunrolls with
  | parent hnode =>
    exact htarget.exists_unrolls hvalid
      (parent.wellShaped.closed.successors_mem source hnode next hnext)
  | @copy call site _ _ hcall hmem hid hiteration hnode =>
    exact htarget.exists_unrolls hvalid hcall (hvalid.callSite hcall hmem hid) hiteration
      (call.subgraph.graph.wellShaped.closed.successors_mem source hnode next hnext)

/-! ## Boundaries -/

/-- From every parent node control can go somewhere that reaches a boundary. -/
theorem exists_parent_boundary {source : GraphNode}
    (hsource : source ∈ parent.nodes) :
    ∃ origin, ParentTarget calls source.nodeId origin ∧ ReachesBoundary parent calls origin := by
  obtain ⟨last, hlast, hboundary, hpath⟩ :=
    parent.wellShaped.connected.boundary source hsource
  -- A call site only routes, so the boundary is a node of the parent's own.
  have hplain : last.nodeId ∉ calls.map GraphSubgraphCall.nodeId := by
    intro hmem
    obtain ⟨call, hcall, hid⟩ := List.mem_map.mp hmem
    have hnot := (hvalid.callSite hcall hlast hid.symm).not_boundary
    rw [hboundary] at hnot
    cases hnot
  obtain ⟨origin, horigin, hreach⟩ := parent_path hvalid hpath (.node hplain)
  exact ⟨origin, horigin, _, ⟨last, _, .parent hlast hplain, hboundary⟩, hreach⟩

/-- Every port leads somewhere that reaches a boundary, if the entries of the next iteration
do. -/
theorem exists_port_boundary (hsite : CallSite parent call site)
    (hnext : iteration + 1 < call.maximumIterations →
      ∀ entry ∈ call.subgraph.graph.entryNodes,
        ReachesBoundary parent calls (.copy call.nodeId (iteration + 1) entry))
    {port : NodeId} (hport : port ∈ call.subgraph.ports) :
    ∃ origin, ChildTarget calls site call iteration port origin ∧
      ReachesBoundary parent calls origin := by
  by_cases hagain : call.repeatPort = some port ∧ iteration + 1 < call.maximumIterations
  · obtain ⟨entry, hentry⟩ :=
      List.exists_mem_of_ne_nil _ call.subgraph.graph.wellShaped.entry_nonempty
    exact ⟨_, .again hagain.1 hagain.2 hentry, hnext hagain.2 entry hentry⟩
  · obtain ⟨route, hroute⟩ := hsite.route_of_port port hport
    obtain ⟨next, hmem⟩ := List.exists_mem_of_ne_nil _ route.nonempty
    have hsuccessor : next ∈ site.successors :=
      hsite.mem_successors.mpr
        ⟨route, (GraphSubgraphCall.returnRoute_eq_some.mp hroute).1, hmem⟩
    obtain ⟨source, hsource, rfl⟩ := List.mem_map.mp
      (parent.wellShaped.closed.successors_mem site hsite.mem next hsuccessor)
    obtain ⟨origin, horigin, hboundary⟩ := exists_parent_boundary hvalid hsource
    exact ⟨origin, .exit hport hagain hroute hmem horigin, hboundary⟩

/-- One iteration of the argument below: a template path to a boundary ends in a waiting body
node or in a port. -/
theorem copy_boundary_step (hcall : call ∈ calls) (hsite : CallSite parent call site)
    (hiteration : iteration < call.maximumIterations)
    (hnext : iteration + 1 < call.maximumIterations →
      ∀ entry ∈ call.subgraph.graph.entryNodes,
        ReachesBoundary parent calls (.copy call.nodeId (iteration + 1) entry))
    (hnode : node ∈ call.subgraph.graph.nodes) (hbody : node.nodeId ∉ call.subgraph.ports) :
    ReachesBoundary parent calls (.copy call.nodeId iteration node.nodeId) := by
  obtain ⟨last, hlast, hboundary, hpath⟩ :=
    call.subgraph.graph.wellShaped.connected.boundary node hnode
  have hend : ∃ origin, ChildTarget calls site call iteration last.nodeId origin ∧
      ReachesBoundary parent calls origin := by
    by_cases hport : last.nodeId ∈ call.subgraph.ports
    · exact exists_port_boundary hvalid hsite hnext hport
    · have hcopy : Unrolls parent calls (.copy call.nodeId iteration last.nodeId) last _ :=
        .copy hcall hsite.mem hsite.nodeId_eq hiteration hlast hport
      exact ⟨_, .body hport, _, ⟨last, _, hcopy, hboundary⟩, .refl⟩
  obtain ⟨origin, horigin, hreach⟩ := hend
  obtain ⟨first, hfirst, hinside⟩ := iteration_path hcall hsite hiteration hpath horigin
  rw [hfirst.eq_copy hbody] at hinside
  exact hreach.of_path hinside

/-- Every copy of a body node reaches a boundary: a waiting node of its own iteration, or a
port and from there the next iteration or the parent. -/
theorem copy_reachesBoundary (hcall : call ∈ calls) (hsite : CallSite parent call site)
    (remaining : Nat) (hremaining : iteration + remaining + 1 = call.maximumIterations)
    (hnode : node ∈ call.subgraph.graph.nodes) (hbody : node.nodeId ∉ call.subgraph.ports) :
    ReachesBoundary parent calls (.copy call.nodeId iteration node.nodeId) := by
  induction remaining generalizing iteration node with
  | zero =>
    exact copy_boundary_step hvalid hcall hsite (by omega) (fun h => by omega) hnode hbody
  | succ remaining ih =>
    refine copy_boundary_step hvalid hcall hsite (by omega) (fun _ entry hentry => ?_) hnode hbody
    have hmem := call.subgraph.graph.wellShaped.closed.entry_mem entry hentry
    obtain ⟨first, hfirst, rfl⟩ := List.mem_map.mp hmem
    exact ih (by omega) hfirst (call.subgraph.entry_not_port _ hentry)

theorem unrolled_boundary (h : Unrolls parent calls origin node target) : ReachesBoundary parent calls origin := by
  cases h with
  | parent hnode hplain =>
    obtain ⟨origin, horigin, hboundary⟩ := exists_parent_boundary hvalid hnode
    rw [← horigin.eq_parent hplain]
    exact hboundary
  | @copy call _ _ iteration hcall _ _ hiteration hnode hbody =>
    obtain ⟨site, hsite⟩ := hvalid.exists_callSite hcall
    exact copy_reachesBoundary hvalid hcall hsite (call.maximumIterations - iteration - 1)
      (by omega) hnode hbody

end Parent

end StateKnot
