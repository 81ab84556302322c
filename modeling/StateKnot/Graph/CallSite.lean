import StateKnot.Graph.Template

/-!
# Validated calls

What the checks on subgraph calls establish.  A template has a body, a validated
call replaces a pure router of the parent, and the routes of that router
correspond one to one to the template's ports (`CallSite`).
-/

namespace StateKnot

open Lib

variable {E : Encoding}

/-! ## Template bodies -/

namespace SharedStateSubgraph

variable {subgraph : SharedStateSubgraph E}

theorem mem_bodyNodes {node : GraphNode} {ordinal : Nat} :
    (node, ordinal) ∈ subgraph.bodyNodes ↔
      subgraph.graph.nodes[ordinal]? = some node ∧ node.nodeId ∉ subgraph.ports := by
  rw [bodyNodes, List.mem_filter, List.mem_zipIdx_iff_getElem?]
  simp

theorem exists_mem_bodyNodes {node : GraphNode} (hnode : node ∈ subgraph.graph.nodes)
    (hbody : node.nodeId ∉ subgraph.ports) : ∃ ordinal, (node, ordinal) ∈ subgraph.bodyNodes := by
  obtain ⟨ordinal, hordinal⟩ := List.mem_iff_getElem?.mp hnode
  exact ⟨ordinal, mem_bodyNodes.mpr ⟨hordinal, hbody⟩⟩

theorem mem_nodes_of_mem_bodyNodes {entry : GraphNode × Nat}
    (h : entry ∈ subgraph.bodyNodes) :
    entry.1 ∈ subgraph.graph.nodes ∧ entry.1.nodeId ∉ subgraph.ports := by
  obtain ⟨hget, hbody⟩ := mem_bodyNodes.mp h
  exact ⟨List.mem_of_getElem? hget, hbody⟩

theorem length_bodyNodes :
    subgraph.bodyNodes.length = subgraph.graph.nodes.length - subgraph.ports.length := by
  have hfilter : subgraph.bodyNodes.length =
      subgraph.graph.nodes.countP (fun node => !node.terminal) := by
    have hmap : subgraph.bodyNodes.map Prod.fst =
        subgraph.graph.nodes.filter (fun node => node.nodeId ∉ subgraph.ports) := by
      have hzip := List.zipIdx_map_fst 0 subgraph.graph.nodes
      conv_rhs => rw [← hzip]
      rw [List.filter_map]
      rfl
    rw [← List.length_map (f := Prod.fst), hmap, ← List.countP_eq_length_filter]
    apply List.countP_congr
    intro node hnode
    simp [nodeId_mem_ports hnode]
  have hports : subgraph.ports.length = subgraph.graph.nodes.countP GraphNode.terminal := by
    rw [subgraph.ports_eq, nodeIds, List.length_map, ← List.countP_eq_length_filter]
  have htotal := List.length_eq_countP_add_countP GraphNode.terminal (l := subgraph.graph.nodes)
  have hnot : subgraph.graph.nodes.countP (fun node => !node.terminal) =
      subgraph.graph.nodes.countP (fun node => decide ¬ node.terminal = true) := by
    apply List.countP_congr
    intro node _
    simp
  omega

/-- Entry nodes are body nodes, so a template has a body. -/
theorem bodyNodes_ne_nil : subgraph.bodyNodes ≠ [] := by
  obtain ⟨entry, hentry⟩ := List.exists_mem_of_ne_nil _ subgraph.graph.wellShaped.entry_nonempty
  have hmem := subgraph.graph.wellShaped.closed.entry_mem entry hentry
  obtain ⟨node, hnode, rfl⟩ := List.mem_map.mp hmem
  obtain ⟨ordinal, hordinal⟩ := exists_mem_bodyNodes hnode (subgraph.entry_not_port _ hentry)
  exact List.ne_nil_of_mem hordinal

end SharedStateSubgraph

theorem GraphSubgraphCall.copyCount_pos (call : GraphSubgraphCall E) : 0 < call.copyCount := by
  have hbody := List.length_pos_of_ne_nil call.subgraph.bodyNodes_ne_nil
  rw [SharedStateSubgraph.length_bodyNodes] at hbody
  exact Nat.mul_pos hbody call.iterations_ok.1

/-! ## Validated calls -/

/-- Calls that `collect_calls` accepts together. -/
structure ValidCalls (parent : CompiledGraph E) (calls : List (GraphSubgraphCall E)) : Prop where
  ids_nodup : (calls.map GraphSubgraphCall.nodeId).Nodup
  valid : ∀ call ∈ calls, validateCall parent call = .ok ()
  count : expandedCount parent calls ≤ CompiledGraph.maxNodes

/-- The running count of `collect_calls` trades each call site for its copies. -/
theorem expandedCount_add (parent : CompiledGraph E) (calls : List (GraphSubgraphCall E)) :
    expandedCount parent calls + calls.length =
      parent.nodes.length + (calls.map GraphSubgraphCall.copyCount).sum := by
  have hgeneral : ∀ (rest : List (GraphSubgraphCall E)) (count : Nat), 0 < count →
      rest.foldl (fun count call => count - 1 + call.copyCount) count + rest.length =
        count + (rest.map GraphSubgraphCall.copyCount).sum := by
    intro rest
    induction rest with
    | nil => intro count _; rfl
    | cons call rest ih =>
      intro count hcount
      have hpos := call.copyCount_pos
      have hrest := ih (count - 1 + call.copyCount) (by omega)
      rw [List.foldl_cons, List.length_cons, List.map_cons, List.sum_cons]
      omega
  exact hgeneral calls _ (List.length_pos_of_ne_nil parent.nodes_nonempty)

variable {parent : CompiledGraph E} {call : GraphSubgraphCall E}

theorem ValidCalls.of_perm {calls calls' : List (GraphSubgraphCall E)}
    (h : ValidCalls parent calls) (hperm : calls.Perm calls') : ValidCalls parent calls' := by
  refine ⟨(hperm.map _).nodup_iff.mp h.ids_nodup,
    fun call hcall => h.valid call (hperm.mem_iff.mpr hcall), ?_⟩
  have hcount := h.count
  have hbefore := expandedCount_add parent calls
  have hafter := expandedCount_add parent calls'
  rw [← (hperm.map _).sum_eq, ← hperm.length_eq] at hafter
  omega

/-- A call adds at least as many nodes as it replaces. -/
theorem expandedCount_le_append (parent : CompiledGraph E) (seen rest : List (GraphSubgraphCall E)) :
    expandedCount parent seen ≤ expandedCount parent (seen ++ rest) := by
  have hseen := expandedCount_add parent seen
  have hall := expandedCount_add parent (seen ++ rest)
  have hrest : rest.length ≤ (rest.map GraphSubgraphCall.copyCount).sum := by
    rw [← List.length_map (f := GraphSubgraphCall.copyCount)]
    apply List.length_le_sum_of_one_le
    intro count hcount
    obtain ⟨call, _, rfl⟩ := List.mem_map.mp hcount
    exact call.copyCount_pos
  rw [List.length_append, List.map_append, List.sum_append] at hall
  omega

theorem ValidCalls.of_append {seen rest : List (GraphSubgraphCall E)}
    (h : ValidCalls parent (seen ++ rest)) : ValidCalls parent seen := by
  have hids := h.ids_nodup
  rw [List.map_append] at hids
  exact ⟨hids.of_append_left, fun call hcall => h.valid call (List.mem_append_left _ hcall),
    (expandedCount_le_append parent seen rest).trans h.count⟩

theorem acceptCall_eq_ok {seen : List (GraphSubgraphCall E)} {u : Unit} (hseen : ValidCalls parent seen) :
    acceptCall parent seen call = .ok u ↔ ValidCalls parent (seen ++ [call]) := by
  simp only [acceptCall, bind_eq_ok, reject_eq_ok, not_lt]
  constructor
  · rintro ⟨_, hfresh, _, hcall, hbound⟩
    refine ⟨nodup_map_append_singleton.mpr ⟨hseen.ids_nodup, hfresh⟩, ?_, hbound⟩
    intro other hother
    rcases List.mem_append.mp hother with hother | hother
    · exact hseen.valid other hother
    · rw [List.mem_singleton.mp hother]
      exact hcall
  · intro h
    exact ⟨(), (nodup_map_append_singleton.mp h.ids_nodup).2, (),
      h.valid call (by simp), h.count⟩

/-- `collect_calls` accepts valid calls and orders them by call site. -/
theorem collectCalls_eq_ok {calls byId : List (GraphSubgraphCall E)} :
    collectCalls parent calls = .ok byId ↔
      ValidCalls parent calls ∧ byId = sortByKey GraphSubgraphCall.nodeId calls := by
  have hcollect : ∀ {out}, collect (acceptCall parent) [] calls = .ok out ↔
      out = calls ∧ ValidCalls parent calls := fun {out} =>
    collect_eq_ok_iff (ValidCalls parent) ValidCalls.of_append acceptCall_eq_ok
      ⟨by simp, by simp, parent.collectable.bounded⟩
  simp only [collectCalls, bind_eq_ok, hcollect]
  constructor
  · intro h
    obtain ⟨_, ⟨rfl, hvalid⟩, hreturn⟩ := h
    cases hreturn
    exact ⟨hvalid, rfl⟩
  · intro h
    obtain ⟨hvalid, rfl⟩ := h
    exact ⟨calls, ⟨rfl, hvalid⟩, rfl⟩

theorem validCalls_of_collectCalls
    {calls byId : List (GraphSubgraphCall E)} (h : collectCalls parent calls = .ok byId) :
    ValidCalls parent byId ∧ byId.Perm calls := by
  obtain ⟨hvalid, rfl⟩ := collectCalls_eq_ok.mp h
  have hperm := sortByKey_perm GraphSubgraphCall.nodeId calls
  exact ⟨hvalid.of_perm hperm.symm, hperm⟩

theorem GraphSubgraphCall.matchesReturn_inj {port : NodeId}
    {routeId routeId' : RouteId} (h : call.matchesReturn port routeId = true)
    (h' : call.matchesReturn port routeId' = true) : routeId = routeId' := by
  unfold matchesReturn at h h'
  split at h
  · next bound hbound =>
    rw [hbound] at h'
    exact (of_decide_eq_true h).symm.trans (of_decide_eq_true h')
  · next hbound =>
    rw [hbound] at h'
    exact Ident.text_injective ((of_decide_eq_true h).symm.trans (of_decide_eq_true h'))

/-- The parent route through which a port returns. -/
def GraphSubgraphCall.returnRoute (call : GraphSubgraphCall E) (site : GraphNode)
    (port : NodeId) : Option GraphRoute :=
  site.routes.routes.find? (fun route => call.matchesReturn port route.routeId)

/-- The node that a validated call replaces: it only routes, and its routes correspond to
the ports of the template. -/
structure CallSite (parent : CompiledGraph E) (call : GraphSubgraphCall E) (site : GraphNode) :
    Prop where
  mem : site ∈ parent.nodes
  nodeId_eq : site.nodeId = call.nodeId
  mem_successors : ∀ {target}, target ∈ site.successors ↔
    ∃ route ∈ site.routes.routes, target ∈ route.successors
  not_boundary : site.isBoundary = false
  route_of_port : ∀ port ∈ call.subgraph.ports, ∃ route, call.returnRoute site port = some route
  port_of_route : ∀ route ∈ site.routes.routes, ∃ port ∈ call.subgraph.ports,
    call.returnRoute site port = some route

theorem GraphSubgraphCall.returnRoute_eq_some {site : GraphNode}
    {port : NodeId} {route : GraphRoute} :
    call.returnRoute site port = some route ↔
      route ∈ site.routes.routes ∧ call.matchesReturn port route.routeId = true := by
  constructor
  · intro h
    exact ⟨List.mem_of_find?_eq_some h, by simpa using List.find?_some h⟩
  · intro ⟨hmem, hmatch⟩
    have hsome : (call.returnRoute site port).isSome := by
      rw [returnRoute, List.find?_isSome]
      exact ⟨route, hmem, hmatch⟩
    obtain ⟨found, hfound⟩ := Option.isSome_iff_exists.mp hsome
    have hid := matchesReturn_inj (by simpa using List.find?_some hfound) hmatch
    rw [hfound, site.routes.sorted.eq_of_key_eq (List.mem_of_find?_eq_some hfound) hmem hid]

theorem callSite_of_validateCall
    (h : validateCall parent call = .ok ()) : ∃ site, CallSite parent call site := by
  simp only [validateCall, bind_eq_ok, okOr_eq_ok, reject_eq_ok, not_or] at h
  obtain ⟨site, hnode, _, ⟨hcontinue, hwait, hterminal, hlength, hroutes⟩, _⟩ := h
  obtain ⟨hmem, hid⟩ := CompiledGraph.node_eq_some.mp hnode
  have hcontinue : site.continueTo = none := by simpa using hcontinue
  have hwait : site.waitTo = none := by simpa using hwait
  have hmatch : ∀ route ∈ site.routes.routes, ∃ port, port ∈ call.subgraph.ports ∧
      call.matchesReturn port route.routeId = true := by
    intro route hroute
    by_contra hnone
    refine hroutes ⟨route, hroute, ?_⟩
    rintro ⟨port, hport⟩
    exact hnone ⟨port, hport⟩
  -- Distinct routes have distinct ports, and there are as many of each.
  have hinhabited : Nonempty NodeId :=
    ⟨(List.exists_mem_of_ne_nil _ call.subgraph.ports_nonempty).choose⟩
  choose! portOf hportOf using hmatch
  have hnodup : (site.routes.routes.map portOf).Nodup := by
    apply List.Nodup.map_on _ site.routes.sorted.nodup
    intro route hroute route' hroute' heq
    have hmatch' := (hportOf route' hroute').2
    rw [← heq] at hmatch'
    exact site.routes.sorted.eq_of_key_eq hroute hroute'
      (GraphSubgraphCall.matchesReturn_inj (hportOf route hroute).2 hmatch')
  have hsubset : site.routes.routes.map portOf ⊆ call.subgraph.ports := by
    intro port hport
    obtain ⟨route, hroute, rfl⟩ := List.mem_map.mp hport
    exact (hportOf route hroute).1
  have hperm : (site.routes.routes.map portOf).Perm call.subgraph.ports := by
    apply (List.subperm_of_subset hnodup hsubset).perm_of_length_le
    rw [List.length_map]
    omega
  refine ⟨site, hmem, hid, ?_, by simp [GraphNode.isBoundary, hterminal, hwait], ?_, ?_⟩
  · intro target
    rw [GraphNode.mem_successors]
    simp [GraphNode.mem_successorSets, hcontinue, hwait]
  · intro port hport
    obtain ⟨route, hroute, rfl⟩ := List.mem_map.mp (hperm.mem_iff.mpr hport)
    exact ⟨route, GraphSubgraphCall.returnRoute_eq_some.mpr ⟨hroute, (hportOf route hroute).2⟩⟩
  · intro route hroute
    exact ⟨portOf route, (hportOf route hroute).1,
      GraphSubgraphCall.returnRoute_eq_some.mpr ⟨hroute, (hportOf route hroute).2⟩⟩

end StateKnot
