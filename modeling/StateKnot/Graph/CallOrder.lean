import StateKnot.Graph.Expansion

/-!
# The order and the size of calls

`collect_calls` reads the calls in the order they are listed and keeps a running count of
the nodes that the expansion will have.  Every call has a body, so the count never falls
and its first excess is an excess of the whole list; the calls themselves are stored by
call site.  So the order does not show in the composition, and the count is the size of
the graph that the expansion materializes.
-/

namespace StateKnot

open Lib

variable {E : Encoding} {parent : CompiledGraph E} {calls calls' byId : List (GraphSubgraphCall E)}

/-! ## The count -/

theorem SharedStateSubgraph.length_ports_le (subgraph : SharedStateSubgraph E) :
    subgraph.ports.length ≤ subgraph.graph.nodes.length := by
  rw [subgraph.ports_eq, nodeIds, List.length_map]
  exact List.length_filter_le _ _

theorem GraphSubgraphCall.copyCount_eq (call : GraphSubgraphCall E) :
    call.copyCount = call.subgraph.bodyNodes.length * call.maximumIterations := by
  rw [copyCount, SharedStateSubgraph.length_bodyNodes]

/-- The parent's nodes are counted before any call, so the count is never empty. -/
theorem expandedCount_pos (parent : CompiledGraph E) (calls : List (GraphSubgraphCall E)) :
    0 < expandedCount parent calls :=
  (List.length_pos_of_ne_nil parent.nodes_nonempty).trans_le
    (expandedCount_le_append parent [] calls)

theorem expandedCount_of_perm (hperm : calls.Perm calls') :
    expandedCount parent calls' = expandedCount parent calls := by
  have hbefore := expandedCount_add parent calls
  have hafter := expandedCount_add parent calls'
  rw [← (hperm.map _).sum_eq, ← hperm.length_eq] at hafter
  omega

theorem ValidCalls.length_le_nodes (hvalid : ValidCalls parent calls) :
    calls.length ≤ parent.nodes.length := by
  rw [← hvalid.length_sites, ← List.length_map (f := GraphNode.nodeId)]
  exact List.length_filter_le _ _

/-- Each call site is traded for the copies of its template's body. -/
theorem ValidCalls.expandedCount_eq (hvalid : ValidCalls parent calls) :
    expandedCount parent calls = parent.nodes.length - calls.length +
      (calls.map fun call => call.subgraph.bodyNodes.length * call.maximumIterations).sum := by
  have hcopies : calls.map GraphSubgraphCall.copyCount =
      calls.map fun call => call.subgraph.bodyNodes.length * call.maximumIterations :=
    List.map_congr_left fun call _ => call.copyCount_eq
  have hadd := expandedCount_add parent calls
  have hsites := hvalid.length_le_nodes
  rw [hcopies] at hadd
  omega

/-! ## The check on the count -/

theorem validateCall_ne_expansionTooLarge {call : GraphSubgraphCall E} :
    validateCall parent call ≠ .error .expansionTooLarge := by
  intro h
  simp only [validateCall, bind_eq_error, reject_eq_error] at h
  rcases h with h | ⟨node, _, ⟨_, h⟩ | ⟨_, _, ⟨_, h⟩ | ⟨_, _, _, h⟩⟩⟩
  · cases hnode : parent.node call.nodeId with
    | none =>
      rw [hnode] at h
      cases h
    | some node =>
      rw [hnode] at h
      cases h
  all_goals cases h

/-- Calls are rejected for their size only if the whole list is too large. -/
theorem lt_expandedCount_of_collectCalls
    (h : collectCalls parent calls = .error .expansionTooLarge) :
    CompiledGraph.maxNodes < expandedCount parent calls := by
  rw [collectCalls, bind_eq_error] at h
  rcases h with hcollect | ⟨_, _, hreturn⟩
  · obtain ⟨before, call, after, rfl, haccept⟩ := exists_of_collect_eq_error hcollect
    rw [List.nil_append] at haccept
    simp only [acceptCall, bind_eq_error, reject_eq_error] at haccept
    rcases haccept with ⟨_, herror⟩ | ⟨_, _, hcall | ⟨_, _, hlarge, _⟩⟩
    · cases herror
    · exact absurd hcall validateCall_ne_expansionTooLarge
    · -- The count only grows along the rest of the list.
      have hgrows := expandedCount_le_append parent (before ++ [call]) after
      rw [List.append_assoc, List.singleton_append] at hgrows
      exact hlarge.trans_le hgrows
  · cases hreturn

/-- Among calls that pass their own checks the count decides. -/
theorem collectCalls_decides (hids : (calls.map GraphSubgraphCall.nodeId).Nodup)
    (hcalls : ∀ call ∈ calls, validateCall parent call = .ok ()) :
    ((∃ byId, collectCalls parent calls = .ok byId) ↔
      expandedCount parent calls ≤ CompiledGraph.maxNodes) ∧
    (collectCalls parent calls = .error .expansionTooLarge ↔
      CompiledGraph.maxNodes < expandedCount parent calls) := by
  have hfits : (∃ byId, collectCalls parent calls = .ok byId) ↔
      expandedCount parent calls ≤ CompiledGraph.maxNodes := by
    simp only [collectCalls_eq_ok]
    exact ⟨fun ⟨_, hvalid, _⟩ => hvalid.count, fun hcount => ⟨_, ⟨hids, hcalls, hcount⟩, rfl⟩⟩
  refine ⟨hfits, lt_expandedCount_of_collectCalls, fun hlarge => ?_⟩
  cases hresult : collectCalls parent calls with
  | ok byId => exact absurd (hfits.mp ⟨byId, hresult⟩) (Nat.not_le.mpr hlarge)
  | error error =>
    -- Distinct call sites that validate leave only the size as a reason.
    rw [collectCalls, bind_eq_error] at hresult
    rcases hresult with hcollect | ⟨_, _, hreturn⟩
    · obtain ⟨before, call, after, rfl, haccept⟩ := exists_of_collect_eq_error hcollect
      rw [List.nil_append] at haccept
      simp only [acceptCall, bind_eq_error, reject_eq_error] at haccept
      rcases haccept with ⟨hsame, _⟩ | ⟨_, _, hcall | ⟨_, _, _, herror⟩⟩
      · rw [List.map_append, List.map_cons, List.nodup_middle, List.nodup_cons] at hids
        exact absurd (List.mem_append_left _ hsame) hids.1
      · rw [hcalls call (by simp)] at hcall
        cases hcall
      · rw [herror]
    · cases hreturn

/-! ## The composition -/

theorem collectCalls_of_perm (hperm : calls.Perm calls')
    (h : collectCalls parent calls = .ok byId) : collectCalls parent calls' = .ok byId := by
  obtain ⟨hvalid, rfl⟩ := collectCalls_eq_ok.mp h
  exact collectCalls_eq_ok.mpr ⟨hvalid.of_perm hperm, sortByKey_eq_of_perm hperm hvalid.ids_nodup⟩

namespace GraphComposition

variable {composition : GraphComposition E}

theorem compile_eq_ok : compile parent calls = .ok composition ↔
    ∃ byId, collectCalls parent calls = .ok byId ∧
      compileCollected parent byId = .ok composition := by
  rw [compile, bind_eq_ok]

theorem compile_of_perm (hperm : calls.Perm calls') (h : compile parent calls = .ok composition) :
    compile parent calls' = .ok composition := by
  obtain ⟨byId, hcalls, hcollected⟩ := compile_eq_ok.mp h
  exact compile_eq_ok.mpr ⟨byId, collectCalls_of_perm hperm hcalls, hcollected⟩

theorem length_of_compileExpansion {expansion : Expansion} {graph : CompiledGraph E}
    (h : compileExpansion parent expansion = .ok graph) :
    graph.nodes.length = expansion.nodes.length := by
  have hdefinition := CompiledGraph.build_eq_ok h
  have hnodes : graph.nodes = sortByKey GraphNode.nodeId expansion.nodes :=
    congrArg GraphDefinition.nodes hdefinition
  rw [hnodes]
  exact (sortByKey_perm _ _).length_eq

theorem length_nodes (h : compile parent calls = .ok composition) :
    composition.graph.nodes.length = expandedCount parent calls := by
  obtain ⟨byId, hcalls, hcollected⟩ := compile_eq_ok.mp h
  obtain ⟨hvalid, hperm⟩ := validCalls_of_collectCalls hcalls
  rw [expandedCount_of_perm hperm]
  cases byId with
  | nil =>
    cases hcollected
    rfl
  | cons call rest =>
    simp only [compileCollected, bind_eq_ok, mapError_eq_ok] at hcollected
    obtain ⟨_, _, expansion, hexpand, graph, hgraph, hreturn⟩ := hcollected
    cases hreturn
    show graph.nodes.length = _
    rw [length_of_compileExpansion hgraph]
    exact (expansionOf_of_expand hvalid hexpand).length_eq

end GraphComposition

/-- The composition does not depend on the order of the calls, and the count of
`collect_calls` is the size of what is composed.  The count is of the parent's nodes without
the call sites and of every iteration's body; it rejects calls only if their expansion is
too large, what it accepts stays within the limit while it is materialized, and none of its
subtractions goes below zero. -/
theorem composition_order_and_size (parent : CompiledGraph E) :
    (∀ calls calls' : List (GraphSubgraphCall E), calls.Perm calls' →
      (GraphComposition.compile parent calls').toOption =
        (GraphComposition.compile parent calls).toOption) ∧
    (∀ calls composition, GraphComposition.compile parent calls = .ok composition →
      composition.graph.nodes.length = expandedCount parent calls ∧
      calls.length ≤ parent.nodes.length ∧
      expandedCount parent calls = parent.nodes.length - calls.length +
        (calls.map fun call => call.subgraph.bodyNodes.length * call.maximumIterations).sum) ∧
    (∀ calls, collectCalls parent calls = .error .expansionTooLarge →
      CompiledGraph.maxNodes < expandedCount parent calls) ∧
    (∀ calls : List (GraphSubgraphCall E), (calls.map GraphSubgraphCall.nodeId).Nodup →
      (∀ call ∈ calls, validateCall parent call = .ok ()) →
        ((∃ byId, collectCalls parent calls = .ok byId) ↔
          expandedCount parent calls ≤ CompiledGraph.maxNodes) ∧
        (collectCalls parent calls = .error .expansionTooLarge ↔
          CompiledGraph.maxNodes < expandedCount parent calls)) ∧
    (∀ calls byId, collectCalls parent calls = .ok byId →
      (bodyInstances byId).length ≤ CompiledGraph.maxNodes ∧
      ∀ expansion, expand parent byId = .ok expansion →
        expansion.nodes.length = expandedCount parent calls ∧
        expansion.nodes.length ≤ CompiledGraph.maxNodes) ∧
    (∀ calls, 1 ≤ expandedCount parent calls) ∧
    ∀ call : GraphSubgraphCall E,
      call.subgraph.ports.length ≤ call.subgraph.graph.nodes.length := by
  refine ⟨?_, ?_, fun calls => lt_expandedCount_of_collectCalls,
    fun calls => collectCalls_decides, ?_,
    expandedCount_pos parent, fun call => call.subgraph.length_ports_le⟩
  · intro calls calls' hperm
    ext composition
    rw [toOption_eq_some, toOption_eq_some]
    exact ⟨GraphComposition.compile_of_perm hperm.symm, GraphComposition.compile_of_perm hperm⟩
  · intro calls composition h
    obtain ⟨byId, hcalls, _⟩ := GraphComposition.compile_eq_ok.mp h
    have hvalid := (collectCalls_eq_ok.mp hcalls).1
    exact ⟨GraphComposition.length_nodes h, hvalid.length_le_nodes, hvalid.expandedCount_eq⟩
  · intro calls byId hcalls
    obtain ⟨hvalid, hperm⟩ := validCalls_of_collectCalls hcalls
    have hcount := hvalid.count
    refine ⟨?_, fun expansion hexpand => ?_⟩
    · have hadd := expandedCount_add parent byId
      have hsites := hvalid.length_le_nodes
      rw [length_bodyInstances]
      omega
    · have hlength := (expansionOf_of_expand hvalid hexpand).length_eq
      rw [expandedCount_of_perm hperm]
      exact ⟨hlength, hlength ▸ hcount⟩

end StateKnot
