import StateKnot.Graph.Finite
import StateKnot.Graph.Unrolling

/-!
# Progress through the unrolled graph

A step of the unrolled graph follows an edge of the parent or stays in the copies of one
call.  Steps of the second kind go forward: within an iteration along the acyclic template,
whose body nodes have a depth up to the step limit, and otherwise to the next iteration.
So a call is left after finitely many steps, and unrolling an acyclic parent closes no cycle.
-/

namespace StateKnot

open Lib

variable {E : Encoding}

/-- Nodes of a template can be numbered along its edges, body nodes up to the step limit. -/
theorem SharedStateSubgraph.exists_depth (subgraph : SharedStateSubgraph E) :
    ∃ depth : NodeId → Nat,
      (∀ source target, Edge subgraph.graph.edges source target → depth source < depth target) ∧
      ∀ nodeId ∈ nodeIds subgraph.graph.nodes, nodeId ∉ subgraph.ports →
        0 < depth nodeId ∧ depth nodeId ≤ subgraph.graph.limits.maximumSupersteps.value := by
  obtain ⟨hshallow, hacyclic⟩ := validateFiniteTemplate_visits.mp subgraph.finite
  have hinside := subgraph.graph.edges_inside
  obtain ⟨last, hlast, _, hdepths⟩ := layered_allVisits hinside
  have hvisited : ∀ nodeId ∈ nodeIds subgraph.graph.nodes,
      nodeId ∈ (templateVisits subgraph.graph).map Prod.fst :=
    fun nodeId hmem => ((allVisits_perm_iff hinside).mpr hacyclic).mem_iff.mpr hmem
  refine ⟨last.depths, fun source target hedge => ?_, fun nodeId hmem hbody => ?_⟩
  · exact hlast.depths_lt hvisited hinside.source (.single hedge)
  · obtain ⟨visit, hvisit, rfl⟩ := List.mem_map.mp (hvisited nodeId hmem)
    have hpath : ([] ++ [visit.1]).IsChain (Edge subgraph.graph.edges) := by simp
    rw [hdepths visit hvisit]
    exact ⟨length_le_of_mem_allVisits hinside hvisit hpath,
      not_lt.mp fun hdeep => hshallow visit hvisit ⟨hbody, hdeep⟩⟩

/-- A numbering of the template's nodes along its edges. -/
noncomputable def SharedStateSubgraph.depth (subgraph : SharedStateSubgraph E) : NodeId → Nat :=
  subgraph.exists_depth.choose

/-- The parent node at which control is: a copy belongs to its call site. -/
def Origin.site : Origin → NodeId
  | .parent nodeId => nodeId
  | .copy callSite _ _ => callSite

/-- The most steps that control takes through the copies of a call. -/
def GraphSubgraphCall.maximumSteps (call : GraphSubgraphCall E) : Nat :=
  call.maximumIterations * call.subgraph.graph.limits.maximumSupersteps.value

/-- How far control has come in the copies of a call. -/
noncomputable def GraphSubgraphCall.rank (call : GraphSubgraphCall E) : Origin → Nat
  | .parent _ => 0
  | .copy _ iteration nodeId =>
    iteration * call.subgraph.graph.limits.maximumSupersteps.value + call.subgraph.depth nodeId

/-- A step forward in the copies of a call. -/
structure Forward (call : GraphSubgraphCall E) (origin origin' : Origin) : Prop where
  site_eq : origin.site = call.nodeId
  site_eq' : origin'.site = call.nodeId
  started : 0 < call.rank origin
  forward : call.rank origin < call.rank origin'
  bounded : call.rank origin' ≤ call.maximumSteps

variable {parent : CompiledGraph E} {calls : List (GraphSubgraphCall E)}
  {call : GraphSubgraphCall E} {origin origin' : Origin}

theorem ParentTarget.site_eq {nodeId : NodeId} (h : ParentTarget calls nodeId origin) :
    origin.site = nodeId := by
  cases h <;> rfl

/-- Copies of a later iteration, or deeper in the same one, come later. -/
theorem forward_copy {iteration iteration' : Nat} {node : GraphNode} {nodeId : NodeId}
    (hnode : node ∈ call.subgraph.graph.nodes) (hbody : node.nodeId ∉ call.subgraph.ports)
    (hmem : nodeId ∈ nodeIds call.subgraph.graph.nodes) (hbody' : nodeId ∉ call.subgraph.ports)
    (hnext : iteration' = iteration ∧ nodeId ∈ node.successors ∨ iteration' = iteration + 1)
    (hiteration : iteration' < call.maximumIterations) :
    Forward call (.copy call.nodeId iteration node.nodeId)
      (.copy call.nodeId iteration' nodeId) := by
  obtain ⟨hedges, hdepth⟩ := call.subgraph.exists_depth.choose_spec
  obtain ⟨hpos, hle⟩ := hdepth node.nodeId (List.mem_map_of_mem hnode) hbody
  obtain ⟨hpos', hle'⟩ := hdepth nodeId hmem hbody'
  have hturns := Nat.mul_le_mul_right call.subgraph.graph.limits.maximumSupersteps.value
    (Nat.succ_le_of_lt hiteration)
  rw [Nat.succ_mul] at hturns
  refine ⟨rfl, rfl, Nat.add_pos_right _ hpos, ?_, ?_⟩
  · rcases hnext with ⟨rfl, hnext⟩ | rfl
    · apply Nat.add_lt_add_left
      apply hedges
      rw [Edge, CompiledGraph.edges_nodeId hnode]
      exact hnext
    · show _ + _ < (iteration + 1) * _ + _
      rw [Nat.succ_mul]
      exact Nat.lt_of_le_of_lt (Nat.add_le_add_left hle _) (Nat.lt_add_of_pos_right hpos')
  · exact (Nat.add_le_add_left hle' _).trans hturns

/-- A step of the unrolled graph follows an edge of the parent or goes forward in a call. -/
theorem UnrolledStep.edge_or_forward (h : UnrolledStep parent calls origin origin') :
    Edge parent.edges origin.site origin'.site ∨ ∃ call ∈ calls, Forward call origin origin' := by
  obtain ⟨node, target, hunrolls, next, hnext, htarget⟩ := h
  cases hunrolls with
  | parent hnode hplain =>
    left
    rw [htarget.site_eq, Edge, Origin.site, CompiledGraph.edges_nodeId hnode]
    exact hnext
  | @copy call site _ iteration hcall hsite hid hiteration hnode hbody =>
    have hclosed := call.subgraph.graph.wellShaped.closed
    cases htarget with
    | body hbody' =>
      exact .inr ⟨call, hcall, forward_copy hnode hbody (hclosed.successors_mem node hnode _ hnext)
        hbody' (.inl ⟨rfl, hnext⟩) hiteration⟩
    | again _ hagain hentry =>
      exact .inr ⟨call, hcall, forward_copy hnode hbody (hclosed.entry_mem _ hentry)
        (call.subgraph.entry_not_port _ hentry) (.inr rfl) hagain⟩
    | exit _ _ hroute hmem horigin =>
      left
      rw [horigin.site_eq, Edge, Origin.site, ← hid, CompiledGraph.edges_nodeId hsite,
        GraphNode.mem_successors]
      have hroute := (GraphSubgraphCall.returnRoute_eq_some.mp hroute).1
      exact ⟨_, GraphNode.mem_successorSets.mpr (.inr (.inl ⟨_, hroute, rfl⟩)), hmem⟩

variable (hvalid : ValidCalls parent calls)

include hvalid

theorem unrolled_acyclic (hacyclic : Acyclic parent.edges) :
    ¬ Relation.TransGen (UnrolledStep parent calls) origin origin := by
  -- A path takes an edge of the parent, or all its steps go forward in one call.
  have hpath : ∀ {origin'}, Relation.TransGen (UnrolledStep parent calls) origin origin' →
      Relation.TransGen (Edge parent.edges) origin.site origin'.site ∨
        ∃ call ∈ calls, Forward call origin origin' := by
    intro origin' hpath
    induction hpath with
    | single hstep => exact hstep.edge_or_forward.imp .single id
    | tail _ hstep ih =>
      rcases ih with hparent | ⟨call, hcall, hforward⟩ <;>
        rcases hstep.edge_or_forward with hedge | ⟨call', hcall', hforward'⟩
      · exact .inl (hparent.tail hedge)
      · rw [hforward'.site_eq, ← hforward'.site_eq'] at hparent
        exact .inl hparent
      · rw [hforward.site_eq', ← hforward.site_eq] at hedge
        exact .inl (.single hedge)
      · obtain rfl : call = call' := List.inj_on_of_nodup_map hvalid.ids_nodup hcall hcall'
          (hforward.site_eq'.symm.trans hforward'.site_eq)
        exact .inr ⟨call, hcall, hforward.site_eq, hforward'.site_eq', hforward.started,
          hforward.forward.trans hforward'.forward, hforward'.bounded⟩
  intro hcycle
  rcases hpath hcycle with hparent | ⟨call, _, hforward⟩
  · exact hacyclic _ hparent
  · exact lt_irrefl _ hforward.forward

/-- Where a call site does not lead to itself, its copies are left in time. -/
theorem length_le_maximumSteps (hcall : call ∈ calls)
    (hsite : ¬ Edge parent.edges call.nodeId call.nodeId) {path : List Origin}
    (hpath : path.IsChain (UnrolledStep parent calls))
    (hinside : ∀ origin ∈ path, origin.site = call.nodeId) :
    path.length ≤ call.maximumSteps := by
  have hforward : path.IsChain (Forward call) := by
    refine hpath.imp_of_mem_imp (fun origin origin' horigin horigin' hstep => ?_)
    rcases hstep.edge_or_forward with hedge | ⟨call', hcall', hforward⟩
    · rw [hinside origin horigin, hinside origin' horigin'] at hedge
      exact absurd hedge hsite
    · obtain rfl : call = call' := List.inj_on_of_nodup_map hvalid.ids_nodup hcall hcall'
        ((hinside origin horigin).symm.trans hforward.site_eq)
      exact hforward
  clear hpath hinside
  -- The induction is on the path: what is left of it fits between its rank and the bound.
  have hgeneral : ∀ {path : List Origin} {first : Origin},
      (first :: path).IsChain (Forward call) → path ≠ [] →
        call.rank first + path.length ≤ call.maximumSteps := by
    intro path
    induction path with
    | nil => simp
    | cons second path ih =>
      intro first hchain _
      obtain ⟨hstep, hrest⟩ := List.isChain_cons_cons.mp hchain
      have hlt := hstep.forward
      have hle := hstep.bounded
      rw [List.length_cons]
      by_cases hlast : path = []
      · rw [hlast, List.length_nil]
        omega
      · have hleft := ih hrest hlast
        omega
  match path with
  | [] => exact Nat.zero_le _
  | [_] => exact Nat.mul_pos call.iterations_ok.1 call.subgraph.graph.limits.supersteps_pos
  | first :: second :: path =>
    have hstarted := (List.isChain_cons_cons.mp hforward).1.started
    have hle := hgeneral hforward (by simp)
    rw [List.length_cons]
    omega

end StateKnot
