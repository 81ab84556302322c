import StateKnot.Checkpoint.Lineage
import StateKnot.Graph.Compile

/-!
# The identity of a graph

A compiled graph is named by the digest of its canonical definition.  The order in which
nodes and routes are declared does not matter: the definition stores them by identity.
Conversely the digest determines the definition, under faithful encoders, and a graph is
read back from its serialization through the checks that compiled it.
-/

namespace StateKnot

open Lib

variable {E : Encoding}

/-! ## Definitions are determined by their canonical form -/

theorem Json.lookup_eq_of_rfc8785_eq {ms ns : List (String × Json)}
    (h : (Json.obj ms).rfc8785 = (Json.obj ns).rfc8785) (hms : (ms.map Prod.fst).Nodup)
    (hns : (ns.map Prod.fst).Nodup) (key : String) :
    (ms.lookup key).map Json.rfc8785 = (ns.lookup key).map Json.rfc8785 := by
  rw [← Json.member_rfc8785 key hms, ← Json.member_rfc8785 key hns, h]

@[simp] theorem ChildAgentReference.rfc8785_inj {a b : ChildAgentReference} :
    a.toJson.rfc8785 = b.toJson.rfc8785 ↔ a = b := by
  refine Iff.trans (Json.rfc8785_obj_inj rfl (by simp)) ?_
  cases a
  cases b
  simp

@[simp] theorem ChildRunDeclaration.rfc8785_inj {a b : ChildRunDeclaration} :
    a.toJson.rfc8785 = b.toJson.rfc8785 ↔ a = b := by
  refine Iff.trans (Json.rfc8785_obj_inj rfl (by simp)) ?_
  cases a
  cases b
  simp

theorem ChildRunTopologyLimits.rfc8785_inj {a b : ChildRunTopologyLimits} :
    a.toJson.rfc8785 = b.toJson.rfc8785 ↔ a = b := by
  refine Iff.trans (Json.rfc8785_obj_inj rfl (by simp)) ?_
  cases a
  cases b
  simp only [List.map_cons, List.map_nil, List.cons.injEq, and_true, mk.injEq]
  rw [Json.rfc8785_nat_inj (by omega) (by omega), Json.rfc8785_nat_inj (by omega) (by omega),
    Json.rfc8785_nat_inj (by omega) (by omega)]

theorem GraphChildRunPolicy.rfc8785_inj {a b : GraphChildRunPolicy} :
    a.toJson.rfc8785 = b.toJson.rfc8785 ↔ a = b := by
  refine ⟨fun h => ?_, fun h => by rw [h]⟩
  have hvalues := Json.values_of_rfc8785_eq h rfl (by simp)
  simp only [List.map_cons, List.map_nil, List.cons.injEq, ChildRunTopologyLimits.rfc8785_inj,
    and_true, true_and] at hvalues
  have hsame := Json.eq_of_rfc8785_arr_eq ChildRunDeclaration.rfc8785_inj.mp hvalues.2
  cases a
  cases b
  simp_all

@[simp] theorem GraphReducerReference.rfc8785_inj {a b : GraphReducerReference} :
    a.toJson.rfc8785 = b.toJson.rfc8785 ↔ a = b := by
  refine Iff.trans (Json.rfc8785_obj_inj rfl (by simp)) ?_
  cases a
  cases b
  simp

theorem GraphExecutionLimits.rfc8785_inj {a b : GraphExecutionLimits} :
    a.toJson.rfc8785 = b.toJson.rfc8785 ↔ a = b := by
  refine Iff.trans (Json.rfc8785_obj_inj rfl (by simp)) ?_
  have ha := a.parallelism_le
  have hb := b.parallelism_le
  cases a
  cases b
  simp only [ReadyNodes.maxLen] at ha hb
  simp only [List.map_cons, List.map_nil, List.cons.injEq, and_true, Ordinal.rfc8785_inj, mk.injEq]
  rw [Json.rfc8785_nat_inj (by omega) (by omega)]

@[simp] theorem GraphRoute.rfc8785_inj {a b : GraphRoute} :
    a.toJson.rfc8785 = b.toJson.rfc8785 ↔ a = b := by
  refine Iff.trans (Json.rfc8785_obj_inj rfl (by simp)) ?_
  cases a
  cases b
  simp

theorem GraphRoutes.rfc8785_inj {a b : GraphRoutes} :
    a.toJson.rfc8785 = b.toJson.rfc8785 ↔ a = b := by
  refine ⟨fun h => GraphRoutes.ext_routes ?_, fun h => by rw [h]⟩
  exact Json.eq_of_rfc8785_arr_eq GraphRoute.rfc8785_inj.mp h

theorem Json.optional_inj {α : Type} {toJson : α → Json} {a b : Option α}
    (hinj : ∀ {x y : α}, (toJson x).rfc8785 = (toJson y).rfc8785 → x = y)
    (h : (a.map toJson).map Json.rfc8785 = (b.map toJson).map Json.rfc8785) : a = b := by
  rw [Option.map_map, Option.map_map] at h
  refine Option.map_injective ?_ h
  intro x y hxy
  exact hinj hxy

namespace GraphNode

theorem members_nodup (node : GraphNode) : (node.members.map Prod.fst).Nodup := by
  unfold members
  cases node.continueTo <;> cases node.waitTo <;> simp [Json.optionalMember]

theorem lookup_members (node : GraphNode) :
    node.members.lookup "node_id" = some node.nodeId.toJson ∧
    node.members.lookup "continue_to" = node.continueTo.map ReadyNodes.toJson ∧
    node.members.lookup "routes" = some node.routes.toJson ∧
    node.members.lookup "wait_to" = node.waitTo.map ReadyNodes.toJson ∧
    node.members.lookup "terminal" = some (.bool node.terminal) := by
  unfold members
  cases node.continueTo <;> cases node.waitTo <;> exact ⟨rfl, rfl, rfl, rfl, rfl⟩

theorem rfc8785_inj {a b : GraphNode} :
    a.toJson.rfc8785 = b.toJson.rfc8785 ↔ a = b := by
  refine ⟨fun h => ?_, fun h => by rw [h]⟩
  replace h : (Json.obj a.members).rfc8785 = (Json.obj b.members).rfc8785 := h
  have hlookup := Json.lookup_eq_of_rfc8785_eq h a.members_nodup b.members_nodup
  obtain ⟨hnode, hcontinue, hroutes, hwait, hterminal⟩ := a.lookup_members
  obtain ⟨hnode', hcontinue', hroutes', hwait', hterminal'⟩ := b.lookup_members
  have hnodeId := hlookup "node_id"
  have hcontinueTo := hlookup "continue_to"
  have hroutesTo := hlookup "routes"
  have hwaitTo := hlookup "wait_to"
  have hends := hlookup "terminal"
  rw [hnode, hnode'] at hnodeId
  rw [hcontinue, hcontinue'] at hcontinueTo
  rw [hroutes, hroutes'] at hroutesTo
  rw [hwait, hwait'] at hwaitTo
  rw [hterminal, hterminal'] at hends
  replace hnodeId := Ident.rfc8785_inj.mp (Option.some.inj hnodeId)
  replace hcontinueTo := Json.optional_inj ReadyNodes.rfc8785_inj.mp hcontinueTo
  replace hroutesTo := GraphRoutes.rfc8785_inj.mp (Option.some.inj hroutesTo)
  replace hwaitTo := Json.optional_inj ReadyNodes.rfc8785_inj.mp hwaitTo
  replace hends : a.terminal = b.terminal := by
    simpa only [Option.map_some, Json.rfc8785_bool, Option.some.injEq, Json.bool.injEq] using hends
  cases a
  cases b
  simp_all

end GraphNode

namespace GraphDefinition

theorem members_nodup (definition : GraphDefinition) :
    (definition.members.map Prod.fst).Nodup := by
  unfold members
  cases definition.childRuns <;> simp [Json.optionalMember]

theorem lookup_childRuns (definition : GraphDefinition) :
    definition.members.lookup "child_runs" =
      definition.childRuns.map GraphChildRunPolicy.toJson := by
  unfold members
  cases definition.childRuns <;> rfl

/-- A definition is determined by the tree that its canonical bytes show. -/
theorem rfc8785_inj {a b : GraphDefinition} :
    a.toJson.rfc8785 = b.toJson.rfc8785 ↔ a = b := by
  refine ⟨fun h => ?_, fun h => by rw [h]⟩
  replace h : (Json.obj a.members).rfc8785 = (Json.obj b.members).rfc8785 := h
  have hlookup := Json.lookup_eq_of_rfc8785_eq h a.members_nodup b.members_nodup
  have hidentity := CapabilityIdentity.rfc8785_inj.mp (Option.some.inj (hlookup "identity"))
  have hinput := SchemaReference.rfc8785_inj.mp (Option.some.inj (hlookup "input_schema"))
  have hstate := SchemaReference.rfc8785_inj.mp (Option.some.inj (hlookup "state_schema"))
  have hupdate := SchemaReference.rfc8785_inj.mp
    (Option.some.inj (hlookup "update_schema"))
  have houtput := SchemaReference.rfc8785_inj.mp
    (Option.some.inj (hlookup "output_schema"))
  have hreducer := GraphReducerReference.rfc8785_inj.mp
    (Option.some.inj (hlookup "reducer"))
  have hentry := ReadyNodes.rfc8785_inj.mp (Option.some.inj (hlookup "entry_nodes"))
  have hnodes := Json.eq_of_rfc8785_arr_eq GraphNode.rfc8785_inj.mp
    (Option.some.inj (hlookup "nodes"))
  have hlimits := GraphExecutionLimits.rfc8785_inj.mp
    (Option.some.inj (hlookup "limits"))
  have hpolicy := hlookup "child_runs"
  rw [lookup_childRuns, lookup_childRuns] at hpolicy
  replace hpolicy := Json.optional_inj GraphChildRunPolicy.rfc8785_inj.mp hpolicy
  cases a
  cases b
  simp_all

end GraphDefinition

namespace CompiledGraph

variable {graph a b : CompiledGraph E}

theorem ext_definition (h : a.toGraphDefinition = b.toGraphDefinition) : a = b := by
  have hdigest : a.definitionDigest = b.definitionDigest := by
    obtain ⟨bytes, hbytes, _, hsha⟩ := a.digest_eq
    obtain ⟨bytes', hbytes', _, hsha'⟩ := b.digest_eq
    rw [h, hbytes'] at hbytes
    rw [← hsha, ← hsha', Option.some.inj hbytes]
  cases a
  cases b
  cases h
  cases hdigest
  rfl

theorem eq_of_digest_eq (hE : E.Faithful) (h : a.definitionDigest = b.definitionDigest) :
    a = b := by
  obtain ⟨bytes, hbytes, _, hdigest⟩ := a.digest_eq
  obtain ⟨bytes', hbytes', _, hdigest'⟩ := b.digest_eq
  have hsame : bytes = bytes' := hE.sha256_injective (hdigest.trans (h.trans hdigest'.symm))
  subst hsame
  exact ext_definition (GraphDefinition.rfc8785_inj.mp (hE.determinesTrees hbytes hbytes'))

/-! ## The order of declarations -/

theorem normalized_eq_of_perm {definition : GraphDefinition} {nodes : List GraphNode}
    (hperm : nodes.Perm definition.nodes) (hnodup : (nodeIds definition.nodes).Nodup) :
    normalized { definition with nodes := nodes } = normalized definition := by
  have hsorted : sortByKey GraphNode.nodeId nodes =
      sortByKey GraphNode.nodeId definition.nodes :=
    sortByKey_eq_of_perm hperm ((hperm.map _).nodup_iff.mpr hnodup)
  rw [normalized, normalized, hsorted]

theorem build_of_perm (definition : GraphDefinition) {nodes : List GraphNode}
    {suppliedDigest : Option Digest} (hperm : nodes.Perm definition.nodes)
    (h : build definition suppliedDigest = .ok graph) :
    build { definition with nodes := nodes } suppliedDigest = .ok graph := by
  obtain ⟨hne, hcollectable, hshape, hpolicy, hcanonical⟩ := exists_build_eq_ok.mp ⟨graph, h⟩
  have hsame := normalized_eq_of_perm hperm hcollectable.ids_nodup
  have hbuilt : ∃ other : CompiledGraph E,
      build { definition with nodes := nodes } suppliedDigest = .ok other := by
    refine exists_build_eq_ok.mpr ⟨?_, hcollectable.of_perm hperm.symm,
      hshape.of_perm hcollectable.ids_nodup hperm.symm, ?_, ?_⟩
    · intro hnil
      exact hne ((show nodes = [] from hnil) ▸ hperm).nil_eq.symm
    · rw [hsame]
      exact hpolicy
    · rw [hsame]
      exact hcanonical
  obtain ⟨other, hother⟩ := hbuilt
  have hgraph : other = graph :=
    ext_definition ((build_eq_ok hother).trans (hsame.trans (build_eq_ok h).symm))
  rw [hother, hgraph]

end CompiledGraph

theorem GraphRoutes.tryNew_of_perm {routes routes' : List GraphRoute} {out : GraphRoutes}
    (hperm : routes.Perm routes') (h : tryNew routes = .ok out) : tryNew routes' = .ok out := by
  obtain ⟨hnodup, hlength, hout⟩ := tryNew_eq_ok.mp h
  refine tryNew_eq_ok.mpr ⟨(hperm.map _).nodup_iff.mp hnodup, hperm.length_eq ▸ hlength, ?_⟩
  rw [hout]
  exact sortByKey_eq_of_perm hperm hnodup

/-- The arguments that a node is constructed from, its routes in the order given. -/
structure GraphNodeParts where
  nodeId : NodeId
  continueTo : Option ReadyNodes
  routes : List GraphRoute
  waitTo : Option ReadyNodes
  terminal : Bool

namespace GraphNodeParts

/-- The node, where its routes and the node itself are accepted. -/
def node (parts : GraphNodeParts) : Option GraphNode := do
  let routes ← (GraphRoutes.tryNew parts.routes).toOption
  (GraphNode.new parts.nodeId parts.continueTo routes parts.waitTo parts.terminal).toOption

/-- The same arguments, with the routes in another order. -/
structure Reordered (parts parts' : GraphNodeParts) : Prop where
  nodeId : parts'.nodeId = parts.nodeId
  continueTo : parts'.continueTo = parts.continueTo
  routes : parts'.routes.Perm parts.routes
  waitTo : parts'.waitTo = parts.waitTo
  terminal : parts'.terminal = parts.terminal

theorem Reordered.node_eq {parts parts' : GraphNodeParts} (h : parts.Reordered parts') :
    parts'.node = parts.node := by
  have hroutes : (GraphRoutes.tryNew parts'.routes).toOption =
      (GraphRoutes.tryNew parts.routes).toOption := by
    ext routes
    rw [toOption_eq_some, toOption_eq_some]
    exact ⟨GraphRoutes.tryNew_of_perm h.routes, GraphRoutes.tryNew_of_perm h.routes.symm⟩
  rw [node, node, hroutes, h.nodeId, h.continueTo, h.waitTo, h.terminal]

/-- Construct the nodes and compile the graph, with or without a delegation policy. -/
def compile (definition : GraphDefinition) (parts : List GraphNodeParts) :
    Option (CompiledGraph E) := do
  let nodes ← parts.mapM node
  (CompiledGraph.build { definition with nodes := nodes } none).toOption

/-- The same nodes in another order, the routes of each in another order. -/
def SameNodes (parts parts' : List GraphNodeParts) : Prop :=
  ∃ ordered, parts.Perm ordered ∧ List.Forall₂ Reordered ordered parts'

theorem SameNodes.map_node_perm {parts parts' : List GraphNodeParts} (h : SameNodes parts parts') :
    (parts.map node).Perm (parts'.map node) := by
  obtain ⟨ordered, hperm, hrelated⟩ := h
  have heq : ordered.map node = parts'.map node := by
    clear hperm
    induction hrelated with
    | nil => rfl
    | cons hhead _ ih => rw [List.map_cons, List.map_cons, hhead.node_eq, ih]
  rw [← heq]
  exact hperm.map node

theorem compile_of_perm {definition : GraphDefinition} {parts parts' : List GraphNodeParts}
    (hperm : (parts.map node).Perm (parts'.map node)) {graph : CompiledGraph E}
    (h : compile definition parts = some graph) : compile definition parts' = some graph := by
  simp only [compile, Option.bind_eq_bind, Option.bind_eq_some_iff, toOption_eq_some] at h ⊢
  obtain ⟨nodes, hnodes, hbuild⟩ := h
  obtain ⟨hall, rfl⟩ := mapM_eq_some_iff.mp hnodes
  have hall' : ∀ part ∈ parts', ∃ constructed, part.node = some constructed := by
    intro part hpart
    obtain ⟨source, hsource, heq⟩ := List.mem_map.mp
      (hperm.mem_iff.mpr (List.mem_map_of_mem hpart))
    rw [← heq]
    exact hall source hsource
  have hnodes' : (parts'.filterMap node).Perm (parts.filterMap node) := by
    have hfilter := hperm.symm.filterMap id
    rwa [List.filterMap_map, List.filterMap_map] at hfilter
  refine ⟨_, mapM_eq_some_iff.mpr ⟨hall', rfl⟩, ?_⟩
  -- The nodes are those of the compiled definition, so this is the permutation of `build`.
  exact CompiledGraph.build_of_perm { definition with nodes := parts.filterMap node } hnodes' hbuild

end GraphNodeParts

/-! ## Reading graphs back -/

namespace ReadyNodes

/-- `ReadyNodes::deserialize`, of what `serialize` wrote: the visitor makes the checks of
`try_new`. -/
def reread (ready : ReadyNodes) : Option ReadyNodes := (tryNew ready.nodes).toOption

@[simp] theorem reread_eq (ready : ReadyNodes) : ready.reread = some ready := by
  have hnodup : ready.nodes.Nodup := by simpa using ready.sorted.nodup_keys
  rw [reread, toOption_eq_some, tryNew_eq_ok]
  exact ⟨hnodup, ready.bounded, ready.sorted.sortByKey_eq.symm⟩

end ReadyNodes

theorem traverse_reread {α : Type} {reread : α → Option α} (h : ∀ value, reread value = some value)
    (value : Option α) : value.mapM reread = some value := by
  cases value with
  | none => rfl
  | some value => exact congrArg (Option.map some) (h value)

namespace GraphExecutionLimits

/-- `GraphExecutionLimits::deserialize`, of what `serialize` wrote. -/
def reread (limits : GraphExecutionLimits) : Option GraphExecutionLimits :=
  (new limits.maximumSupersteps limits.maximumParallelism).toOption

@[simp] theorem reread_eq (limits : GraphExecutionLimits) : limits.reread = some limits := by
  have hsupersteps := limits.supersteps_pos
  have hparallelism := limits.parallelism_pos
  have hmaximum := limits.parallelism_le
  unfold reread new
  rw [dif_neg (by omega), dif_neg (by omega), dif_neg (by omega)]
  rfl

end GraphExecutionLimits

namespace GraphRoute

/-- `GraphRoute::deserialize`, of what `serialize` wrote. -/
def reread (route : GraphRoute) : Option GraphRoute := do
  let successors ← route.successors.reread
  (new route.routeId successors).toOption

@[simp] theorem reread_eq (route : GraphRoute) : route.reread = some route := by
  rw [reread, ReadyNodes.reread_eq, Option.bind_eq_bind, Option.bind_some, new,
    dif_neg route.nonempty]
  rfl

end GraphRoute

namespace GraphRoutes

/-- `GraphRoutes::deserialize`, of what `serialize` wrote. -/
def reread (routes : GraphRoutes) : Option GraphRoutes := do
  let values ← routes.routes.mapM GraphRoute.reread
  (tryNew values).toOption

@[simp] theorem reread_eq (routes : GraphRoutes) : routes.reread = some routes := by
  rw [reread, mapM_eq_some_self fun route _ => route.reread_eq, Option.bind_eq_bind,
    Option.bind_some, toOption_eq_some, tryNew_eq_ok]
  exact ⟨routes.sorted.nodup_keys, routes.bounded, routes.sorted.sortByKey_eq.symm⟩

end GraphRoutes

namespace GraphNode

/-- `GraphNode::deserialize`, of what `serialize` wrote. -/
def reread (node : GraphNode) : Option GraphNode := do
  let continueTo ← node.continueTo.mapM ReadyNodes.reread
  let routes ← node.routes.reread
  let waitTo ← node.waitTo.mapM ReadyNodes.reread
  (new node.nodeId continueTo routes waitTo node.terminal).toOption

@[simp] theorem reread_eq (node : GraphNode) : node.reread = some node := by
  have hnew : new node.nodeId node.continueTo node.routes node.waitTo node.terminal =
      .ok node := by
    unfold new
    rw [dif_neg (not_not.mpr node.continue_nonempty), dif_neg (not_not.mpr node.wait_nonempty),
      dif_neg node.has_control]
  rw [reread, traverse_reread ReadyNodes.reread_eq, traverse_reread ReadyNodes.reread_eq,
    GraphRoutes.reread_eq]
  exact toOption_eq_some.mpr hnew

end GraphNode

/-- `ChildRunTopologyLimits::deserialize`, of what `serialize` wrote. -/
def ChildRunTopologyLimits.reread (limits : ChildRunTopologyLimits) :
    Option ChildRunTopologyLimits :=
  (new limits.maximumDescendantDepth limits.maximumChildrenPerRun
    limits.maximumActiveDescendants).toOption

@[simp] theorem ChildRunTopologyLimits.reread_eq (limits : ChildRunTopologyLimits) :
    limits.reread = some limits := by
  unfold reread new
  rw [dif_pos ⟨limits.depth_ok, limits.children_ok, limits.active_ok⟩]
  rfl

namespace GraphChildRunPolicy

theorem admissible (policy : GraphChildRunPolicy) : Admissible policy.declarations where
  bounded := policy.bounded
  keys_nodup := policy.sorted.nodup_keys
  slots_bounded := by
    intro nodeId
    by_cases hnone : slotCount policy.declarations nodeId = 0
    · rw [hnone]
      exact Nat.zero_le _
    · rw [slotCount] at hnone
      obtain ⟨declaration, hmem, hnode⟩ := List.countP_pos_iff.mp (Nat.pos_of_ne_zero hnone)
      rw [← of_decide_eq_true hnode]
      exact policy.slots_bounded declaration hmem

/-- `new` accepts admissible declarations and orders them. -/
theorem new_eq_ok {limits : ChildRunTopologyLimits} {declarations : List ChildRunDeclaration}
    {policy : GraphChildRunPolicy} :
    new limits declarations = .ok policy ↔ declarations ≠ [] ∧ Admissible declarations ∧
      policy.limits = limits ∧
      policy.declarations = sortByKey ChildRunDeclaration.key declarations := by
  rw [new, attach_eq_ok]
  constructor
  · intro h
    obtain ⟨ordered, hordered, hpolicy⟩ := h
    obtain ⟨rfl, hadmissible⟩ := collect_accept_eq_ok.mp hordered
    split at hpolicy
    · cases hpolicy
    · rename_i hne
      cases hpolicy
      exact ⟨hne, hadmissible, rfl, rfl⟩
  · intro h
    obtain ⟨hne, hadmissible, hlimits, hdeclarations⟩ := h
    refine ⟨declarations, collect_accept_eq_ok.mpr ⟨rfl, hadmissible⟩, ?_⟩
    rw [dif_neg hne, Except.ok.injEq]
    cases policy
    subst hlimits hdeclarations
    rfl

/-- The bounded reader of declarations. -/
def boundedDeclarations (declarations : List ChildRunDeclaration) :
    Except ChildRunPolicyError (List ChildRunDeclaration) := do
  reject (declarations.length > maxDeclarations) .tooManyDeclarations
  return declarations

/-- `GraphChildRunPolicy::deserialize`, of what `serialize` wrote; the version written is
the one that is read. -/
def reread (policy : GraphChildRunPolicy) : Option GraphChildRunPolicy := do
  let limits ← policy.limits.reread
  let declarations ← (boundedDeclarations policy.declarations).toOption
  (new limits declarations).toOption

@[simp] theorem reread_eq (policy : GraphChildRunPolicy) : policy.reread = some policy := by
  have hread : (boundedDeclarations policy.declarations).toOption = some policy.declarations := by
    rw [toOption_eq_some, boundedDeclarations, bind_eq_ok]
    exact ⟨(), reject_eq_ok.mpr (Nat.not_lt.mpr policy.bounded), rfl⟩
  rw [reread, ChildRunTopologyLimits.reread_eq, hread]
  refine toOption_eq_some.mpr (new_eq_ok.mpr ⟨policy.nonempty, policy.admissible, rfl, ?_⟩)
  exact policy.sorted.sortByKey_eq.symm

end GraphChildRunPolicy

namespace CompiledGraph

variable {graph a b : CompiledGraph E}

theorem normalized_self (graph : CompiledGraph E) :
    normalized graph.toGraphDefinition = graph.toGraphDefinition := by
  rw [normalized, graph.nodes_sorted.sortByKey_eq]

theorem build_self (graph : CompiledGraph E) :
    build graph.toGraphDefinition (some graph.definitionDigest) = .ok graph := by
  obtain ⟨bytes, hbytes, hsize, hdigest⟩ := graph.digest_eq
  have hbuilt : ∃ other : CompiledGraph E,
      build graph.toGraphDefinition (some graph.definitionDigest) = .ok other := by
    refine exists_build_eq_ok.mpr ⟨graph.nodes_nonempty, graph.collectable, graph.wellShaped, ?_⟩
    rw [normalized_self]
    refine ⟨graph.child_policy_ok, bytes, hbytes, hsize, ?_⟩
    intro digest hsupplied
    rw [hdigest]
    exact (Option.some.inj hsupplied).symm
  obtain ⟨other, hother⟩ := hbuilt
  rw [hother, ext_definition ((build_eq_ok hother).trans graph.normalized_self)]

/-- `CompiledGraph::deserialize`, of what `serialize` wrote. -/
def reread (graph : CompiledGraph E) : Option (CompiledGraph E) := do
  let entryNodes ← graph.entryNodes.reread
  let nodes ← graph.nodes.mapM GraphNode.reread
  let limits ← graph.limits.reread
  let childRuns ← graph.childRuns.mapM GraphChildRunPolicy.reread
  (build ⟨graph.identity, graph.inputSchema, graph.stateSchema, graph.updateSchema,
    graph.outputSchema, graph.reducer, entryNodes, nodes, limits, childRuns⟩
    (some graph.definitionDigest)).toOption

theorem reread_eq (graph : CompiledGraph E) : graph.reread = some graph := by
  rw [reread, ReadyNodes.reread_eq, mapM_eq_some_self fun node _ => node.reread_eq,
    GraphExecutionLimits.reread_eq, traverse_reread GraphChildRunPolicy.reread_eq]
  exact toOption_eq_some.mpr graph.build_self

end CompiledGraph

/-- Graphs are identified by their digest.  Nodes and routes compile in any order or in
none, to one graph under one digest; under faithful encoders graphs with one digest are
equal; and every compiled graph is read back from its serialization. -/
theorem graph_identity_is_canonical :
    (∀ (definition : GraphDefinition) (parts parts' : List GraphNodeParts),
      GraphNodeParts.SameNodes parts parts' →
        (GraphNodeParts.compile definition parts' : Option (CompiledGraph E)) =
          GraphNodeParts.compile definition parts) ∧
    (E.Faithful → ∀ a b : CompiledGraph E, a.definitionDigest = b.definitionDigest → a = b) ∧
    ∀ graph : CompiledGraph E, graph.reread = some graph := by
  refine ⟨?_, fun hE a b h => CompiledGraph.eq_of_digest_eq hE h, CompiledGraph.reread_eq⟩
  intro definition parts parts' hsame
  ext graph
  exact ⟨GraphNodeParts.compile_of_perm hsame.map_node_perm.symm,
    GraphNodeParts.compile_of_perm hsame.map_node_perm⟩

end StateKnot
