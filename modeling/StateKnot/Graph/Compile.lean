import StateKnot.Graph.ChildPolicy
import StateKnot.Lib.Search
import StateKnot.Written

/-!
# Graph compilation

`CompiledGraph::compile` collects nodes under unique node and route identities,
checks the shape of the graph, and pins the whole definition by the digest of its
canonical bytes.  The shape check runs two graph searches: a worklist from the
entry nodes finds unreachable nodes, and a fixed point from the boundary nodes
finds nodes from which no boundary can be reached.

`WellShaped` states what a graph with an accepted shape is, without the searches;
`validateCompiledShape_eq_ok` says that the check decides it.
-/

namespace StateKnot

open Lib

inductive GraphCompileError where
  | emptyNodes
  | tooManyNodes (maximum actual : Nat)
  | duplicateNode (nodeId : NodeId)
  | emptyEntryNodes
  | missingEntryNode (nodeId : NodeId)
  | missingSuccessorNode (fromNode target : NodeId)
  | duplicateRoute (routeId : RouteId) (firstNode secondNode : NodeId)
  | tooManyRoutes (maximum actual : Nat)
  | parallelismExceeded (nodeId : Option NodeId) (maximum actual : Nat)
  | unreachableNode (nodeId : NodeId)
  | noBoundaryPath (nodeId : NodeId)
  | definitionTooLarge (maximum actual : Nat)
  | canonicalSerialization
  | digestMismatch
  | childPolicy (source : ChildRunPolicyError)

namespace CompiledGraph

def maxNodes : Nat := ReadyNodes.maxLen
def maxRoutes : Nat := maxNodes * GraphRoutes.maxLen
def maxDefinitionBytes : Nat := 2 * 1024 * 1024

end CompiledGraph

/-! ## Collecting nodes -/

/-- Identities of the routes that a list of nodes declares. -/
def routeIds (nodes : List GraphNode) : List RouteId :=
  nodes.flatMap (fun node => node.routes.routes.map GraphRoute.routeId)

/-- The owner of every route declared so far. -/
def routeOwners (nodes : List GraphNode) : List (RouteId × NodeId) :=
  nodes.flatMap (fun node => node.routes.routes.map (fun route => (route.routeId, node.nodeId)))

theorem map_fst_routeOwners (nodes : List GraphNode) :
    (routeOwners nodes).map Prod.fst = routeIds nodes := by
  simp [routeOwners, routeIds, List.map_flatMap, Function.comp_def]

/-- Enter the routes of a node into the owner map; a route has one owner. -/
def claimRoutes (nodeId : NodeId) :
    List (RouteId × NodeId) → List GraphRoute → Except GraphCompileError Unit
  | _, [] => return ()
  | owners, route :: routes =>
    match owners.lookup route.routeId with
    | some firstNode => .error (.duplicateRoute route.routeId firstNode nodeId)
    | none => claimRoutes nodeId ((route.routeId, nodeId) :: owners) routes

variable {nodes nodes' : List GraphNode} {entryNodes : ReadyNodes} {nodeId : NodeId} {u : Unit}
  {limits : GraphExecutionLimits}

theorem claimRoutes_eq_ok {owners : List (RouteId × NodeId)} {routes : List GraphRoute} :
    claimRoutes nodeId owners routes = .ok u ↔ (routes.map GraphRoute.routeId).Nodup ∧
      ∀ route ∈ routes, route.routeId ∉ owners.map Prod.fst := by
  induction routes generalizing owners with
  | nil => simp [claimRoutes, pure, Except.pure]
  | cons route routes ih =>
    have hlookup : owners.lookup route.routeId = none ↔
        route.routeId ∉ owners.map Prod.fst := by
      rw [List.lookup_eq_none_iff, List.mem_map]
      constructor
      · rintro hnone ⟨owner, howner, hid⟩
        exact absurd (hnone owner howner) (by simp [hid])
      · intro hnone owner howner
        simpa using fun hid => hnone ⟨owner, howner, hid.symm⟩
    rw [claimRoutes]
    split
    next owner howner =>
      simp only [reduceCtorEq, false_iff, not_and]
      intro _ h
      rw [hlookup.mpr (h route (by simp))] at howner
      cases howner
    next hnone =>
      rw [ih, List.map_cons, List.map_cons, List.nodup_cons, List.forall_mem_cons]
      simp only [List.mem_cons, not_or]
      constructor
      · rintro ⟨hnodup, hfresh⟩
        refine ⟨⟨?_, hnodup⟩, hlookup.mp hnone, fun r hr => (hfresh r hr).2⟩
        intro hmem
        obtain ⟨r, hr, hid⟩ := List.mem_map.mp hmem
        exact (hfresh r hr).1 hid
      · rintro ⟨⟨hnew, hnodup⟩, _, hfresh⟩
        refine ⟨hnodup, fun r hr => ⟨fun hid => ?_, hfresh r hr⟩⟩
        exact hnew (List.mem_map.mpr ⟨r, hr, hid⟩)

/-- One turn of the loop of `collect_graph_nodes`.  The route counter cannot overflow
before it passes its maximum. -/
def acceptGraphNode (byId : List GraphNode) (node : GraphNode) : Except GraphCompileError Unit := do
  reject (byId.length = CompiledGraph.maxNodes)
    (.tooManyNodes CompiledGraph.maxNodes (CompiledGraph.maxNodes + 1))
  let routeCount := (routeIds byId).length + node.routes.routes.length
  reject (routeCount > CompiledGraph.maxRoutes) (.tooManyRoutes CompiledGraph.maxRoutes routeCount)
  claimRoutes node.nodeId (routeOwners byId) node.routes.routes
  reject (node.nodeId ∈ byId.map GraphNode.nodeId) (.duplicateNode node.nodeId)

/-- Nodes that one graph may hold together. -/
structure Collectable (nodes : List GraphNode) : Prop where
  bounded : nodes.length ≤ CompiledGraph.maxNodes
  ids_nodup : (nodes.map GraphNode.nodeId).Nodup
  routes_nodup : (routeIds nodes).Nodup

theorem Collectable.of_append {seen rest : List GraphNode} (h : Collectable (seen ++ rest)) :
    Collectable seen := by
  obtain ⟨hbounded, hids, hroutes⟩ := h
  rw [List.length_append] at hbounded
  rw [List.map_append] at hids
  rw [routeIds, List.flatMap_append] at hroutes
  exact ⟨by omega, hids.of_append_left, hroutes.of_append_left⟩

theorem Collectable.of_perm (h : Collectable nodes)
    (hperm : nodes.Perm nodes') : Collectable nodes' :=
  ⟨hperm.length_eq ▸ h.bounded, (hperm.map _).nodup_iff.mp h.ids_nodup,
    (hperm.flatMap_right _).nodup_iff.mp h.routes_nodup⟩

theorem length_routeIds_le (nodes : List GraphNode) :
    (routeIds nodes).length ≤ nodes.length * GraphRoutes.maxLen := by
  induction nodes with
  | nil => simp [routeIds]
  | cons node nodes ih =>
    have hnode := node.routes.bounded
    simp only [routeIds, List.flatMap_cons, List.length_append, List.length_map,
      List.length_cons] at ih ⊢
    rw [Nat.succ_mul]
    omega

theorem acceptGraphNode_eq_ok {byId : List GraphNode} {node : GraphNode}
    (hbyId : Collectable byId) :
    acceptGraphNode byId node = .ok u ↔ Collectable (byId ++ [node]) := by
  have hbounded := hbyId.bounded
  have hids : ((byId ++ [node]).map GraphNode.nodeId).Nodup ↔
      (byId.map GraphNode.nodeId).Nodup ∧ node.nodeId ∉ byId.map GraphNode.nodeId :=
    nodup_map_append_singleton
  have hroutes : (routeIds (byId ++ [node])).Nodup ↔
      (node.routes.routes.map GraphRoute.routeId).Nodup ∧
        ∀ route ∈ node.routes.routes, route.routeId ∉ (routeOwners byId).map Prod.fst := by
    have happend : routeIds (byId ++ [node]) =
        routeIds byId ++ node.routes.routes.map GraphRoute.routeId := by simp [routeIds]
    rw [map_fst_routeOwners, happend, List.nodup_append]
    constructor
    · rintro ⟨_, hnodup, hdisjoint⟩
      refine ⟨hnodup, fun route hroute hmem => ?_⟩
      exact hdisjoint _ hmem _ (List.mem_map_of_mem hroute) rfl
    · rintro ⟨hnodup, hdisjoint⟩
      refine ⟨hbyId.routes_nodup, hnodup, ?_⟩
      rintro _ hmem _ hid rfl
      obtain ⟨route, hroute, rfl⟩ := List.mem_map.mp hid
      exact hdisjoint route hroute hmem
  simp only [acceptGraphNode, bind_eq_ok, reject_eq_ok, claimRoutes_eq_ok, ← hroutes,
    exists_and_left, exists_const]
  constructor
  · rintro ⟨hlength, _, hnodup, hfresh⟩
    refine ⟨?_, hids.mpr ⟨hbyId.ids_nodup, hfresh⟩, hnodup⟩
    rw [List.length_append, List.length_singleton]
    omega
  · rintro ⟨hlength, hnodup, hroutes⟩
    rw [List.length_append, List.length_singleton] at hlength
    refine ⟨by omega, ?_, hroutes, (hids.mp hnodup).2⟩
    have hcount := length_routeIds_le (byId ++ [node])
    have hle := Nat.mul_le_mul_right GraphRoutes.maxLen hlength
    simp only [routeIds, List.flatMap_append, List.length_append, List.flatMap_singleton,
      List.length_map, List.length_singleton] at hcount ⊢
    exact Nat.not_lt.mpr (hcount.trans hle)

/-- Collect nodes into a map ordered by identity. -/
def collectGraphNodes (nodes : List GraphNode) : Except GraphCompileError (List GraphNode) := do
  let byId ← collect acceptGraphNode [] nodes
  reject (byId = []) .emptyNodes
  return sortByKey GraphNode.nodeId byId

theorem collectGraphNodes_eq_ok {byId : List GraphNode} : collectGraphNodes nodes = .ok byId ↔
      nodes ≠ [] ∧ Collectable nodes ∧ byId = sortByKey GraphNode.nodeId nodes := by
  have hcollect : ∀ {out}, collect acceptGraphNode [] nodes = .ok out ↔
      out = nodes ∧ Collectable nodes := fun {out} =>
    collect_eq_ok_iff Collectable Collectable.of_append acceptGraphNode_eq_ok
      ⟨by simp, by simp, by simp [routeIds]⟩
  simp only [collectGraphNodes, bind_eq_ok, reject_eq_ok, hcollect]
  constructor
  · rintro ⟨_, ⟨rfl, hcollectable⟩, _, hne, hreturn⟩
    cases hreturn
    exact ⟨hne, hcollectable, rfl⟩
  · rintro ⟨hne, hcollectable, rfl⟩
    exact ⟨nodes, ⟨rfl, hcollectable⟩, (), hne, rfl⟩

theorem claimRoutes_eq_error {owners : List (RouteId × NodeId)}
    {routes : List GraphRoute} {error : GraphCompileError}
    (h : claimRoutes nodeId owners routes = .error error) :
    ∃ routeId firstNode, error = .duplicateRoute routeId firstNode nodeId := by
  induction routes generalizing owners with
  | nil => cases h
  | cons route routes ih =>
    rw [claimRoutes] at h
    split at h
    · next firstNode _ =>
      cases h
      exact ⟨_, firstNode, rfl⟩
    · exact ih h

/-- Few enough nodes under distinct identities are rejected only for a shared route. -/
theorem collectGraphNodes_eq_error (hne : nodes ≠ [])
    (hbounded : nodes.length ≤ CompiledGraph.maxNodes)
    (hids : (nodes.map GraphNode.nodeId).Nodup) {error : GraphCompileError}
    (h : collectGraphNodes nodes = .error error) :
    ¬ (routeIds nodes).Nodup ∧ ∃ routeId firstNode secondNode,
      error = .duplicateRoute routeId firstNode secondNode := by
  constructor
  · intro hroutes
    rw [collectGraphNodes_eq_ok.mpr ⟨hne, ⟨hbounded, hids, hroutes⟩, rfl⟩] at h
    cases h
  · rw [collectGraphNodes, bind_eq_error] at h
    rcases h with hcollect | ⟨collected, hcollect, hempty⟩
    · obtain ⟨before, node, after, rfl, haccept⟩ := exists_of_collect_eq_error hcollect
      rw [List.nil_append] at haccept
      rw [List.length_append, List.length_cons] at hbounded
      have hfresh : node.nodeId ∉ before.map GraphNode.nodeId := by
        rw [List.map_append, List.map_cons, List.nodup_middle, List.nodup_cons] at hids
        exact fun hmem => hids.1 (List.mem_append_left _ hmem)
      have hcount := length_routeIds_le before
      have hnode := node.routes.bounded
      have hroutes : (routeIds before).length + node.routes.routes.length ≤
          CompiledGraph.maxRoutes := by
        have hle : (before.length + 1) * GraphRoutes.maxLen ≤
            CompiledGraph.maxNodes * GraphRoutes.maxLen :=
          Nat.mul_le_mul_right _ (by omega)
        rw [Nat.succ_mul] at hle
        exact (Nat.add_le_add hcount hnode).trans hle
      simp only [acceptGraphNode, bind_eq_error, reject_eq_error] at haccept
      rcases haccept with ⟨hfull, _⟩ | ⟨_, _, ⟨hmany, _⟩ | ⟨_, _, hclaim | ⟨_, _, hsame, _⟩⟩⟩
      · omega
      · exact absurd hmany (Nat.not_lt.mpr hroutes)
      · obtain ⟨routeId, firstNode, herror⟩ := claimRoutes_eq_error hclaim
        exact ⟨routeId, firstNode, node.nodeId, herror⟩
      · exact absurd hsame hfresh
    · have hcollected := (collect_induct (fun _ => True) trivial (fun _ _ => trivial) hcollect).1
      simp only [bind_eq_error, reject_eq_error] at hempty
      rcases hempty with ⟨hnil, _⟩ | ⟨_, _, hreturn⟩
      · exact absurd (hcollected ▸ hnil) hne
      · cases hreturn

/-! ## Shape of a graph -/

/-- Identities of a list of nodes. -/
def nodeIds (nodes : List GraphNode) : List NodeId := nodes.map GraphNode.nodeId

/-- Successor occurrences of the node with a given identity. -/
def successorsOf (nodes : List GraphNode) (nodeId : NodeId) : List NodeId :=
  match nodes.find? (·.nodeId = nodeId) with
  | some node => node.successors
  | none => []

theorem find?_nodeId_eq_some (hnodup : (nodeIds nodes).Nodup)
    {node : GraphNode} (hnode : node ∈ nodes) :
    nodes.find? (·.nodeId = node.nodeId) = some node := by
  obtain ⟨found, hfound⟩ := Option.isSome_iff_exists.mp
    (List.find?_isSome (p := (·.nodeId = node.nodeId)) |>.mpr ⟨node, hnode, by simp⟩)
  have hid : found.nodeId = node.nodeId := by simpa using List.find?_some hfound
  rw [hfound, List.inj_on_of_nodup_map hnodup (List.mem_of_find?_eq_some hfound) hnode hid]

theorem successorsOf_nodeId (hnodup : (nodeIds nodes).Nodup)
    {node : GraphNode} (hnode : node ∈ nodes) :
    successorsOf nodes node.nodeId = node.successors := by
  rw [successorsOf, find?_nodeId_eq_some hnodup hnode]

theorem exists_of_mem_successorsOf {nodeId target : NodeId}
    (h : target ∈ successorsOf nodes nodeId) :
    ∃ node ∈ nodes, node.nodeId = nodeId ∧ target ∈ node.successors := by
  unfold successorsOf at h
  split at h
  · next node hfound =>
    exact ⟨node, List.mem_of_find?_eq_some hfound, by simpa using List.find?_some hfound, h⟩
  · simp at h

def validateNodeSuccessors (nodes : List GraphNode) (limits : GraphExecutionLimits)
    (node : GraphNode) : Except GraphCompileError Unit :=
  forM node.successorSets fun successors => do
    reject (successors.len > limits.maximumParallelism)
      (.parallelismExceeded (some node.nodeId) limits.maximumParallelism successors.len)
    forM successors.nodes fun successor =>
      reject (successor ∉ nodeIds nodes) (.missingSuccessorNode node.nodeId successor)

/-- Every queue entry is an entry node or a successor occurrence of a visited node, so this
fuel is enough for the search. -/
def searchFuel (nodes : List GraphNode) (entries : ReadyNodes) : Nat :=
  entries.len + pending (successorsOf nodes) (nodeIds nodes) []

def validateReachability (nodes : List GraphNode) (entries : ReadyNodes) :
    Except GraphCompileError Unit :=
  let reachable := worklist (successorsOf nodes) (searchFuel nodes entries) entries.nodes []
  match (nodeIds nodes).find? (· ∉ reachable) with
  | some nodeId => .error (.unreachableNode nodeId)
  | none => return ()

def validateBoundaryPaths (nodes : List GraphNode) : Except GraphCompileError Unit :=
  let boundary := nodeIds (nodes.filter GraphNode.isBoundary)
  let canReachBoundary :=
    saturate (successorsOf nodes) (nodeIds nodes) (nodes.length + 1) boundary
  match (nodeIds nodes).find? (· ∉ canReachBoundary) with
  | some nodeId => .error (.noBoundaryPath nodeId)
  | none => return ()

def validateCompiledShape (nodes : List GraphNode) (entryNodes : ReadyNodes)
    (limits : GraphExecutionLimits) : Except GraphCompileError Unit := do
  reject entryNodes.isEmpty .emptyEntryNodes
  reject (entryNodes.len > limits.maximumParallelism)
    (.parallelismExceeded none limits.maximumParallelism entryNodes.len)
  forM entryNodes.nodes fun entry => reject (entry ∉ nodeIds nodes) (.missingEntryNode entry)
  forM nodes (validateNodeSuccessors nodes limits)
  validateReachability nodes entryNodes
  validateBoundaryPaths nodes

/-- Entry nodes and successor sets name nodes of the graph. -/
structure Closed (nodes : List GraphNode) (entryNodes : ReadyNodes) : Prop where
  entry_mem : ∀ entry ∈ entryNodes, entry ∈ nodeIds nodes
  successors_mem : ∀ node ∈ nodes, ∀ target ∈ node.successors, target ∈ nodeIds nodes

/-- Entry nodes and successor sets are at most as wide as one superstep may be. -/
structure WithinParallelism (nodes : List GraphNode) (entryNodes : ReadyNodes)
    (limits : GraphExecutionLimits) : Prop where
  entry_le : entryNodes.len ≤ limits.maximumParallelism
  successors_le : ∀ node ∈ nodes, ∀ set ∈ node.successorSets,
    set.len ≤ limits.maximumParallelism

/-- Every node is reached from an entry node and reaches a boundary node. -/
structure Connected (nodes : List GraphNode) (entryNodes : ReadyNodes) : Prop where
  reachable : ∀ node ∈ nodes, ∃ entry ∈ entryNodes,
    Reaches (successorsOf nodes) entry node.nodeId
  boundary : ∀ node ∈ nodes, ∃ last ∈ nodes, last.isBoundary ∧
    Reaches (successorsOf nodes) node.nodeId last.nodeId

/-- What an accepted shape is. -/
structure WellShaped (nodes : List GraphNode) (entryNodes : ReadyNodes)
    (limits : GraphExecutionLimits) : Prop where
  entry_nonempty : entryNodes.nodes ≠ []
  closed : Closed nodes entryNodes
  within : WithinParallelism nodes entryNodes limits
  connected : Connected nodes entryNodes

theorem successorsOf_mem (hclosed : Closed nodes entryNodes) {target : NodeId}
    (h : target ∈ successorsOf nodes nodeId) : target ∈ nodeIds nodes := by
  unfold successorsOf at h
  split at h
  next node hfound =>
    exact hclosed.successors_mem node (List.mem_of_find?_eq_some hfound) target h
  next => simp at h

theorem successorsOf_eq_of_perm (hperm : nodes.Perm nodes')
    (hnodup : (nodeIds nodes).Nodup) : successorsOf nodes = successorsOf nodes' := by
  have hnodup' : (nodeIds nodes').Nodup := (hperm.map _).nodup_iff.mp hnodup
  funext nodeId
  by_cases hmem : nodeId ∈ nodeIds nodes
  · obtain ⟨node, hnode, rfl⟩ := List.mem_map.mp hmem
    rw [successorsOf_nodeId hnodup hnode, successorsOf_nodeId hnodup' (hperm.mem_iff.mp hnode)]
  · have hnone : ∀ {list : List GraphNode}, nodeId ∉ nodeIds list →
        successorsOf list nodeId = [] := by
      intro list hlist
      have hfind : list.find? (·.nodeId = nodeId) = none := by
        rw [List.find?_eq_none]
        intro node hnode hid
        exact hlist (List.mem_map.mpr ⟨node, hnode, by simpa using hid⟩)
      rw [successorsOf, hfind]
    rw [hnone hmem, hnone (fun h => hmem ((hperm.map _).mem_iff.mpr h))]

theorem Closed.of_perm
    (h : Closed nodes entryNodes) (hperm : nodes.Perm nodes') : Closed nodes' entryNodes := by
  have hids : ∀ {nodeId}, nodeId ∈ nodeIds nodes → nodeId ∈ nodeIds nodes' :=
    fun hmem => (hperm.map _).mem_iff.mp hmem
  exact ⟨fun entry hentry => hids (h.entry_mem entry hentry),
    fun node hnode target htarget =>
      hids (h.successors_mem node (hperm.mem_iff.mpr hnode) target htarget)⟩

theorem Connected.of_perm (h : Connected nodes entryNodes) (hnodup : (nodeIds nodes).Nodup)
    (hperm : nodes.Perm nodes') : Connected nodes' entryNodes := by
  constructor
  · intro node hnode
    rw [← successorsOf_eq_of_perm hperm hnodup]
    exact h.reachable node (hperm.mem_iff.mpr hnode)
  · intro node hnode
    obtain ⟨last, hlast, hreach⟩ := h.boundary node (hperm.mem_iff.mpr hnode)
    rw [← successorsOf_eq_of_perm hperm hnodup]
    exact ⟨last, hperm.mem_iff.mp hlast, hreach⟩

theorem WithinParallelism.of_perm (h : WithinParallelism nodes entryNodes limits)
    (hperm : nodes.Perm nodes') : WithinParallelism nodes' entryNodes limits :=
  ⟨h.entry_le, fun node hnode => h.successors_le node (hperm.mem_iff.mpr hnode)⟩

theorem WellShaped.of_perm (h : WellShaped nodes entryNodes limits)
    (hnodup : (nodeIds nodes).Nodup) (hperm : nodes.Perm nodes') :
    WellShaped nodes' entryNodes limits :=
  ⟨h.entry_nonempty, h.closed.of_perm hperm, h.within.of_perm hperm,
    h.connected.of_perm hnodup hperm⟩

theorem validateNodeSuccessors_eq_ok {node : GraphNode} :
    validateNodeSuccessors nodes limits node = .ok u ↔
      (∀ set ∈ node.successorSets, set.len ≤ limits.maximumParallelism) ∧
        ∀ target ∈ node.successors, target ∈ nodeIds nodes := by
  simp only [validateNodeSuccessors, forM_eq_ok, bind_eq_ok, reject_eq_ok, exists_and_left,
    exists_const, not_lt, not_not, GraphNode.mem_successors, ReadyNodes.mem_def]
  constructor
  · intro h
    refine ⟨fun set hset => (h set hset).1, ?_⟩
    rintro target ⟨set, hset, htarget⟩
    exact (h set hset).2 target htarget
  · intro h set hset
    exact ⟨h.1 set hset, fun target htarget => h.2 target ⟨set, hset, htarget⟩⟩

section Searches

variable {nodes : List GraphNode} {entryNodes : ReadyNodes}

variable (hnodup : (nodeIds nodes).Nodup)

include hnodup

theorem validateReachability_eq_ok (hclosed : Closed nodes entryNodes) {u : Unit} :
    validateReachability nodes entryNodes = .ok u ↔
      ∀ node ∈ nodes, ∃ entry ∈ entryNodes, Reaches (successorsOf nodes) entry node.nodeId := by
  have hsearch : ∀ {nodeId}, nodeId ∈ worklist (successorsOf nodes)
      (searchFuel nodes entryNodes) entryNodes.nodes [] ↔
        ∃ entry ∈ entryNodes, Reaches (successorsOf nodes) entry nodeId := fun {nodeId} =>
    mem_worklist_iff hnodup (fun _ _ _ => successorsOf_mem hclosed) hclosed.entry_mem le_rfl
  unfold validateReachability
  simp only
  split
  next nodeId hfound =>
    have hunreached : nodeId ∉ worklist (successorsOf nodes) (searchFuel nodes entryNodes)
        entryNodes.nodes [] := by simpa using List.find?_some hfound
    obtain ⟨node, hnode, rfl⟩ := List.mem_map.mp (List.mem_of_find?_eq_some hfound)
    simp only [reduceCtorEq, false_iff]
    exact fun h => hunreached (hsearch.mpr (h node hnode))
  next hnone =>
    refine ⟨fun _ node hnode => ?_, fun _ => rfl⟩
    have := List.find?_eq_none.mp hnone node.nodeId (List.mem_map_of_mem hnode)
    exact hsearch.mp (by simpa using this)

theorem validateBoundaryPaths_eq_ok (hclosed : Closed nodes entryNodes) {u : Unit} :
    validateBoundaryPaths nodes = .ok u ↔
      ∀ node ∈ nodes, ∃ last ∈ nodes, last.isBoundary ∧
        Reaches (successorsOf nodes) node.nodeId last.nodeId := by
  have hsublist : (nodeIds (nodes.filter GraphNode.isBoundary)).Sublist (nodeIds nodes) :=
    List.filter_sublist.map _
  have hsearch : ∀ node ∈ nodes, (node.nodeId ∈ saturate (successorsOf nodes) (nodeIds nodes)
      (nodes.length + 1) (nodeIds (nodes.filter GraphNode.isBoundary)) ↔
        ∃ last ∈ nodes, last.isBoundary ∧
          Reaches (successorsOf nodes) node.nodeId last.nodeId) := by
    intro node hnode
    rw [mem_saturate_iff (fun _ _ _ => successorsOf_mem hclosed) (hnodup.sublist hsublist)
      (fun _ => hsublist.mem) (by simp [nodeIds]; omega) (List.mem_map_of_mem hnode)]
    simp [nodeIds, and_assoc]
  unfold validateBoundaryPaths
  simp only
  split
  next nodeId hfound =>
    have hstuck : nodeId ∉ saturate (successorsOf nodes) (nodeIds nodes) (nodes.length + 1)
        (nodeIds (nodes.filter GraphNode.isBoundary)) := by simpa using List.find?_some hfound
    obtain ⟨node, hnode, rfl⟩ := List.mem_map.mp (List.mem_of_find?_eq_some hfound)
    simp only [reduceCtorEq, false_iff]
    exact fun h => hstuck ((hsearch node hnode).mpr (h node hnode))
  next hnone =>
    refine ⟨fun _ node hnode => ?_, fun _ => rfl⟩
    have := List.find?_eq_none.mp hnone node.nodeId (List.mem_map_of_mem hnode)
    exact (hsearch node hnode).mp (by simpa using this)

theorem validateCompiledShape_eq_ok {limits : GraphExecutionLimits} {u : Unit} :
    validateCompiledShape nodes entryNodes limits = .ok u ↔
      WellShaped nodes entryNodes limits := by
  simp only [validateCompiledShape, bind_eq_ok, reject_eq_ok, forM_eq_ok,
    validateNodeSuccessors_eq_ok, ReadyNodes.isEmpty_iff, not_lt, not_not]
  constructor
  · rintro ⟨_, hne, _, hentry, _, hmem, _, hnodes, _, hreach, hboundary⟩
    have hclosed : Closed nodes entryNodes := ⟨hmem, fun node hnode => (hnodes node hnode).2⟩
    exact ⟨hne, hclosed, ⟨hentry, fun node hnode => (hnodes node hnode).1⟩,
      (validateReachability_eq_ok hnodup hclosed).mp hreach,
      (validateBoundaryPaths_eq_ok hnodup hclosed).mp hboundary⟩
  · rintro ⟨hne, hclosed, hwithin, hconnected⟩
    exact ⟨(), hne, (), hwithin.entry_le, (), hclosed.entry_mem, (),
      fun node hnode => ⟨hwithin.successors_le node hnode, hclosed.successors_mem node hnode⟩,
      (), (validateReachability_eq_ok hnodup hclosed).mpr hconnected.reachable,
      (validateBoundaryPaths_eq_ok hnodup hclosed).mpr hconnected.boundary⟩

/-- A closed and connected graph is rejected only for its parallelism. -/
theorem validateCompiledShape_eq_error
    (hentry : entryNodes.nodes ≠ []) (hclosed : Closed nodes entryNodes)
    (hconnected : Connected nodes entryNodes) {limits : GraphExecutionLimits}
    {error : GraphCompileError}
    (h : validateCompiledShape nodes entryNodes limits = .error error) :
    ¬ WithinParallelism nodes entryNodes limits ∧
      ∃ nodeId actual, error = .parallelismExceeded nodeId limits.maximumParallelism actual := by
  constructor
  · intro hwithin
    rw [(validateCompiledShape_eq_ok hnodup (u := ())).mpr
      ⟨hentry, hclosed, hwithin, hconnected⟩] at h
    cases h
  · have hreach := (validateReachability_eq_ok hnodup hclosed (u := ())).mpr hconnected.reachable
    have hboundary :=
      (validateBoundaryPaths_eq_ok hnodup hclosed (u := ())).mpr hconnected.boundary
    simp only [validateCompiledShape, bind_eq_error, reject_eq_error, ReadyNodes.isEmpty_iff,
      hreach, hboundary, reduceCtorEq, and_false, exists_false, or_false] at h
    rcases h with ⟨hempty, _⟩ | ⟨_, _, ⟨_, herror⟩ | ⟨_, _, hmissing | ⟨_, _, hnode⟩⟩⟩
    · exact absurd hempty hentry
    · exact ⟨none, entryNodes.len, herror.symm⟩
    · obtain ⟨entry, hmem, hreject⟩ := exists_of_forM_eq_error hmissing
      rw [reject_eq_error] at hreject
      exact absurd (hclosed.entry_mem entry hmem) hreject.1
    · obtain ⟨node, hmem, hsets⟩ := exists_of_forM_eq_error hnode
      obtain ⟨set, hset, hcheck⟩ := exists_of_forM_eq_error hsets
      simp only [bind_eq_error, reject_eq_error] at hcheck
      rcases hcheck with ⟨_, herror⟩ | ⟨_, _, hmissing⟩
      · exact ⟨some node.nodeId, set.len, herror.symm⟩
      · obtain ⟨target, htarget, hreject⟩ := exists_of_forM_eq_error hmissing
        rw [reject_eq_error] at hreject
        exact absurd (hclosed.successors_mem node hmem target
          (GraphNode.mem_successors.mpr ⟨set, hset, htarget⟩)) hreject.1

end Searches

/-! ## Compiled graphs -/

/-- A reducer pinned by identity and definition digest. -/
structure GraphReducerReference where
  identity : CapabilityIdentity
  definitionDigest : Digest
deriving DecidableEq

def GraphReducerReference.toJson (reducer : GraphReducerReference) : Json :=
  .obj [("identity", reducer.identity.toJson),
    ("definition_digest", reducer.definitionDigest.toJson)]

/-- Everything that the definition digest covers. -/
structure GraphDefinition where
  identity : CapabilityIdentity
  inputSchema : SchemaReference
  stateSchema : SchemaReference
  updateSchema : SchemaReference
  outputSchema : SchemaReference
  reducer : GraphReducerReference
  entryNodes : ReadyNodes
  nodes : List GraphNode
  limits : GraphExecutionLimits
  childRuns : Option GraphChildRunPolicy

namespace GraphDefinition

/-- The members of `GraphDefinitionDigestWire`; an absent child policy is skipped. -/
def members (definition : GraphDefinition) : List (String × Json) :=
  [("identity", definition.identity.toJson),
    ("input_schema", definition.inputSchema.toJson),
    ("state_schema", definition.stateSchema.toJson),
    ("update_schema", definition.updateSchema.toJson),
    ("output_schema", definition.outputSchema.toJson),
    ("reducer", definition.reducer.toJson),
    ("entry_nodes", definition.entryNodes.toJson),
    ("nodes", .arr (definition.nodes.map GraphNode.toJson)),
    ("limits", definition.limits.toJson)] ++
    Json.optionalMember "child_runs" GraphChildRunPolicy.toJson definition.childRuns

def toJson (definition : GraphDefinition) : Json := .obj definition.members

/-- Lookup by identity. -/
def node (definition : GraphDefinition) (nodeId : NodeId) : Option GraphNode :=
  binarySearchBy (fun node => compare node.nodeId nodeId) definition.nodes

/-- `GraphChildRunPolicy::validate_nodes` for the policy of the definition, if any. -/
def validateChildPolicy (definition : GraphDefinition) : Except GraphCompileError Unit :=
  match definition.childRuns with
  | none => return ()
  | some policy =>
    reject (policy.declarations.any (fun item => (definition.node item.nodeId).isNone))
      (.childPolicy .undeclaredParentNode)

end GraphDefinition

/-- A validated graph pinned by its definition digest. -/
structure CompiledGraph (E : Encoding) extends GraphDefinition where
  definitionDigest : Digest
  nodes_sorted : StrictlySorted GraphNode.nodeId nodes
  nodes_nonempty : nodes ≠ []
  collectable : Collectable nodes
  wellShaped : WellShaped nodes entryNodes limits
  child_policy_ok : toGraphDefinition.validateChildPolicy = .ok ()
  digest_eq : ∃ bytes, E.toVec toGraphDefinition.toJson = some bytes ∧
    bytes.length ≤ CompiledGraph.maxDefinitionBytes ∧ E.sha256 bytes = definitionDigest

namespace CompiledGraph

variable {E : Encoding}

/-- `build`: the definition's nodes come in any order and are stored by identity. -/
def build (definition : GraphDefinition) (suppliedDigest : Option Digest) :
    Except GraphCompileError (CompiledGraph E) :=
  attach (collectGraphNodes definition.nodes) fun byId hcollect =>
  attach (validateCompiledShape byId definition.entryNodes definition.limits) fun _ hshape =>
  attach ({ definition with nodes := byId }.validateChildPolicy) fun _ hpolicy =>
  attach (okOr (E.toVec { definition with nodes := byId }.toJson) .canonicalSerialization)
    fun canonical hcanonical =>
  if hsize : canonical.length > maxDefinitionBytes then
    .error (.definitionTooLarge maxDefinitionBytes canonical.length)
  else if suppliedDigest.any (· ≠ E.sha256 canonical) then .error .digestMismatch
  else
    have hnodes := collectGraphNodes_eq_ok.mp hcollect
    have hperm : byId.Perm definition.nodes := hnodes.2.2 ▸ sortByKey_perm _ _
    have hsorted : StrictlySorted GraphNode.nodeId byId :=
      hnodes.2.2 ▸ strictlySorted_sortByKey hnodes.2.1.ids_nodup
    .ok {
      toGraphDefinition := { definition with nodes := byId }
      definitionDigest := E.sha256 canonical
      nodes_sorted := hsorted
      nodes_nonempty := fun hnil => hnodes.1 (hnil ▸ hperm).nil_eq.symm
      collectable := hnodes.2.1.of_perm hperm.symm
      wellShaped := (validateCompiledShape_eq_ok hsorted.nodup_keys).mp hshape
      child_policy_ok := hpolicy
      digest_eq := ⟨canonical, okOr_eq_ok.mp hcanonical, Nat.le_of_not_lt hsize, rfl⟩ }

/-- The stored form of a definition: its nodes by identity. -/
def normalized (definition : GraphDefinition) : GraphDefinition :=
  { definition with nodes := sortByKey GraphNode.nodeId definition.nodes }

variable {definition : GraphDefinition} {graph : CompiledGraph E}

theorem build_eq_ok {suppliedDigest : Option Digest} (h : build definition suppliedDigest = .ok graph) :
    graph.toGraphDefinition = normalized definition := by
  simp only [build, attach_eq_ok] at h
  obtain ⟨byId, hcollect, _, _, _, _, canonical, _, h⟩ := h
  obtain ⟨_, _, rfl⟩ := collectGraphNodes_eq_ok.mp hcollect
  split at h
  · cases h
  split at h
  · cases h
  cases h
  rfl

/-- Why a definition of a closed and connected graph without child runs is rejected: a
shared route, its parallelism, or the size of its canonical bytes. -/
inductive SizeRejection (E : Encoding) (definition : GraphDefinition) :
    GraphCompileError → Prop where
  | route {routeId : RouteId} {firstNode secondNode : NodeId}
      (hshared : ¬ (routeIds definition.nodes).Nodup) :
      SizeRejection E definition (.duplicateRoute routeId firstNode secondNode)
  | parallelism {nodeId : Option NodeId} {actual : Nat}
      (hwide : ¬ WithinParallelism definition.nodes definition.entryNodes definition.limits) :
      SizeRejection E definition
        (.parallelismExceeded nodeId definition.limits.maximumParallelism actual)
  | encoding (hnone : E.toVec (normalized definition).toJson = none) :
      SizeRejection E definition .canonicalSerialization
  | bytes {canonical : List UInt8} (hsome : E.toVec (normalized definition).toJson = some canonical)
      (hlarge : maxDefinitionBytes < canonical.length) :
      SizeRejection E definition (.definitionTooLarge maxDefinitionBytes canonical.length)

theorem sizeRejection_of_build (hchild : definition.childRuns = none)
    (hne : definition.nodes ≠ []) (hbounded : definition.nodes.length ≤ maxNodes)
    (hids : (nodeIds definition.nodes).Nodup) (hentry : definition.entryNodes.nodes ≠ [])
    (hclosed : Closed definition.nodes definition.entryNodes)
    (hconnected : Connected definition.nodes definition.entryNodes) {error : GraphCompileError}
    (h : build (E := E) definition none = .error error) : SizeRejection E definition error := by
  rw [build, attach_eq_error] at h
  rcases h with hcollect | ⟨byId, hcollect, h⟩
  · obtain ⟨hshared, routeId, firstNode, secondNode, rfl⟩ :=
      collectGraphNodes_eq_error hne hbounded hids hcollect
    exact .route hshared
  obtain ⟨_, _, rfl⟩ := collectGraphNodes_eq_ok.mp hcollect
  have hperm := (sortByKey_perm GraphNode.nodeId definition.nodes).symm
  have hnodup := (hperm.map GraphNode.nodeId).nodup_iff.mp hids
  rw [attach_eq_error] at h
  rcases h with hshape | ⟨_, _, h⟩
  · obtain ⟨hwide, nodeId, actual, rfl⟩ := validateCompiledShape_eq_error hnodup hentry
      (hclosed.of_perm hperm) (hconnected.of_perm hids hperm) hshape
    exact .parallelism (fun hwithin => hwide (hwithin.of_perm hperm))
  rw [attach_eq_error] at h
  rcases h with hpolicy | ⟨_, _, h⟩
  · rw [GraphDefinition.validateChildPolicy] at hpolicy
    simp only [hchild] at hpolicy
    cases hpolicy
  rw [attach_eq_error] at h
  rcases h with hencode | ⟨canonical, hencode, h⟩
  · obtain ⟨hnone, rfl⟩ := okOr_eq_error.mp hencode
    exact .encoding hnone
  rw [okOr_eq_ok] at hencode
  split at h
  · next hlarge =>
    cases h
    exact .bytes hencode hlarge
  · simp at h

/-- `build` accepts collectable nodes of a good shape whose policy, size and digest pass. -/
theorem exists_build_eq_ok {suppliedDigest : Option Digest} :
    (∃ graph : CompiledGraph E, build definition suppliedDigest = .ok graph) ↔
      definition.nodes ≠ [] ∧ Collectable definition.nodes ∧
        WellShaped definition.nodes definition.entryNodes definition.limits ∧
        (normalized definition).validateChildPolicy = .ok () ∧
        ∃ canonical, E.toVec (normalized definition).toJson = some canonical ∧
          canonical.length ≤ maxDefinitionBytes ∧
          ∀ digest ∈ suppliedDigest, digest = E.sha256 canonical := by
  have hperm := sortByKey_perm GraphNode.nodeId definition.nodes
  constructor
  · intro ⟨graph, h⟩
    simp only [build, attach_eq_ok] at h
    obtain ⟨byId, hcollect, _, hshape, _, hpolicy, canonical, hcanonical, h⟩ := h
    obtain ⟨hne, hcollectable, rfl⟩ := collectGraphNodes_eq_ok.mp hcollect
    have hids := (hperm.map GraphNode.nodeId).nodup_iff.mpr hcollectable.ids_nodup
    split at h
    · cases h
    next hsize =>
    split at h
    · cases h
    next hdigest =>
    refine ⟨hne, hcollectable, ((validateCompiledShape_eq_ok hids).mp hshape).of_perm hids hperm,
      hpolicy, canonical, okOr_eq_ok.mp hcanonical, Nat.le_of_not_lt hsize, ?_⟩
    intro digest hsupplied
    rw [Option.mem_def.mp hsupplied] at hdigest
    simpa using hdigest
  · intro ⟨hne, hcollectable, hshape, hpolicy, canonical, hcanonical, hsize, hdigest⟩
    have hids := hcollectable.ids_nodup
    have hids' := (hperm.map GraphNode.nodeId).nodup_iff.mpr hids
    have hcollect := collectGraphNodes_eq_ok.mpr ⟨hne, hcollectable, rfl⟩
    have hshape' := (validateCompiledShape_eq_ok hids' (u := ())).mpr (hshape.of_perm hids hperm.symm)
    have hmismatch : ¬ suppliedDigest.any (· ≠ E.sha256 canonical) = true := by
      rw [Option.any_eq_true]
      intro ⟨digest, hsupplied, hne⟩
      simp [hdigest digest hsupplied] at hne
    simp only [build, exists_attach_eq_ok]
    refine ⟨_, hcollect, (), hshape', (), hpolicy, canonical, okOr_eq_ok.mpr hcanonical, ?_⟩
    rw [dif_neg (Nat.not_lt.mpr hsize), if_neg hmismatch]
    exact ⟨_, rfl⟩

/-- A definition that only its size speaks against is rejected for it. -/
theorem build_eq_definitionTooLarge {canonical : List UInt8}
    (hchild : definition.childRuns = none) (hne : definition.nodes ≠ [])
    (hcollectable : Collectable definition.nodes)
    (hshape : WellShaped definition.nodes definition.entryNodes definition.limits)
    (hcanonical : E.toVec (normalized definition).toJson = some canonical)
    (hlarge : maxDefinitionBytes < canonical.length) :
    build (E := E) definition none =
      .error (.definitionTooLarge maxDefinitionBytes canonical.length) := by
  cases hbuild : build (E := E) definition none with
  | ok graph =>
    obtain ⟨_, _, _, _, bytes, hbytes, hsize, _⟩ := exists_build_eq_ok.mp ⟨graph, hbuild⟩
    rw [Option.some.inj (hbytes.symm.trans hcanonical)] at hsize
    omega
  | error error =>
    have hrejection := sizeRejection_of_build hchild hne hcollectable.bounded
      hcollectable.ids_nodup hshape.entry_nonempty hshape.closed hshape.connected hbuild
    cases hrejection with
    | route hshared => exact absurd hcollectable.routes_nodup hshared
    | parallelism hwide => exact absurd hshape.within hwide
    | encoding hnone =>
      rw [hnone] at hcanonical
      cases hcanonical
    | bytes hsome _ => rw [Option.some.inj (hsome.symm.trans hcanonical)]

/-- `compile`: a graph without child runs. -/
def compile (identity : CapabilityIdentity)
    (inputSchema stateSchema updateSchema outputSchema : SchemaReference)
    (reducer : GraphReducerReference) (entryNodes : ReadyNodes) (nodes : List GraphNode)
    (limits : GraphExecutionLimits) : Except GraphCompileError (CompiledGraph E) :=
  build ⟨identity, inputSchema, stateSchema, updateSchema, outputSchema, reducer, entryNodes,
    nodes, limits, none⟩ none

def withChildRuns (graph : CompiledGraph E) (policy : GraphChildRunPolicy) :
    Except GraphCompileError (CompiledGraph E) :=
  build { graph.toGraphDefinition with childRuns := some policy } none

def reference (graph : CompiledGraph E) : GraphReference :=
  ⟨graph.identity, graph.definitionDigest, graph.stateSchema⟩

def node (graph : CompiledGraph E) (nodeId : NodeId) : Option GraphNode :=
  graph.toGraphDefinition.node nodeId

theorem ids_nodup (graph : CompiledGraph E) : (nodeIds graph.nodes).Nodup :=
  graph.nodes_sorted.nodup_keys

theorem node_eq_some {nodeId : NodeId} {node : GraphNode} :
    graph.node nodeId = some node ↔ node ∈ graph.nodes ∧ node.nodeId = nodeId :=
  binarySearchBy_eq_some graph.nodes_sorted

theorem node_isSome {nodeId : NodeId} :
    (graph.node nodeId).isSome ↔ nodeId ∈ nodeIds graph.nodes := by
  rw [Option.isSome_iff_exists, nodeIds, List.mem_map]
  simp only [node_eq_some]

theorem textLength_nodes_le (definition : GraphDefinition) :
    textLength Encoding.compact.toVec (.arr (definition.nodes.map GraphNode.toJson)) ≤
      textLength Encoding.compact.toVec definition.toJson := by
  refine Compact.textLength_le_textLength_obj ("nodes", _) ?_
  simp [GraphDefinition.members]

end CompiledGraph

/-- Compilation accepts exactly the nonempty lists of nodes under distinct node and route
identities that form a well-shaped graph, as long as the canonical definition can be
written within its byte limit. -/
theorem compile_accepts_iff {E : Encoding} (identity : CapabilityIdentity)
    (inputSchema stateSchema updateSchema outputSchema : SchemaReference)
    (reducer : GraphReducerReference) (entryNodes : ReadyNodes) (nodes : List GraphNode)
    (limits : GraphExecutionLimits) :
    (∃ graph : CompiledGraph E, CompiledGraph.compile identity inputSchema stateSchema
        updateSchema outputSchema reducer entryNodes nodes limits = .ok graph) ↔
      (nodes ≠ [] ∧ Collectable nodes ∧ WellShaped nodes entryNodes limits) ∧
        ∃ canonical, E.toVec (CompiledGraph.normalized ⟨identity, inputSchema, stateSchema,
            updateSchema, outputSchema, reducer, entryNodes, nodes, limits, none⟩).toJson =
              some canonical ∧
          canonical.length ≤ CompiledGraph.maxDefinitionBytes := by
  rw [CompiledGraph.compile, CompiledGraph.exists_build_eq_ok]
  constructor
  · intro ⟨hne, hcollectable, hshape, _, canonical, hcanonical, hsize, _⟩
    exact ⟨⟨hne, hcollectable, hshape⟩, canonical, hcanonical, hsize⟩
  · intro ⟨⟨hne, hcollectable, hshape⟩, canonical, hcanonical, hsize⟩
    exact ⟨hne, hcollectable, hshape, rfl, canonical, hcanonical, hsize, by simp⟩

/-! ## Sample data -/

namespace Sample

def schema : SchemaReference := ⟨⟨"schema"⟩, ⟨"1.0.0"⟩, ⟨[]⟩⟩

def identity : CapabilityIdentity := ⟨⟨"issuer"⟩, ⟨"subject"⟩, ⟨"workflow"⟩, ⟨"1.0.0"⟩⟩

/-- Compile nodes under one schema for everything. -/
def compile (entry : List NodeId) (nodes : List GraphNode) (parallelism : Nat) :
    Option (CompiledGraph .compact) := do
  let entry ← (ReadyNodes.tryNew entry).toOption
  let limits ← (GraphExecutionLimits.new (.ofNat 4) parallelism).toOption
  (CompiledGraph.compile identity schema schema schema schema ⟨identity, ⟨[]⟩⟩ entry nodes
    limits).toOption

/-- A terminal node that may also continue to every node of a set. -/
def hubNode (ready : ReadyNodes) (hne : ready.nodes ≠ []) (nodeId : NodeId) : GraphNode where
  nodeId := nodeId
  continueTo := some ready
  routes := .empty
  waitTo := none
  terminal := true
  continue_nonempty := by
    intro successors hsuccessors
    rw [Option.mem_some_iff.mp hsuccessors] at hne
    exact hne
  wait_nonempty := by simp
  has_control := by simp

/-- The complete graph on a set of identities. -/
def completeGraph (ready : ReadyNodes) (hne : ready.nodes ≠ []) : List GraphNode :=
  ready.nodes.map (hubNode ready hne)

section Complete

variable {ready : ReadyNodes} (hne : ready.nodes ≠ [])

theorem nodeIds_completeGraph : nodeIds (completeGraph ready hne) = ready.nodes := by
  simp [nodeIds, completeGraph, Function.comp_def, hubNode]

theorem routeIds_completeGraph : routeIds (completeGraph ready hne) = [] := by
  simp [routeIds, completeGraph, hubNode, GraphRoutes.empty]

theorem collectable_completeGraph : Collectable (completeGraph ready hne) where
  bounded := by
    rw [completeGraph, List.length_map]
    exact ready.bounded
  ids_nodup := by
    show (nodeIds (completeGraph ready hne)).Nodup
    rw [nodeIds_completeGraph]
    exact ready.sorted.nodup
  routes_nodup := by
    rw [routeIds_completeGraph]
    exact List.nodup_nil

theorem successorSets_of_mem_completeGraph {node : GraphNode}
    (hnode : node ∈ completeGraph ready hne) :
    node.successorSets = [ready] ∧ node.nodeId ∈ ready ∧ node.isBoundary = true := by
  obtain ⟨nodeId, hmem, rfl⟩ := List.mem_map.mp hnode
  exact ⟨rfl, hmem, rfl⟩

/-- Every node of the complete graph is an entry and a boundary of its own. -/
theorem wellShaped_completeGraph {limits : GraphExecutionLimits}
    (hlimits : ready.len ≤ limits.maximumParallelism) :
    WellShaped (completeGraph ready hne) ready limits where
  entry_nonempty := hne
  closed := by
    constructor
    · intro entry hentry
      rw [nodeIds_completeGraph]
      exact hentry
    · intro node hnode target htarget
      rw [GraphNode.mem_successors, (successorSets_of_mem_completeGraph hne hnode).1] at htarget
      obtain ⟨set, hset, htarget⟩ := htarget
      rw [List.mem_singleton.mp hset] at htarget
      rw [nodeIds_completeGraph]
      exact htarget
  within := by
    constructor
    · exact hlimits
    · intro node hnode set hset
      rw [(successorSets_of_mem_completeGraph hne hnode).1, List.mem_singleton] at hset
      rw [hset]
      exact hlimits
  connected := by
    constructor
    · intro node hnode
      exact ⟨node.nodeId, (successorSets_of_mem_completeGraph hne hnode).2.1, .refl⟩
    · intro node hnode
      exact ⟨node, hnode, (successorSets_of_mem_completeGraph hne hnode).2.2, .refl⟩

/-- The complete graph writes every identity once for every node, with two quotes each. -/
theorem lt_textLength_completeGraph :
    ready.len * (2 * ready.len) <
      textLength Encoding.compact.toVec
        (.arr ((completeGraph ready hne).map GraphNode.toJson)) := by
  have hready : 2 * ready.len ≤ textLength Encoding.compact.toVec ready.toJson := by
    refine le_trans ?_ (Nat.le_of_add_right_le (Compact.sum_le_textLength_arr _))
    rw [List.map_map, Nat.mul_comm, ReadyNodes.len]
    refine (List.card_nsmul_le_sum _ 2 ?_).trans' (by simp)
    intro length hlength
    obtain ⟨nodeId, _, rfl⟩ := List.mem_map.mp hlength
    exact Compact.two_le_textLength_str _
  refine lt_of_lt_of_le (Nat.lt_add_of_pos_right (Nat.succ_pos 1)) (le_trans
    (Nat.add_le_add_right ?_ 2) (Compact.sum_le_textLength_arr _))
  rw [completeGraph, List.map_map, List.map_map, ReadyNodes.len]
  refine (List.card_nsmul_le_sum _ (2 * ready.len) ?_).trans' (by simp [ReadyNodes.len])
  intro length hlength
  obtain ⟨nodeId, _, rfl⟩ := List.mem_map.mp hlength
  refine hready.trans (Compact.textLength_le_textLength_obj
    ("continue_to", ready.toJson) ?_)
  simp [hubNode, GraphNode.members, Json.optionalMember]

theorem normalized_completeGraph {definition : GraphDefinition}
    (hnodes : definition.nodes = completeGraph ready hne) :
    CompiledGraph.normalized definition = definition := by
  have hsorted : StrictlySorted GraphNode.nodeId definition.nodes := by
    rw [hnodes]
    exact List.pairwise_map.mpr ready.sorted
  rw [CompiledGraph.normalized, hsorted.sortByKey_eq]

/-- A complete graph that is too large in print compiles but for its size. -/
theorem compile_completeGraph {limits : GraphExecutionLimits}
    (hlimits : ready.len ≤ limits.maximumParallelism)
    (hlarge : CompiledGraph.maxDefinitionBytes ≤ ready.len * (2 * ready.len)) :
    ∃ actual, CompiledGraph.compile (E := .compact) identity schema schema schema schema
        ⟨identity, ⟨[]⟩⟩ ready (completeGraph ready hne) limits =
      .error (.definitionTooLarge CompiledGraph.maxDefinitionBytes actual) := by
  have hnodes : completeGraph ready hne ≠ [] := by
    rw [completeGraph, Ne, List.map_eq_nil_iff]
    exact hne
  refine ⟨_, CompiledGraph.build_eq_definitionTooLarge rfl hnodes
    (collectable_completeGraph hne) (wellShaped_completeGraph hne hlimits) rfl ?_⟩
  rw [normalized_completeGraph hne rfl]
  apply (hlarge.trans_lt (lt_textLength_completeGraph hne)).trans_le
  exact CompiledGraph.textLength_nodes_le ⟨identity, schema, schema, schema, schema,
    ⟨identity, ⟨[]⟩⟩, ready, completeGraph ready hne, limits, none⟩

end Complete

/-- A ready set of every permitted size. -/
theorem exists_ready_len {n : Nat} (hn : n ≤ ReadyNodes.maxLen) :
    ∃ ready : ReadyNodes, ready.len = n := by
  let ids : List NodeId := (List.range n).map (fun i => ⟨Nat.repr i⟩)
  have hnodup : ids.Nodup := by
    refine List.Nodup.map ?_ List.nodup_range
    intro i j h
    exact Nat.repr_inj.mp (Ident.mk.inj h)
  have hlength : (sortByKey id ids).length = n := by simp [ids]
  exact ⟨⟨sortByKey id ids, strictlySorted_sortByKey (by simpa using hnodup), hlength.trans_le hn⟩,
    hlength⟩

end Sample

/-- The complete graph on as many nodes as a graph may have is well formed, but its
canonical definition is longer than a definition may be. -/
theorem compile_refuses_complete_graph :
    ∃ (entryNodes : ReadyNodes) (nodes : List GraphNode) (limits : GraphExecutionLimits),
      (nodes ≠ [] ∧ Collectable nodes ∧ WellShaped nodes entryNodes limits) ∧
      ∃ actual, CompiledGraph.compile (E := .compact) Sample.identity Sample.schema Sample.schema
          Sample.schema Sample.schema ⟨Sample.identity, ⟨[]⟩⟩ entryNodes nodes limits =
        .error (.definitionTooLarge CompiledGraph.maxDefinitionBytes actual) := by
  obtain ⟨ready, hlen⟩ := Sample.exists_ready_len (le_refl ReadyNodes.maxLen)
  have hne : ready.nodes ≠ [] := by
    apply List.ne_nil_of_length_pos
    show 0 < ready.len
    rw [hlen]
    decide
  let limits : GraphExecutionLimits :=
    ⟨.ofNat 4, ReadyNodes.maxLen, by decide, by decide, le_rfl⟩
  have hlarge : CompiledGraph.maxDefinitionBytes ≤ ready.len * (2 * ready.len) := by
    rw [hlen]
    decide
  refine ⟨ready, Sample.completeGraph ready hne, limits,
    ⟨?_, Sample.collectable_completeGraph hne, Sample.wellShaped_completeGraph hne hlen.le⟩,
    Sample.compile_completeGraph hne hlen.le hlarge⟩
  rw [Sample.completeGraph, Ne, List.map_eq_nil_iff]
  exact hne

end StateKnot
