import StateKnot.Checkpoint

/-!
# Graph nodes

The declarative part of a graph: execution limits, named routes and nodes.  A node
declares one successor set for each control it may return: `continue_to`, one set
per route, and `wait_to`; a terminal node may end the run.  No declared set is
empty, which is what makes an empty ready set a sign of termination.
-/

namespace StateKnot

open Lib

/-! ## Execution limits -/

inductive GraphExecutionLimitsError where
  | zeroSupersteps
  | zeroParallelism
  | parallelismAboveFrameworkMaximum (maximum actual : Nat)

/-- Bounds on the number of barriers and on the width of one superstep. -/
structure GraphExecutionLimits where
  maximumSupersteps : Superstep
  maximumParallelism : Nat
  supersteps_pos : 0 < maximumSupersteps.value
  parallelism_pos : 0 < maximumParallelism
  parallelism_le : maximumParallelism ≤ ReadyNodes.maxLen

namespace GraphExecutionLimits

def new (maximumSupersteps : Superstep) (maximumParallelism : Nat) :
    Except GraphExecutionLimitsError GraphExecutionLimits :=
  if hsupersteps : maximumSupersteps.value = 0 then .error .zeroSupersteps
  else if hparallelism : maximumParallelism = 0 then .error .zeroParallelism
  else if hmaximum : maximumParallelism > ReadyNodes.maxLen then
    .error (.parallelismAboveFrameworkMaximum ReadyNodes.maxLen maximumParallelism)
  else .ok ⟨maximumSupersteps, maximumParallelism, Nat.pos_of_ne_zero hsupersteps,
    Nat.pos_of_ne_zero hparallelism, Nat.le_of_not_lt hmaximum⟩

theorem maximumSupersteps_of_new {maximumSupersteps : Superstep} {maximumParallelism : Nat}
    {limits : GraphExecutionLimits} (h : new maximumSupersteps maximumParallelism = .ok limits) :
    limits.maximumSupersteps = maximumSupersteps := by
  unfold new at h
  split_ifs at h
  cases h
  rfl

def toJson (limits : GraphExecutionLimits) : Json :=
  .obj [("maximum_supersteps", limits.maximumSupersteps.toJson),
    ("maximum_parallelism", .num (.int limits.maximumParallelism))]

end GraphExecutionLimits

/-! ## Routes -/

inductive GraphRouteError where
  | emptySuccessors

/-- A named successor set. -/
structure GraphRoute where
  routeId : RouteId
  successors : ReadyNodes
  nonempty : successors.nodes ≠ []

namespace GraphRoute

def new (routeId : RouteId) (successors : ReadyNodes) : Except GraphRouteError GraphRoute :=
  if h : successors.nodes = [] then .error .emptySuccessors else .ok ⟨routeId, successors, h⟩

def toJson (route : GraphRoute) : Json :=
  .obj [("route_id", route.routeId.toJson), ("successors", route.successors.toJson)]

end GraphRoute

inductive GraphRoutesError where
  | tooMany (maximum actual : Nat)
  | duplicate (routeId : RouteId)

/-- Largest number of routes of one node. -/
def GraphRoutes.maxLen : Nat := 256

/-- Routes of one node in ascending identity order. -/
structure GraphRoutes where
  routes : List GraphRoute
  sorted : StrictlySorted GraphRoute.routeId routes
  bounded : routes.length ≤ GraphRoutes.maxLen

namespace GraphRoutes

theorem ext_routes {a b : GraphRoutes} (h : a.routes = b.routes) : a = b := by
  cases a
  cases b
  simpa using h

def empty : GraphRoutes := ⟨[], List.Pairwise.nil, Nat.zero_le _⟩

/-- One turn of the loop of `try_new`. -/
def accept (values : List GraphRoute) (route : GraphRoute) : Except GraphRoutesError Unit := do
  reject (values.length = maxLen) (.tooMany maxLen (maxLen + 1))
  reject (route.routeId ∈ values.map GraphRoute.routeId) (.duplicate route.routeId)

theorem accept_eq_ok {values : List GraphRoute} {route : GraphRoute} {u : Unit} :
    accept values route = .ok u ↔
      values.length ≠ maxLen ∧ route.routeId ∉ values.map GraphRoute.routeId := by
  simp [accept, bind_eq_ok]

theorem collect_accept_eq_ok {routes values : List GraphRoute} :
    collect accept [] routes = .ok values ↔
      values = routes ∧ routes.length ≤ maxLen ∧ (routes.map GraphRoute.routeId).Nodup :=
  collect_eq_ok accept_eq_ok

def tryNew (routes : List GraphRoute) : Except GraphRoutesError GraphRoutes :=
  attach (collect accept [] routes) fun values h =>
    .ok ⟨sortByKey GraphRoute.routeId values,
      strictlySorted_sortByKey (by
        obtain ⟨rfl, _, hnodup⟩ := collect_accept_eq_ok.mp h
        exact hnodup),
      by
        obtain ⟨rfl, hlength, _⟩ := collect_accept_eq_ok.mp h
        simpa using hlength⟩

/-- `try_new` accepts distinct route identities up to the bound and sorts the routes. -/
theorem tryNew_eq_ok {routes : List GraphRoute} {out : GraphRoutes} :
    tryNew routes = .ok out ↔ (routes.map GraphRoute.routeId).Nodup ∧ routes.length ≤ maxLen ∧
      out.routes = sortByKey GraphRoute.routeId routes := by
  rw [tryNew, attach_eq_ok]
  constructor
  · rintro ⟨values, hvalues, hout⟩
    obtain ⟨rfl, hlength, hnodup⟩ := collect_accept_eq_ok.mp hvalues
    cases hout
    exact ⟨hnodup, hlength, rfl⟩
  · rintro ⟨hnodup, hlength, hout⟩
    exact ⟨routes, collect_accept_eq_ok.mpr ⟨rfl, hlength, hnodup⟩,
      congrArg Except.ok (ext_routes hout.symm)⟩

/-- Lookup by identity. -/
def get (routes : GraphRoutes) (routeId : RouteId) : Option GraphRoute :=
  binarySearchBy (fun route => compare route.routeId routeId) routes.routes

theorem get_eq_some {routes : GraphRoutes} {routeId : RouteId} {route : GraphRoute} :
    routes.get routeId = some route ↔ route ∈ routes.routes ∧ route.routeId = routeId :=
  binarySearchBy_eq_some routes.sorted

def toJson (routes : GraphRoutes) : Json := .arr (routes.routes.map GraphRoute.toJson)

end GraphRoutes

/-! ## Nodes -/

inductive GraphNodeError where
  | noControlOutcome
  | emptyContinueSuccessors
  | emptyWaitSuccessors

/-- A node with the successor sets of its controls. -/
structure GraphNode where
  nodeId : NodeId
  continueTo : Option ReadyNodes
  routes : GraphRoutes
  waitTo : Option ReadyNodes
  terminal : Bool
  continue_nonempty : ∀ successors ∈ continueTo, successors.nodes ≠ []
  wait_nonempty : ∀ successors ∈ waitTo, successors.nodes ≠ []
  has_control : ¬ (continueTo = none ∧ routes.routes = [] ∧ waitTo = none ∧ terminal = false)

namespace GraphNode

def new (nodeId : NodeId) (continueTo : Option ReadyNodes) (routes : GraphRoutes)
    (waitTo : Option ReadyNodes) (terminal : Bool) : Except GraphNodeError GraphNode :=
  if hcontinue : ¬ ∀ successors ∈ continueTo, successors.nodes ≠ [] then
    .error .emptyContinueSuccessors
  else if hwait : ¬ ∀ successors ∈ waitTo, successors.nodes ≠ [] then
    .error .emptyWaitSuccessors
  else if hcontrol : continueTo = none ∧ routes.routes = [] ∧ waitTo = none ∧
      terminal = false then
    .error .noControlOutcome
  else .ok ⟨nodeId, continueTo, routes, waitTo, terminal, not_not.mp hcontinue,
    not_not.mp hwait, hcontrol⟩

/-- All declared successor sets: continue, then routes, then wait. -/
def successorSets (node : GraphNode) : List ReadyNodes :=
  node.continueTo.toList ++ node.routes.routes.map GraphRoute.successors ++ node.waitTo.toList

/-- All successor occurrences in declaration order. -/
def successors (node : GraphNode) : List NodeId :=
  node.successorSets.flatMap ReadyNodes.nodes

/-- A node that may end or suspend the run. -/
def isBoundary (node : GraphNode) : Bool := node.terminal || node.waitTo.isSome

theorem mem_successorSets {node : GraphNode} {set : ReadyNodes} :
    set ∈ node.successorSets ↔ set ∈ node.continueTo ∨
      (∃ route ∈ node.routes.routes, route.successors = set) ∨ set ∈ node.waitTo := by
  simp [successorSets]

theorem successorSets_nonempty {node : GraphNode} {set : ReadyNodes}
    (h : set ∈ node.successorSets) : set.nodes ≠ [] := by
  rcases mem_successorSets.mp h with h | ⟨route, _, rfl⟩ | h
  · exact node.continue_nonempty set h
  · exact route.nonempty
  · exact node.wait_nonempty set h

theorem mem_successors {node : GraphNode} {target : NodeId} :
    target ∈ node.successors ↔ ∃ set ∈ node.successorSets, target ∈ set := by
  simp [successors, ReadyNodes.mem_def]

/-- The members that a node is written as; absent successor sets are skipped. -/
def members (node : GraphNode) : List (String × Json) :=
  [("node_id", node.nodeId.toJson)] ++
    Json.optionalMember "continue_to" ReadyNodes.toJson node.continueTo ++
    [("routes", node.routes.toJson)] ++
    Json.optionalMember "wait_to" ReadyNodes.toJson node.waitTo ++
    [("terminal", .bool node.terminal)]

def toJson (node : GraphNode) : Json := .obj node.members

end GraphNode

end StateKnot
