import StateKnot.Barrier
import StateKnot.Graph.Compile

/-!
# Barrier planning

`plan_barrier` turns a base checkpoint and the pending results of its ready nodes
into the next checkpoint.  It validates the checkpoint against the graph, orders
the results by node, resolves every node's control to the successor set that the
node declares for it, folds the state updates through the reducer, and builds the
barrier.

The schema validator and the reducer are supplied by the application.  They are
parameters: deterministic functions that return, fail or panic.
-/

namespace StateKnot

open Lib

variable {E : Encoding}

/-! ## Application callbacks -/

/-- Outcome of a call under `catch_unwind`. -/
inductive Caught (ε α : Type) where
  | returned (result : Except ε α)
  | panicked

inductive GraphSchemaValidationError where
  | rejected | unavailable

/-- A schema validator. -/
abbrev GraphSchemaValidator :=
  SchemaReference → BoundedJson → Caught GraphSchemaValidationError Unit

inductive GraphReducerError where
  | rejected | unavailable | resourceLimit

/-- One update handed to the reducer. -/
structure GraphReducerInput (E : Encoding) where
  nodeId : NodeId
  update : NodeStateUpdate E

/-- A reducer with the reference under which graphs pin it. -/
structure GraphReducer (E : Encoding) where
  reference : GraphReducerReference
  reduce : BoundedJson → List (GraphReducerInput E) → Caught GraphReducerError BoundedJson

/-! ## Plans and errors -/

inductive GraphBarrierDisposition (E : Encoding) where
  | continue
  | wait (waits : NodeWaits E)
  | terminal (output : NodeTerminalOutput E)

structure GraphBarrierPlan (E : Encoding) where
  barrier : CheckpointBarrier E
  disposition : GraphBarrierDisposition E

inductive GraphValueKind where
  | baseState | nodeUpdate | terminalOutput | reducedState

inductive GraphBarrierPlanError where
  | graphReferenceMismatch
  | initialReadySetMismatch
  | superstepLimitReached (maximum actual : Superstep)
  | baseParallelismExceeded (maximum actual : Nat)
  | unknownReadyNode (nodeId : NodeId)
  | reducerReferenceMismatch
  | resultCountMismatch (expected actual : Nat)
  | duplicateResultNode (nodeId : NodeId)
  | missingResultNode (nodeId : NodeId)
  | resultBaseMismatch (nodeId : NodeId)
  | nonRootActivation (nodeId : NodeId)
  | activationMismatch (nodeId : NodeId)
  | updateSchemaMismatch (nodeId : NodeId)
  | terminalOutputSchemaMismatch (nodeId : NodeId)
  | schemaValidation (kind : GraphValueKind) (nodeId : Option NodeId)
      (source : GraphSchemaValidationError)
  | schemaValidatorPanicked (kind : GraphValueKind) (nodeId : Option NodeId)
  | undeclaredControl (nodeId : NodeId) (control : NodeControlKind)
  | undeclaredRoute (nodeId : NodeId) (routeId : RouteId)
  | terminalNotExclusive
  | advancingBarrierWithoutSuccessor
  | invalidWaitBatch (source : NodeWaitsError)
  | successorParallelismExceeded (maximum actual : Nat)
  | reducerPanicked
  | reducerFailed (source : GraphReducerError)
  | invalidReducedState (source : CheckpointStateError)
  | invalidSuccessor (source : CheckpointWriteError)
  | invalidBarrier (source : CheckpointBarrierError)

def validateSchema (schemas : GraphSchemaValidator) (schema : SchemaReference)
    (value : BoundedJson) (kind : GraphValueKind) (nodeId : Option NodeId) :
    Except GraphBarrierPlanError Unit :=
  match schemas schema value with
  | .returned (.ok ()) => .ok ()
  | .returned (.error source) => .error (.schemaValidation kind nodeId source)
  | .panicked => .error (.schemaValidatorPanicked kind nodeId)

/-! ## The planner -/

/-- The arguments of `plan_barrier`. -/
structure GraphBarrierPlanner (E : Encoding) where
  graph : CompiledGraph E
  base : Checkpoint E
  results : List (PendingNodeResult E)
  successorId : CheckpointId
  schemas : GraphSchemaValidator
  reducer : GraphReducer E

/-- Accumulators of the loop over the ordered results.  `nextNodes` lists the successor
occurrences; the set is taken after the loop. -/
structure ControlState (E : Encoding) where
  reducerInputs : List (GraphReducerInput E)
  nextNodes : List NodeId
  waits : List (NodeWait E)
  terminal : Option (NodeTerminalOutput E)

structure ResolvedControls (E : Encoding) where
  reducerInputs : List (GraphReducerInput E)
  readyNodes : ReadyNodes
  disposition : GraphBarrierDisposition E

/-- What the combined controls of a barrier mean for the run. -/
def resolveDisposition (resultCount : Nat) (nextNodes : List NodeId)
    (waits : List (NodeWait E)) (terminal : Option (NodeTerminalOutput E)) :
    Except GraphBarrierPlanError (GraphBarrierDisposition E) :=
  match terminal with
  | some output =>
    if resultCount ≠ 1 ∨ waits ≠ [] ∨ nextNodes ≠ [] then .error .terminalNotExclusive
    else .ok (.terminal output)
  | none =>
    if waits = [] then
      if nextNodes = [] then .error .advancingBarrierWithoutSuccessor else .ok .continue
    else ((NodeWaits.tryNew waits).mapError .invalidWaitBatch).map .wait

namespace GraphBarrierPlanner

variable (planner : GraphBarrierPlanner E)

def validateCheckpoint : Except GraphBarrierPlanError Unit := do
  let limits := planner.graph.limits
  reject (planner.base.graph ≠ planner.graph.reference) .graphReferenceMismatch
  reject (planner.base.superstep = .initial ∧
    planner.base.readyNodes ≠ planner.graph.entryNodes) .initialReadySetMismatch
  reject (planner.base.superstep.value ≥ limits.maximumSupersteps.value)
    (.superstepLimitReached limits.maximumSupersteps planner.base.superstep)
  reject (planner.base.readyNodes.len > limits.maximumParallelism)
    (.baseParallelismExceeded limits.maximumParallelism planner.base.readyNodes.len)
  forM planner.base.readyNodes.nodes fun nodeId =>
    reject ((planner.graph.node nodeId).isNone) (.unknownReadyNode nodeId)

/-- One turn of the loop of `ordered_results`. -/
def acceptResult (ordered : List (PendingNodeResult E)) (result : PendingNodeResult E) :
    Except GraphBarrierPlanError Unit := do
  let activation := result.intent.activation
  reject (activation.baseCheckpoint ≠ planner.base.head) (.resultBaseMismatch activation.nodeId)
  reject (activation.graphNamespace ≠ .root) (.nonRootActivation activation.nodeId)
  let expected ← (NodeActivation.forReadyRoot planner.base activation.nodeId).mapError
    (fun _ => .activationMismatch activation.nodeId)
  reject (activation ≠ expected) (.activationMismatch activation.nodeId)
  reject (activation.nodeId ∈ ordered.map PendingNodeResult.nodeId)
    (.duplicateResultNode activation.nodeId)

def orderedResults : Except GraphBarrierPlanError (List (PendingNodeResult E)) := do
  reject (planner.results.length ≠ planner.base.readyNodes.len)
    (.resultCountMismatch planner.base.readyNodes.len planner.results.length)
  let ordered ← collect planner.acceptResult [] planner.results
  forM planner.base.readyNodes.nodes fun nodeId =>
    reject (nodeId ∉ ordered.map PendingNodeResult.nodeId) (.missingResultNode nodeId)
  return sortByKey PendingNodeResult.nodeId ordered

/-- Check a state update and queue it for the reducer. -/
def resolveUpdate (state : ControlState E) (nodeId : NodeId) :
    NodeStateChange E → Except GraphBarrierPlanError (ControlState E)
  | .unchanged => return state
  | .update update => do
    reject (update.schema ≠ planner.graph.updateSchema) (.updateSchemaMismatch nodeId)
    validateSchema planner.schemas update.schema update.data .nodeUpdate (some nodeId)
    return { state with reducerInputs := state.reducerInputs ++ [⟨nodeId, update⟩] }

/-- Resolve a control against the successor sets of its node. -/
def resolveControl (state : ControlState E) (node : GraphNode) (nodeId : NodeId) :
    NodeControl E → Except GraphBarrierPlanError (ControlState E)
  | .continue => do
    let successors ← okOr node.continueTo (.undeclaredControl nodeId .continue)
    return { state with nextNodes := state.nextNodes ++ successors.nodes }
  | .route routeId => do
    let route ← okOr (node.routes.get routeId) (.undeclaredRoute nodeId routeId)
    return { state with nextNodes := state.nextNodes ++ route.successors.nodes }
  | .wait waits => do
    let successors ← okOr node.waitTo (.undeclaredControl nodeId .wait)
    return { state with
      nextNodes := state.nextNodes ++ successors.nodes
      waits := state.waits ++ waits.values }
  | .terminal output => do
    reject (!node.terminal) (.undeclaredControl nodeId .terminal)
    reject (output.schema ≠ planner.graph.outputSchema) (.terminalOutputSchemaMismatch nodeId)
    validateSchema planner.schemas output.schema output.data .terminalOutput (some nodeId)
    reject state.terminal.isSome .terminalNotExclusive
    return { state with terminal := some output }

/-- One turn of the loop of `resolve_controls`. -/
def resolveResult (state : ControlState E) (result : PendingNodeResult E) :
    Except GraphBarrierPlanError (ControlState E) := do
  let nodeId := result.intent.activation.nodeId
  let node ← okOr (planner.graph.node nodeId) (.unknownReadyNode nodeId)
  let state ← planner.resolveUpdate state nodeId result.intent.stateChange
  planner.resolveControl state node nodeId result.intent.control

def resolveControls (ordered : List (PendingNodeResult E)) :
    Except GraphBarrierPlanError (ResolvedControls E) := do
  let state ← ordered.foldlM planner.resolveResult ⟨[], [], [], none⟩
  let nextNodes := toOrderedSet state.nextNodes
  let disposition ← resolveDisposition ordered.length nextNodes state.waits state.terminal
  let maximum := planner.graph.limits.maximumParallelism
  reject (nextNodes.length > maximum) (.successorParallelismExceeded maximum nextNodes.length)
  let readyNodes ← (ReadyNodes.tryNew nextNodes).mapError
    (fun _ => .successorParallelismExceeded ReadyNodes.maxLen (ReadyNodes.maxLen + 1))
  return ⟨state.reducerInputs, readyNodes, disposition⟩

/-- The reducer is not called when no node updates the state. -/
def reducedData (reducerInputs : List (GraphReducerInput E)) :
    Except GraphBarrierPlanError BoundedJson :=
  if reducerInputs = [] then .ok planner.base.state.data
  else
    match planner.reducer.reduce planner.base.state.data reducerInputs with
    | .panicked => .error .reducerPanicked
    | .returned (.error source) => .error (.reducerFailed source)
    | .returned (.ok reduced) => .ok reduced

def reduceState (reducerInputs : List (GraphReducerInput E)) :
    Except GraphBarrierPlanError (CheckpointState E) := do
  let reduced ← planner.reducedData reducerInputs
  validateSchema planner.schemas planner.graph.stateSchema reduced .reducedState none
  (CheckpointState.new planner.graph.stateSchema reduced).mapError .invalidReducedState

def plan : Except GraphBarrierPlanError (GraphBarrierPlan E) := do
  planner.validateCheckpoint
  reject (planner.reducer.reference ≠ planner.graph.reducer) .reducerReferenceMismatch
  validateSchema planner.schemas planner.graph.stateSchema planner.base.state.data .baseState none
  let ordered ← planner.orderedResults
  let resolved ← planner.resolveControls ordered
  let state ← planner.reduceState resolved.reducerInputs
  let successor ← (CheckpointWrite.successor planner.successorId planner.base state
    resolved.readyNodes).mapError .invalidSuccessor
  let barrier ← (CheckpointBarrier.new planner.base successor
    (ordered.map PendingNodeResult.head)).mapError .invalidBarrier
  return ⟨barrier, resolved.disposition⟩

end GraphBarrierPlanner

/-- `CompiledGraph::plan_barrier`. -/
def CompiledGraph.planBarrier (graph : CompiledGraph E) (base : Checkpoint E)
    (results : List (PendingNodeResult E)) (successorId : CheckpointId)
    (schemas : GraphSchemaValidator) (reducer : GraphReducer E) :
    Except GraphBarrierPlanError (GraphBarrierPlan E) :=
  GraphBarrierPlanner.plan ⟨graph, base, results, successorId, schemas, reducer⟩

end StateKnot
