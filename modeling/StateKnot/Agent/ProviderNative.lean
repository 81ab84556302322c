import StateKnot.Agent.Descriptor
import StateKnot.Graph.Planner
import StateKnot.Tool.Outcome

/-!
# The provider-native agent graph

An agent is compiled to a graph of two nodes: one calls the model, the other runs
the tools that the model asked for.  The state of the graph lists the completed
turns and the plan of the current phase.  A node hands the next state to the
reducer, which checks the state on its own and the step that leads to it.

The state is stored as JSON.  Its derived reader is a parameter; nothing is assumed
about it.
-/

namespace StateKnot

open Lib

/-! ## States -/

abbrev MessageId := Ident .message

structure ProviderNativeModelPlan where
  invocationId : InvocationId
  attemptId : AttemptId
  preparedEventId : EventId
  attemptStartEventId : EventId
  attemptTerminalEventId : EventId

structure ProviderNativeToolPlan where
  proposalIndex : UInt16
  invocationId : InvocationId
  attemptId : AttemptId
  preparedEventId : EventId
  attemptStartEventId : EventId
  attemptTerminalEventId : EventId
  actionDigest : Digest
  policyEvidenceDigest : Digest

structure ProviderNativeCompletedTurn where
  modelInvocationId : InvocationId
  toolInvocationIds : List InvocationId
deriving DecidableEq

/-- A turn without tool calls was rejected output, to be repaired by the next one. -/
def ProviderNativeCompletedTurn.requiresOutputRepair (turn : ProviderNativeCompletedTurn) : Bool :=
  turn.toolInvocationIds.isEmpty

inductive ProviderNativeAgentPhase where
  | model (plan : ProviderNativeModelPlan)
  | tools (modelInvocationId : InvocationId) (plans : List ProviderNativeToolPlan)

def ProviderNativeAgentPhase.isModel : ProviderNativeAgentPhase → Bool
  | .model _ => true
  | .tools _ _ => false

structure ProviderNativeAgentState where
  contractDigest : Digest
  inputMessageId : MessageId
  completedTurns : List ProviderNativeCompletedTurn
  phase : ProviderNativeAgentPhase

/-- The last completed turn asks for a repair. -/
def outputRepairActive (state : ProviderNativeAgentState) : Bool :=
  state.completedTurns.getLast?.any (·.requiresOutputRepair)

/-! ## Compilation -/

def maxCheckpointInvocationReferences : Nat := 4096

/-- A policy or an accounting pinned by identity and definition digest. -/
structure AgentToolPolicyReference where
  identity : CapabilityIdentity
  definitionDigest : Digest

abbrev AgentInvocationAccountingReference := AgentToolPolicyReference

def AgentToolPolicyReference.toJson (reference : AgentToolPolicyReference) : Json :=
  .obj [("identity", reference.identity.toJson),
    ("definition_digest", reference.definitionDigest.toJson)]

inductive ProviderNativeAgentGraphBuildError where
  | structuredOutputUnsupported
  | outputRepairInstructionConflict
  | outputRepairInstructionCapacity
  | outputRepairToolSelectionUnsupported
  | toolCallsPerTurnLimit
  | checkpointReferenceLimit
  | superstepLimit
  | staticDefinition
  | stateSchema
  | canonicalization
  | graph (source : GraphCompileError)

def validateSupportedExecution (descriptor : AgentDescriptor) :
    Except ProviderNativeAgentGraphBuildError Unit := do
  reject (descriptor.execution.structuredOutput ≠ .modelNative) .structuredOutputUnsupported
  reject (descriptor.execution.maxOutputRepairTurns ≠ 0 ∧ descriptor.tools ≠ [] ∧
    !descriptor.allowsNoTool) .outputRepairToolSelectionUnsupported
  reject (descriptor.execution.maxToolCallsPerTurn.value > 256) .toolCallsPerTurnLimit

def outputRepairInstructionName : Ident .instructionName := ⟨"stateknot.output_repair"⟩

def outputRepairInstructionText : String :=
  "A prior model attempt did not produce exactly one JSON value that satisfies the required " ++
    "JSON Schema. Return exactly one JSON value that conforms to the requested schema. Do not " ++
    "call tools. Do not include prose, Markdown, or additional content."

def buildOutputRepairInstruction (descriptor : AgentDescriptor) :
    Except ProviderNativeAgentGraphBuildError (Option Instruction) :=
  if descriptor.execution.maxOutputRepairTurns = 0 then .ok none
  else do
    reject (descriptor.instructions.length = AgentInstructions.maxLen)
      .outputRepairInstructionCapacity
    reject (outputRepairInstructionName ∈ descriptor.instructions)
      .outputRepairInstructionConflict
    return some {
      name := outputRepairInstructionName
      version := ⟨"1.0.0"⟩
      text := outputRepairInstructionText
      metadata := ⟨.application, .applicationControlled, ⟨"stateknot/internal/output-repair"⟩,
        .notApplied⟩
      publisher := descriptor.identity.owner }

def compositionDigest (E : Encoding) (descriptor : AgentDescriptor)
    (policy : AgentToolPolicyReference) (accounting : AgentInvocationAccountingReference)
    (inputSecurityLabel : Ident .securityLabel) :
    Except ProviderNativeAgentGraphBuildError Digest :=
  okOr (E.domainSeparatedDigest (domainBytes "stateknot.provider-native-agent.contract.v1")
    (.obj [("implementation", .str "stateknot.provider-native-agent.v1"),
      ("descriptor", descriptor.wire), ("policy", policy.toJson),
      ("accounting", accounting.toJson), ("input_security_label", inputSecurityLabel.toJson)]))
    .canonicalization

/-- `Map::insert`. -/
def insertMember (members : List (String × Json)) (key : String) (value : Json) :
    List (String × Json) :=
  members.filter (·.1 ≠ key) ++ [(key, value)]

/-- The schema of the state, from the document derived for its type. -/
def buildStateSchema (E : Encoding) (derived : Json) (schemaId : SchemaId) (contractDigest : Digest)
    (maximumTurns maximumCalls maximumRepairs : Nat) :
    Except ProviderNativeAgentGraphBuildError (SchemaReference × Json) :=
  match derived with
  | .obj members => do
    let description := "StateKnot provider-native agent state; contract=Digest(" ++
      contractDigest.text ++ "); max_turns=" ++ Nat.repr maximumTurns ++
      "; max_calls_per_turn=" ++ Nat.repr maximumCalls ++
      (if maximumRepairs = 0 then ""
        else "; max_output_repair_turns=" ++ Nat.repr maximumRepairs)
    let members := insertMember members "$schema"
      (.str "https://json-schema.org/draft/2020-12/schema")
    let members := insertMember members "$id" schemaId.toJson
    let document := Json.obj (insertMember members "description" (.str description))
    let canonical ← okOr (E.toVec document) .canonicalization
    return (⟨schemaId, ⟨"1.0.0"⟩, E.sha256 canonical⟩, document)
  | _ => .error .stateSchema

/-- A compiled agent. -/
structure ProviderNativeAgentGraph (E : Encoding) where
  descriptor : AgentDescriptor
  policy : AgentToolPolicyReference
  accounting : AgentInvocationAccountingReference
  inputSecurityLabel : Ident .securityLabel
  contractDigest : Digest
  stateSchema : SchemaReference
  stateSchemaDocument : Json
  graph : CompiledGraph E
  modelNodeId : NodeId
  toolsNodeId : NodeId
  toolsRouteId : RouteId
  outputRepairInstruction : Option Instruction
  references_le : descriptor.execution.maxModelTurns.value *
    descriptor.execution.maxToolCallsPerTurn.value ≤ maxCheckpointInvocationReferences
  supersteps_eq : graph.limits.maximumSupersteps.value =
    descriptor.execution.maxModelTurns.value * 2

namespace ProviderNativeAgentGraph

variable {E : Encoding}

/-- Errors of definitions that are fixed in the source. -/
def static {ε α : Type} (definition : Except ε α) :
    Except ProviderNativeAgentGraphBuildError α :=
  definition.mapError fun _ => .staticDefinition

/-- The node that calls the model: it may continue to itself when output can be repaired. -/
def modelNode (modelNodeId toolsNodeId : NodeId) (toolsRouteId : RouteId) (repairs : Bool) :
    Except ProviderNativeAgentGraphBuildError GraphNode := do
  let continueTo ← if repairs then (static (ReadyNodes.tryNew [modelNodeId])).map some else .ok none
  let toolsReady ← static (ReadyNodes.tryNew [toolsNodeId])
  let route ← static (GraphRoute.new toolsRouteId toolsReady)
  let routes ← static (GraphRoutes.tryNew [route])
  static (GraphNode.new modelNodeId continueTo routes none true)

/-- The node that runs tools: it continues to the model. -/
def toolsNode (modelNodeId toolsNodeId : NodeId) :
    Except ProviderNativeAgentGraphBuildError GraphNode := do
  let modelReady ← static (ReadyNodes.tryNew [modelNodeId])
  static (GraphNode.new toolsNodeId (some modelReady) .empty none false)

/-- Two supersteps for every model turn, one node at a time. -/
def executionLimits (maximumTurns : Nat) :
    Except ProviderNativeAgentGraphBuildError
      { limits : GraphExecutionLimits // limits.maximumSupersteps.value = maximumTurns * 2 } :=
  if h : maximumTurns * 2 ≤ maxDatabaseOrdinal then
    attach (static (GraphExecutionLimits.new ⟨maximumTurns * 2, Nat.zero_le _, h⟩ 1))
      fun limits hlimits => .ok ⟨limits, by
        simp only [static, mapError_eq_ok] at hlimits
        rw [GraphExecutionLimits.maximumSupersteps_of_new hlimits]⟩
  else .error .superstepLimit

/-- `compile`; `derived` is the schema document of the state type. -/
def compile (derived : Json) (descriptor : AgentDescriptor)
    (graphIdentity reducerIdentity : CapabilityIdentity) (stateSchemaId : SchemaId)
    (inputSecurityLabel : Ident .securityLabel) (policy : AgentToolPolicyReference)
    (accounting : AgentInvocationAccountingReference) :
    Except ProviderNativeAgentGraphBuildError (ProviderNativeAgentGraph E) := do
  validateSupportedExecution descriptor
  let outputRepairInstruction ← buildOutputRepairInstruction descriptor
  let contractDigest ← compositionDigest E descriptor policy accounting inputSecurityLabel
  let maximumTurns := descriptor.execution.maxModelTurns.value
  let maximumCalls := descriptor.execution.maxToolCallsPerTurn.value
  if hreferences : maximumTurns * maximumCalls > maxCheckpointInvocationReferences then
    .error .checkpointReferenceLimit
  else do
    let (stateSchema, stateSchemaDocument) ← buildStateSchema E derived stateSchemaId
      contractDigest maximumTurns maximumCalls descriptor.execution.maxOutputRepairTurns.value
    let modelNodeId ← static (NodeId.new "agent.model")
    let toolsNodeId ← static (NodeId.new "agent.tools")
    let toolsRouteId ← static (RouteId.new "tools")
    let model ← modelNode modelNodeId toolsNodeId toolsRouteId outputRepairInstruction.isSome
    let tools ← toolsNode modelNodeId toolsNodeId
    let entryNodes ← static (ReadyNodes.tryNew [modelNodeId])
    let limits ← executionLimits maximumTurns
    attach ((CompiledGraph.compile graphIdentity descriptor.inputSchema stateSchema stateSchema
      descriptor.outputSchema ⟨reducerIdentity, contractDigest⟩ entryNodes [model, tools]
      limits.val).mapError .graph) fun graph hgraph => .ok {
        descriptor, policy, accounting, inputSecurityLabel, contractDigest, stateSchema,
        stateSchemaDocument, graph, modelNodeId, toolsNodeId, toolsRouteId,
        outputRepairInstruction
        references_le := Nat.le_of_not_lt hreferences
        supersteps_eq := by
          rw [mapError_eq_ok, CompiledGraph.compile] at hgraph
          rw [CompiledGraph.build_eq_ok hgraph]
          exact limits.property }

end ProviderNativeAgentGraph

/-! ## Checks of a state -/

inductive ProviderNativeAgentStateError where
  | contractMismatch | bounds | transition | serialization | resourceLimit | integrity

/-- `BTreeSet::insert` for an identity that must be new. -/
def insertFresh (error : ProviderNativeAgentStateError) (ids : List InvocationId)
    (id : InvocationId) : Except ProviderNativeAgentStateError (List InvocationId) := do
  reject (id ∈ ids) error
  return ids ++ [id]

/-- Accumulators of the loop over the completed turns. -/
structure TurnScan where
  invocationIds : List InvocationId
  outputRepairTurns : Nat
  outputRepairActive : Bool
  referenceCount : Nat

/-- One turn of the loop of `validate_state`. -/
def scanTurn (maximumCalls : Nat) (scan : TurnScan) (turn : ProviderNativeCompletedTurn) :
    Except ProviderNativeAgentStateError TurnScan := do
  let invocationIds ← insertFresh .transition scan.invocationIds turn.modelInvocationId
  if turn.requiresOutputRepair then
    return ⟨invocationIds, scan.outputRepairTurns + 1, true, scan.referenceCount⟩
  else do
    reject (scan.outputRepairActive ∨ turn.toolInvocationIds.length > maximumCalls) .bounds
    let invocationIds ← turn.toolInvocationIds.foldlM (insertFresh .transition) invocationIds
    return { scan with
      invocationIds := invocationIds
      referenceCount := scan.referenceCount + turn.toolInvocationIds.length }

/-- One turn of the loop over tool plans. -/
def scanPlan (ids : List InvocationId) (entry : ProviderNativeToolPlan × Nat) :
    Except ProviderNativeAgentStateError (List InvocationId) := do
  reject (entry.1.proposalIndex.toNat ≠ entry.2 ∨ entry.1.invocationId ∈ ids) .transition
  return ids ++ [entry.1.invocationId]

def validatePhase (maximumReferences maximumTurns maximumCalls turns : Nat) (scan : TurnScan) :
    ProviderNativeAgentPhase → Except ProviderNativeAgentStateError (List InvocationId)
  | .model plan => insertFresh .transition scan.invocationIds plan.invocationId
  | .tools modelInvocationId plans => do
    reject (scan.outputRepairActive ∨ turns + 1 ≥ maximumTurns ∨ plans = [] ∨
      plans.length > maximumCalls ∨ modelInvocationId ∈ scan.invocationIds) .bounds
    reject (scan.referenceCount + plans.length > maximumReferences) .bounds
    plans.zipIdx.foldlM scanPlan (scan.invocationIds ++ [modelInvocationId])

section Reducer

variable {E : Encoding} (graph : ProviderNativeAgentGraph E)

/-- `validate_state` with the ceiling of invocation references left open. -/
def validateStateWithin (maximumReferences : Nat) (state : ProviderNativeAgentState) :
    Except ProviderNativeAgentStateError Unit := do
  let execution := graph.descriptor.execution
  reject (state.contractDigest ≠ graph.contractDigest) .contractMismatch
  reject (state.completedTurns.length ≥ execution.maxModelTurns.value) .bounds
  let scan ← state.completedTurns.foldlM (scanTurn execution.maxToolCallsPerTurn.value)
    ⟨[], 0, false, 0⟩
  reject (scan.outputRepairTurns > execution.maxOutputRepairTurns.value) .bounds
  reject (scan.referenceCount > maximumReferences) .bounds
  let _ ← validatePhase maximumReferences execution.maxModelTurns.value
    execution.maxToolCallsPerTurn.value state.completedTurns.length scan state.phase
  return ()

def validateState (state : ProviderNativeAgentState) :
    Except ProviderNativeAgentStateError Unit :=
  validateStateWithin graph maxCheckpointInvocationReferences state

/-- A step of the model node. -/
def validateModelTransition (current next : ProviderNativeAgentState) :
    Except ProviderNativeAgentStateError Unit :=
  match current.phase with
  | .tools _ _ => .error .transition
  | .model plan =>
    match next.phase with
    | .tools modelInvocationId _ =>
      reject (¬ (!outputRepairActive current ∧ current.completedTurns = next.completedTurns ∧
        plan.invocationId = modelInvocationId)) .transition
    | .model nextPlan =>
      reject (¬ (next.completedTurns.length = current.completedTurns.length + 1 ∧
        next.completedTurns.take current.completedTurns.length = current.completedTurns ∧
        (next.completedTurns.getLast?.any fun turn =>
          turn.requiresOutputRepair && turn.modelInvocationId = plan.invocationId) ∧
        nextPlan.invocationId ≠ plan.invocationId ∧ nextPlan.attemptId ≠ plan.attemptId))
        .transition

/-- A step of the tools node. -/
def validateToolsTransition (current next : ProviderNativeAgentState) :
    Except ProviderNativeAgentStateError Unit :=
  match current.phase with
  | .model _ => .error .transition
  | .tools modelInvocationId plans => do
    reject (!next.phase.isModel ∨
      next.completedTurns.length ≠ current.completedTurns.length + 1 ∨
      next.completedTurns.take current.completedTurns.length ≠ current.completedTurns) .transition
    let appended ← okOr next.completedTurns.getLast? .transition
    reject (appended.modelInvocationId ≠ modelInvocationId ∨
      appended.toolInvocationIds ≠ plans.map (·.invocationId)) .transition

def validateTransition (nodeId : NodeId) (current next : ProviderNativeAgentState) :
    Except ProviderNativeAgentStateError Unit := do
  reject (current.contractDigest ≠ next.contractDigest ∨
    current.inputMessageId ≠ next.inputMessageId) .transition
  if nodeId = graph.modelNodeId then validateModelTransition current next
  else if nodeId = graph.toolsNodeId then validateToolsTransition current next
  else .error .transition

/-! ## The reducer -/

variable (decodeState : BoundedJson → Option ProviderNativeAgentState)

/-- `decode_state` followed by `validate_state`, with the errors of the reducer. -/
def decodeValid (data : BoundedJson) : Except GraphReducerError ProviderNativeAgentState := do
  let state ← okOr (decodeState data) .rejected
  (validateState graph state).mapError fun _ => .rejected
  return state

/-- `ProviderNativeReducer::reduce`. -/
def reduceProviderNative (state : BoundedJson) (updates : List (GraphReducerInput E)) :
    Except GraphReducerError BoundedJson := do
  let current ← decodeValid graph decodeState state
  match updates with
  | [] => return state
  | [update] => do
    let next ← decodeValid graph decodeState update.update.data
    (validateTransition graph update.nodeId current next).mapError fun _ => .rejected
    return update.update.data
  | _ => .error .rejected

def providerNativeReducer : GraphReducer E where
  reference := graph.graph.reducer
  reduce := fun state updates => .returned (reduceProviderNative graph decodeState state updates)

/-- What `initial_state` encodes: no completed turn and a fresh plan for the first. -/
def initialState (inputMessageId : MessageId) (plan : ProviderNativeModelPlan) :
    ProviderNativeAgentState :=
  ⟨graph.contractDigest, inputMessageId, [], .model plan⟩

end Reducer

end StateKnot
