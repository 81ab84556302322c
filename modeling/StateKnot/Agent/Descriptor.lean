import StateKnot.Artifact
import StateKnot.Budget.Limits

/-!
# Agent descriptors

What an agent may do in one run: how many model turns, how many of them to repair
its output, and how many tool calls in one turn.  Of a descriptor only what the
modelled code reads is kept apart; the rest of it enters digests through its
serialized form.
-/

namespace StateKnot

open Lib

inductive AgentStructuredOutputStrategy where
  | modelNative | toolCall
deriving DecidableEq

inductive AgentToolConcurrency where
  | sequential
  | parallelReadOnly (maxConcurrency : Count)

inductive AgentExecutionConfigError where
  | zeroModelTurns
  | modelTurnsAboveHardMaximum (maximum actual : Count)
  | outputRepairsAboveHardMaximum (maximum actual : Count)
  | outputRepairsConsumeAllTurns (repairs turns : Count)
  | toolCallsAboveHardMaximum (maximum actual : Count)
  | parallelConcurrencyBelowTwo (actual : Count)
  | concurrencyExceedsToolCalls (concurrency toolCalls : Count)
deriving DecidableEq

def hardMaxModelTurns : Count := ⟨1024, by decide⟩
def hardMaxOutputRepairTurns : Count := ⟨64, by decide⟩
def hardMaxToolCallsPerTurn : Count := ⟨1024, by decide⟩

def validateToolConcurrency (maxToolCallsPerTurn : Count) :
    AgentToolConcurrency → Except AgentExecutionConfigError Unit
  | .sequential => return ()
  | .parallelReadOnly maxConcurrency => do
    reject (maxConcurrency.value < 2) (.parallelConcurrencyBelowTwo maxConcurrency)
    reject (maxConcurrency > maxToolCallsPerTurn)
      (.concurrencyExceedsToolCalls maxConcurrency maxToolCallsPerTurn)

/-- The checks of `AgentExecutionConfig::new`. -/
def validateExecutionConfig (maxModelTurns maxOutputRepairTurns maxToolCallsPerTurn : Count)
    (toolConcurrency : AgentToolConcurrency) : Except AgentExecutionConfigError Unit := do
  reject (maxModelTurns = 0) .zeroModelTurns
  reject (maxModelTurns > hardMaxModelTurns)
    (.modelTurnsAboveHardMaximum hardMaxModelTurns maxModelTurns)
  reject (maxOutputRepairTurns > hardMaxOutputRepairTurns)
    (.outputRepairsAboveHardMaximum hardMaxOutputRepairTurns maxOutputRepairTurns)
  reject (maxOutputRepairTurns ≥ maxModelTurns)
    (.outputRepairsConsumeAllTurns maxOutputRepairTurns maxModelTurns)
  reject (maxToolCallsPerTurn > hardMaxToolCallsPerTurn)
    (.toolCallsAboveHardMaximum hardMaxToolCallsPerTurn maxToolCallsPerTurn)
  validateToolConcurrency maxToolCallsPerTurn toolConcurrency

structure AgentExecutionConfig where
  structuredOutput : AgentStructuredOutputStrategy
  maxModelTurns : Count
  maxOutputRepairTurns : Count
  maxToolCallsPerTurn : Count
  toolConcurrency : AgentToolConcurrency
  config_ok : validateExecutionConfig maxModelTurns maxOutputRepairTurns maxToolCallsPerTurn
    toolConcurrency = .ok ()

/-- An instruction with who stands behind it. -/
structure Instruction where
  name : Ident .instructionName
  version : Version
  text : String
  metadata : ContentMetadata
  publisher : PrincipalIdentity

def AgentInstructions.maxLen : Nat := 32

/-- The serialized descriptor has distinct members and shows the identity in its metadata. -/
def ShowsIdentity (wire : Json) (identity : CapabilityIdentity) : Prop :=
  ∃ members metadata, wire = .obj members ∧ (members.map Prod.fst).Nodup ∧
    (metadata.map Prod.fst).Nodup ∧ members.lookup "metadata" = some (.obj metadata) ∧
    metadata.lookup "identity" = some identity.toJson

/-- An agent, as far as the modelled code reads it.  `wire` is the serialized descriptor;
`allowsNoTool` says whether the model can be told to call no tool.  Limits that are
published with an agent never name an absolute deadline. -/
structure AgentDescriptor where
  identity : CapabilityIdentity
  inputSchema : SchemaReference
  outputSchema : SchemaReference
  allowsNoTool : Bool
  instructions : List (Ident .instructionName)
  tools : List (Ident .capabilityName)
  execution : AgentExecutionConfig
  lifecycle : CapabilityLifecycle
  requiredScopes : ScopeSet
  budgetLimits : BudgetLimits
  wire : Json
  instructions_ok : instructions ≠ [] ∧ instructions.length ≤ AgentInstructions.maxLen
  calls_iff_tools : tools = [] ↔ execution.maxToolCallsPerTurn = 0
  deadline_none : budgetLimits.deadline = none
  wire_shows : ShowsIdentity wire identity

end StateKnot
