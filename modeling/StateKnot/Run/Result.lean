import StateKnot.Durable

/-!
# Results of runs

The output of a successful run, bound to the run that produced it.  The reported
usage covers what the result carries: its output, its artifacts and at least one
model turn.
-/

namespace StateKnot

open Lib

abbrev ThreadId := Ident .thread

/-- The run and the agent a result belongs to. -/
structure AgentResultProvenance where
  tenantId : TenantId
  runId : RunId
  threadId : ThreadId
  invocationId : InvocationId
  agent : CapabilityIdentity
deriving DecidableEq

/-- `AgentArtifacts` makes the same checks as the artifacts of a tool result. -/
abbrev AgentArtifacts (E : Encoding) := ToolArtifacts E

inductive AgentResultError where
  | missingModelTurn
  | modelAttemptsBelowTurns (attempts turns : Count)
  | outputBytesUnderreported (minimum : Nat) (actual : Count)
  | artifactBytesUnderreported (minimum actual : Count)
  | artifactTenantMismatch (index : Nat) (expected actual : TenantId)
  | artifactRunMismatch (index : Nat) (expected actual : RunId)

variable {E : Encoding}

/-- The checks of `AgentResult::new`. -/
def validateAgentResult (provenance : AgentResultProvenance) (output : BoundedJson)
    (artifacts : AgentArtifacts E) (usage : BudgetUsage) : Except AgentResultError Unit := do
  reject (usage.counts .modelTurns = 0) .missingModelTurn
  reject (usage.counts .modelAttempts < usage.counts .modelTurns)
    (.modelAttemptsBelowTurns (usage.counts .modelAttempts) (usage.counts .modelTurns))
  reject (output.stats.compactBytes > (usage.counts .outputBytes).value)
    (.outputBytesUnderreported output.stats.compactBytes (usage.counts .outputBytes))
  reject (artifacts.totalBytes > usage.counts .artifactBytes)
    (.artifactBytesUnderreported artifacts.totalBytes (usage.counts .artifactBytes))
  forM artifacts.values.zipIdx fun (artifact, index) => do
    reject (artifact.identity.tenantId ≠ provenance.tenantId)
      (.artifactTenantMismatch index provenance.tenantId artifact.identity.tenantId)
    reject (artifact.provenance.runId ≠ provenance.runId)
      (.artifactRunMismatch index provenance.runId artifact.provenance.runId)

/-- The output of a run.  It was read under some limits, none of which exceeds the
maximum. -/
structure AgentResult (E : Encoding) where
  provenance : AgentResultProvenance
  completedAt : Timestamp
  outputSchema : SchemaReference
  output : BoundedJson
  artifacts : AgentArtifacts E
  usage : BudgetUsage
  output_read : ∃ tree, BoundedJson.tryFromValueWithLimits tree .maximum = .ok output
  result_ok : validateAgentResult provenance output artifacts usage = .ok ()
deriving DecidableEq

namespace AgentResult

def new (provenance : AgentResultProvenance) (completedAt : Timestamp)
    (outputSchema : SchemaReference) (output : BoundedJson) (artifacts : AgentArtifacts E)
    (usage : BudgetUsage)
    (output_read : ∃ tree, BoundedJson.tryFromValueWithLimits tree .maximum = .ok output) :
    Except AgentResultError (AgentResult E) :=
  attach (validateAgentResult provenance output artifacts usage) fun _ h =>
    .ok ⟨provenance, completedAt, outputSchema, output, artifacts, usage, output_read, h⟩

/-! ## Reading results back -/

theorem default_narrower_maximum : Json.Narrower .default .maximum := by
  constructor <;> decide

/-- The output is read back under the default limits. -/
def reread (result : AgentResult E) : Option (AgentResult E) := do
  let tree ← E.transport result.output.value
  match houtput : BoundedJson.deserialize tree with
  | .error _ => none
  | .ok output => do
    let artifacts ← result.artifacts.reread
    let usage ← result.usage.reread
    (new result.provenance result.completedAt result.outputSchema output artifacts usage
      ⟨output.value, BoundedJson.read_wider default_narrower_maximum houtput⟩).toOption

theorem reread_eq_some (hE : E.KeepsTrees) {result result' : AgentResult E} :
    result.reread = some result' ↔
      result.output.value.FitsLimits .default ∧ result' = result := by
  obtain ⟨tree, htree⟩ := result.output_read
  rw [reread, hE, Option.bind_eq_bind, Option.bind_some]
  split
  · rename_i error herror
    constructor
    · intro h
      cases h
    · intro ⟨hfits, _⟩
      have hread := (BoundedJson.reread_eq_ok htree).mpr ⟨hfits, rfl⟩
      rw [BoundedJson.deserialize, hread] at herror
      cases herror
  · rename_i output houtput
    obtain ⟨hfits, rfl⟩ := (BoundedJson.reread_eq_ok htree).mp houtput
    have hnew : ∀ hread, new result.provenance result.completedAt result.outputSchema
        result.output result.artifacts result.usage hread = .ok result := by
      intro hread
      rw [new, attach_eq_ok]
      exact ⟨(), result.result_ok, rfl⟩
    simp only [ToolArtifacts.reread_eq, BudgetUsage.reread_eq, Option.bind_eq_bind,
      Option.bind_some, hnew, toOption_eq_some, Except.ok.injEq]
    exact ⟨fun h => ⟨hfits, h.symm⟩, fun h => h.2.symm⟩

end AgentResult

end StateKnot
