import StateKnot.Agent.Admission
import StateKnot.Graph.Planner
import StateKnot.NodeAttempt

/-!
# Child run admission

A ready node of a run may delegate to a child run.  The key of a child names the
activation and the slot it fills; its admission intent binds the parent's admission,
the child's own admission intent and the graph the child runs.  An intent is valid
for a parent only if the child acts for the same tenant and principal, with no scope
and no budget beyond the parent's.
-/

namespace StateKnot

open Lib

variable {E : Encoding}

/-! ## Keys -/

inductive ChildRunKeyError where
  | canonicalSerialization

def computeChildRunKeyDigest (E : Encoding) (parent : NodeActivation) (slot : ChildRunSlot) :
    Except ChildRunKeyError Digest := do
  let activationDigest ← (computeActivationDigest E parent).mapError
    (fun _ => .canonicalSerialization)
  okOr (E.domainSeparatedDigest (domainBytes "stateknot-child-run-key-v1")
    (.obj [("tenant_id", parent.tenantId.toJson), ("parent_run_id", parent.runId.toJson),
      ("parent_activation_digest", activationDigest.toJson), ("child_slot", slot.toJson)]))
    .canonicalSerialization

/-- The slot of an activation that a child run fills. -/
structure ChildRunKey (E : Encoding) where
  parent : NodeActivation
  slot : ChildRunSlot
  digest : Digest
  digest_eq : computeChildRunKeyDigest E parent slot = .ok digest
deriving DecidableEq

namespace ChildRunKey

def new (parent : NodeActivation) (slot : ChildRunSlot) :
    Except ChildRunKeyError (ChildRunKey E) :=
  attach (computeChildRunKeyDigest E parent slot) fun digest h => .ok ⟨parent, slot, digest, h⟩

def tenantId (key : ChildRunKey E) : TenantId := key.parent.tenantId

def parentRunId (key : ChildRunKey E) : RunId := key.parent.runId

def toJson (key : ChildRunKey E) : Json :=
  .obj [("parent", key.parent.toJson E), ("slot", key.slot.toJson),
    ("digest", key.digest.toJson)]

end ChildRunKey

/-! ## Intents -/

/-- A compiled graph is serialized as its definition with the digest. -/
def CompiledGraph.compiledJson (graph : CompiledGraph E) : Json :=
  match graph.toGraphDefinition.toJson with
  | .obj members => .obj (members ++ [("definition_digest", graph.definitionDigest.toJson)])
  | other => other

def CheckpointState.toJson (state : CheckpointState E) : Json :=
  .obj [("schema", state.schema.toJson), ("data", state.data.value),
    ("digest", state.digest.toJson)]

inductive ChildRunAdmissionIntentError where
  | childScopeMismatch
  | unsupportedParentNamespace
  | childGraphMismatch
  | parentMismatch
  | principalMismatch
  | scopeWidening
  | budget (source : BudgetNarrowingError)
  | parentCheckpointMismatch
  | parentNotReady
  | parentActivationMismatch
  | clockBeforeCheckpoint
  | deadlineExpired
  | schema (source : GraphSchemaValidationError)
  | snapshotTooLarge
  | integrity (source : CanonicalBytesError)

/-- What a child admission binds, before its digest. -/
structure SpawnTerms (E : Encoding) where
  key : ChildRunKey E
  parentAdmissionDigest : Digest
  child : AgentAdmissionIntent E
  childGraph : CompiledGraph E
  initialState : CheckpointState E

namespace SpawnTerms

def validateShape (terms : SpawnTerms E) : Except ChildRunAdmissionIntentError Unit := do
  reject (terms.key.tenantId ≠ terms.child.provenance.tenantId ∨
    terms.key.parentRunId = terms.child.provenance.runId) .childScopeMismatch
  reject (terms.key.parent.graphNamespace ≠ .root) .unsupportedParentNamespace
  reject (terms.child.graph ≠ terms.childGraph.reference ∨
    terms.child.descriptor.inputSchema ≠ terms.childGraph.inputSchema ∨
    terms.child.descriptor.outputSchema ≠ terms.childGraph.outputSchema ∨
    terms.initialState.schema ≠ terms.childGraph.stateSchema) .childGraphMismatch

/-- What the spawn digest covers: not the identity of the child run itself. -/
def spawnWire (terms : SpawnTerms E) : Json :=
  .obj [("key", terms.key.digest.toJson),
    ("parent_admission_digest", terms.parentAdmissionDigest.toJson),
    ("tenant_id", terms.child.provenance.tenantId.toJson),
    ("descriptor", terms.child.descriptor.wire), ("request", terms.child.request.toJson E),
    ("budget_layers", .arr (terms.child.budgetLayers.map (·.toJson E))),
    ("budget", terms.child.budget.toJson E), ("graph", terms.child.graph.toJson),
    ("authority", terms.child.authority.toJson), ("initial_state", terms.initialState.toJson),
    ("initial_ready_nodes", terms.childGraph.entryNodes.toJson),
    ("parent_close_policy", .str "cancel_and_join")]

def computeSpawnDigest (terms : SpawnTerms E) : Except ChildRunAdmissionIntentError Digest := do
  let canonical ← (E.canonicalBytes terms.spawnWire).mapError .integrity
  return E.sha256 (domainBytes "stateknot.child-run-admission-intent.v1" ++ canonical)

/-- The serialized intent. -/
def intentJson (terms : SpawnTerms E) (spawnDigest : Digest) : Json :=
  .obj [("key", terms.key.toJson), ("parent_admission_digest", terms.parentAdmissionDigest.toJson),
    ("child", terms.child.toJson), ("child_graph", terms.childGraph.compiledJson),
    ("initial_state", terms.initialState.toJson), ("spawn_digest", spawnDigest.toJson)]

def canonicalBytes (terms : SpawnTerms E) (spawnDigest : Digest) :
    Except ChildRunAdmissionIntentError (List UInt8) := do
  let bytes ← (E.canonicalBytes (terms.intentJson spawnDigest)).mapError .integrity
  reject (bytes.length > maxSnapshotBytes) .snapshotTooLarge
  return bytes

end SpawnTerms

/-- Terms of one child run with the digest that identifies the spawn. -/
structure ChildRunAdmissionIntent (E : Encoding) extends SpawnTerms E where
  spawnDigest : Digest
  shape_ok : toSpawnTerms.validateShape = .ok ()
  digest_eq : toSpawnTerms.computeSpawnDigest = .ok spawnDigest
  size_ok : ∃ bytes, toSpawnTerms.canonicalBytes spawnDigest = .ok bytes

namespace ChildRunAdmissionIntent

def build (terms : SpawnTerms E) :
    Except ChildRunAdmissionIntentError (ChildRunAdmissionIntent E) :=
  attach terms.validateShape fun _ hshape =>
  attach terms.computeSpawnDigest fun spawnDigest hdigest =>
  attach (terms.canonicalBytes spawnDigest) fun bytes hbytes =>
    .ok ⟨terms, spawnDigest, hshape, hdigest, bytes, hbytes⟩

def validateParent (intent : ChildRunAdmissionIntent E) (parent : AgentAdmission E) :
    Except ChildRunAdmissionIntentError Unit := do
  let base := intent.key.parent.baseCheckpoint
  reject (intent.parentAdmissionDigest ≠ parent.digest ∨
    intent.key.tenantId ≠ parent.intent.provenance.tenantId ∨
    intent.key.parentRunId ≠ parent.intent.provenance.runId ∨
    base.graph ≠ parent.intent.graph ∨
    base.journalHead.recordedAt < parent.admittedAt) .parentMismatch
  reject (intent.child.authority.principal ≠ parent.intent.authority.principal) .principalMismatch
  reject (!intent.child.authority.grantedScopes.isSubset parent.intent.authority.grantedScopes)
    .scopeWidening
  (intent.child.budget.validateNarrowing parent.intent.budget).mapError .budget

def new (parent : AgentAdmission E) (key : ChildRunKey E) (child : AgentAdmissionIntent E)
    (childGraph : CompiledGraph E) (initialState : CheckpointState E) :
    Except ChildRunAdmissionIntentError (ChildRunAdmissionIntent E) := do
  let intent ← build ⟨key, parent.digest, child, childGraph, initialState⟩
  intent.validateParent parent
  return intent

/-- The values that `validate_for` hands to the schema validator. -/
def schemaValues (intent : ChildRunAdmissionIntent E) : List (SchemaReference × BoundedJson) :=
  [(intent.child.request.inputSchema, intent.child.request.input),
    (intent.initialState.schema, intent.initialState.data),
    (intent.child.authority.evidence.schema, intent.child.authority.evidence.data)]

/-- The checks of `validate_for` that come before the schemas. -/
def validateReady (intent : ChildRunAdmissionIntent E) (parent : AgentAdmission E)
    (checkpoint : Checkpoint E) (observedAt : Timestamp) :
    Except ChildRunAdmissionIntentError Unit := do
  intent.validateParent parent
  reject (intent.key.parent.baseCheckpoint ≠ checkpoint.head) .parentCheckpointMismatch
  let activation ← (NodeActivation.forReadyRoot checkpoint intent.key.parent.nodeId).mapError
    (fun _ => .parentNotReady)
  reject (activation ≠ intent.key.parent) .parentActivationMismatch
  reject (observedAt < checkpoint.journalHead.recordedAt) .clockBeforeCheckpoint
  reject (observedAt ≥ intent.child.budget.deadline ∨
    observedAt ≥ parent.intent.budget.deadline) .deadlineExpired

/-- The calls of the schema validator, in order.  A panic of the validator unwinds
through `validate_for`. -/
def validateSchemas (schemas : GraphSchemaValidator) :
    List (SchemaReference × BoundedJson) → Caught ChildRunAdmissionIntentError Unit
  | [] => .returned (.ok ())
  | (schema, data) :: rest =>
    match schemas schema data with
    | .returned (.ok ()) => validateSchemas schemas rest
    | .returned (.error source) => .returned (.error (.schema source))
    | .panicked => .panicked

def validateFor (intent : ChildRunAdmissionIntent E) (parent : AgentAdmission E)
    (checkpoint : Checkpoint E) (schemas : GraphSchemaValidator) (observedAt : Timestamp) :
    Caught ChildRunAdmissionIntentError Unit :=
  match intent.validateReady parent checkpoint observedAt with
  | .error error => .returned (.error error)
  | .ok () => validateSchemas schemas intent.schemaValues

theorem validateFor_eq_ok {intent : ChildRunAdmissionIntent E} {parent : AgentAdmission E}
    {checkpoint : Checkpoint E} {schemas : GraphSchemaValidator} {observedAt : Timestamp}
    (h : intent.validateFor parent checkpoint schemas observedAt = .returned (.ok ())) :
    intent.validateReady parent checkpoint observedAt = .ok () := by
  unfold validateFor at h
  split at h
  · cases h
  · assumption

end ChildRunAdmissionIntent

end StateKnot
