import StateKnot.Capability
import StateKnot.Failure
import StateKnot.Budget.Amounts

/-!
# Tool descriptors

A descriptor says what a tool takes and returns, what running it may change in the
world, and the ceilings of one execution.  The risk fixes how retries are made
safe: a write that is not idempotent has no idempotency mechanism to lean on.
-/

namespace StateKnot

open Lib

/-! ## Execution semantics -/

inductive ToolRisk where
  | readOnly | idempotentWrite | nonIdempotentWrite
deriving DecidableEq

def ToolRisk.text : ToolRisk → String
  | .readOnly => "read_only"
  | .idempotentWrite => "idempotent_write"
  | .nonIdempotentWrite => "non_idempotent_write"

inductive ToolIdempotency where
  | notApplicable | intrinsic | requiredKey | unsupported
deriving DecidableEq

def ToolIdempotency.text : ToolIdempotency → String
  | .notApplicable => "not_applicable"
  | .intrinsic => "intrinsic"
  | .requiredKey => "required_key"
  | .unsupported => "unsupported"

inductive ToolExecutionSemanticsError where
  | invalidIdempotency (risk : ToolRisk) (idempotency : ToolIdempotency)
  | readOnlyRecoverySupport (statusQuery compensation : Bool)

/-- The pairs of risk and idempotency that make sense together. -/
def idempotencyIsValid : ToolRisk → ToolIdempotency → Bool
  | .readOnly, .notApplicable => true
  | .idempotentWrite, .intrinsic => true
  | .idempotentWrite, .requiredKey => true
  | .nonIdempotentWrite, .unsupported => true
  | _, _ => false

def validateSemantics (risk : ToolRisk) (idempotency : ToolIdempotency)
    (statusQuery compensation : Bool) : Except ToolExecutionSemanticsError Unit := do
  reject (!idempotencyIsValid risk idempotency) (.invalidIdempotency risk idempotency)
  reject (risk = .readOnly ∧ (statusQuery || compensation))
    (.readOnlyRecoverySupport statusQuery compensation)

structure ToolExecutionSemantics where
  risk : ToolRisk
  idempotency : ToolIdempotency
  statusQuery : Bool
  compensation : Bool
  semantics_ok : validateSemantics risk idempotency statusQuery compensation = .ok ()
deriving DecidableEq

namespace ToolExecutionSemantics

def new (risk : ToolRisk) (idempotency : ToolIdempotency) (statusQuery compensation : Bool) :
    Except ToolExecutionSemanticsError ToolExecutionSemantics :=
  attach (validateSemantics risk idempotency statusQuery compensation) fun _ h =>
    .ok ⟨risk, idempotency, statusQuery, compensation, h⟩

def toJson (semantics : ToolExecutionSemantics) : Json :=
  .obj [("risk", .str semantics.risk.text), ("idempotency", .str semantics.idempotency.text),
    ("status_query", .bool semantics.statusQuery),
    ("compensation", .bool semantics.compensation)]

end ToolExecutionSemantics

/-! ## Resources and invocation -/

inductive ToolResourceAccess where
  | none | readOnly | readWrite
deriving DecidableEq

def ToolResourceAccess.text : ToolResourceAccess → String
  | .none => "none"
  | .readOnly => "read_only"
  | .readWrite => "read_write"

structure ToolResourceRequirements where
  network : ToolResourceAccess
  filesystem : ToolResourceAccess
  credentials : Bool
  dynamicCode : Bool
deriving DecidableEq

namespace ToolResourceRequirements

def hasWriteAccess (resources : ToolResourceRequirements) : Bool :=
  resources.network = .readWrite || resources.filesystem = .readWrite

def toJson (resources : ToolResourceRequirements) : Json :=
  .obj [("network", .str resources.network.text), ("filesystem", .str resources.filesystem.text),
    ("credentials", .bool resources.credentials), ("dynamic_code", .bool resources.dynamicCode)]

end ToolResourceRequirements

inductive ToolCancellationSupport where
  | unsupported | cooperative
deriving DecidableEq

def ToolCancellationSupport.text : ToolCancellationSupport → String
  | .unsupported => "unsupported"
  | .cooperative => "cooperative"

structure ToolInvocationCapabilities where
  cancellation : ToolCancellationSupport
  maxProgressEvents : Count
deriving DecidableEq

def ToolInvocationCapabilities.toJson (invocation : ToolInvocationCapabilities) : Json :=
  .obj [("cancellation", .str invocation.cancellation.text),
    ("max_progress_events", invocation.maxProgressEvents.toJson)]

/-! ## Limits -/

inductive ToolExecutionLimitsError where
  | zeroTimeout
  | zeroConcurrency
  | zeroInputBytes
  | zeroInlineResultBytes
  | artifactCapacityMismatch (maxArtifacts maxTotalArtifactBytes : Count)

def validateLimits (timeout : DurationMillis)
    (maxConcurrency maxInputBytes maxInlineResultBytes maxArtifacts maxTotalArtifactBytes : Count) :
    Except ToolExecutionLimitsError Unit := do
  reject (timeout.millis = 0) .zeroTimeout
  reject (maxConcurrency = 0) .zeroConcurrency
  reject (maxInputBytes = 0) .zeroInputBytes
  reject (maxInlineResultBytes = 0) .zeroInlineResultBytes
  reject (decide (maxArtifacts = 0) ≠ decide (maxTotalArtifactBytes = 0))
    (.artifactCapacityMismatch maxArtifacts maxTotalArtifactBytes)

structure ToolExecutionLimits where
  timeout : DurationMillis
  maxConcurrency : Count
  maxInputBytes : Count
  maxInlineResultBytes : Count
  maxArtifacts : Count
  maxTotalArtifactBytes : Count
  limits_ok : validateLimits timeout maxConcurrency maxInputBytes maxInlineResultBytes
    maxArtifacts maxTotalArtifactBytes = .ok ()
deriving DecidableEq

namespace ToolExecutionLimits

def new (timeout : DurationMillis)
    (maxConcurrency maxInputBytes maxInlineResultBytes maxArtifacts maxTotalArtifactBytes : Count) :
    Except ToolExecutionLimitsError ToolExecutionLimits :=
  attach (validateLimits timeout maxConcurrency maxInputBytes maxInlineResultBytes maxArtifacts
    maxTotalArtifactBytes) fun _ h =>
      .ok ⟨timeout, maxConcurrency, maxInputBytes, maxInlineResultBytes, maxArtifacts,
        maxTotalArtifactBytes, h⟩

def toJson (limits : ToolExecutionLimits) : Json :=
  .obj [("timeout", limits.timeout.toJson), ("max_concurrency", limits.maxConcurrency.toJson),
    ("max_input_bytes", limits.maxInputBytes.toJson),
    ("max_inline_result_bytes", limits.maxInlineResultBytes.toJson),
    ("max_artifacts", limits.maxArtifacts.toJson),
    ("max_total_artifact_bytes", limits.maxTotalArtifactBytes.toJson)]

end ToolExecutionLimits

/-! ## Descriptors -/

inductive ToolDescriptorError where
  | wrongCapabilityKind (actual : CapabilityKind)
  | readOnlyResourceWrite (network filesystem : ToolResourceAccess)

def validateDescriptor (metadata : CapabilityMetadata) (semantics : ToolExecutionSemantics)
    (resources : ToolResourceRequirements) : Except ToolDescriptorError Unit := do
  reject (metadata.kind ≠ .tool) (.wrongCapabilityKind metadata.kind)
  reject (semantics.risk = .readOnly ∧ resources.hasWriteAccess)
    (.readOnlyResourceWrite resources.network resources.filesystem)

structure ToolDescriptor where
  metadata : CapabilityMetadata
  inputSchema : SchemaReference
  outputSchema : SchemaReference
  semantics : ToolExecutionSemantics
  resources : ToolResourceRequirements
  invocation : ToolInvocationCapabilities
  limits : ToolExecutionLimits
  descriptor_ok : validateDescriptor metadata semantics resources = .ok ()
deriving DecidableEq

namespace ToolDescriptor

def new (metadata : CapabilityMetadata) (inputSchema outputSchema : SchemaReference)
    (semantics : ToolExecutionSemantics) (resources : ToolResourceRequirements)
    (invocation : ToolInvocationCapabilities) (limits : ToolExecutionLimits) :
    Except ToolDescriptorError ToolDescriptor :=
  attach (validateDescriptor metadata semantics resources) fun _ h =>
    .ok ⟨metadata, inputSchema, outputSchema, semantics, resources, invocation, limits, h⟩

def toJson (E : Encoding) (descriptor : ToolDescriptor) : Json :=
  .obj [("metadata", descriptor.metadata.toJson E),
    ("input_schema", descriptor.inputSchema.toJson),
    ("output_schema", descriptor.outputSchema.toJson),
    ("semantics", descriptor.semantics.toJson), ("resources", descriptor.resources.toJson),
    ("invocation", descriptor.invocation.toJson), ("limits", descriptor.limits.toJson)]

end ToolDescriptor

end StateKnot
