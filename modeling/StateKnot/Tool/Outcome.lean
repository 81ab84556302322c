import StateKnot.Artifact
import StateKnot.Failure

/-!
# Tool inputs, results and errors

What goes into a tool attempt and what can come out of it.  An error says whether
the attempt changed the world: an effect is unknown exactly when the failure is an
ambiguous external outcome, and only then may the error carry a handle by which
the outcome can be looked up.
-/

namespace StateKnot

open Lib

abbrev InvocationId := Ident .invocation

/-! ## Inputs -/

inductive ToolInputError where
  | objectRootRequired

/-- `Value::is_object`. -/
def Json.isObject : Json → Bool
  | .obj _ => true
  | _ => false

/-- Arguments of a call; the root is an object. -/
structure ToolInput where
  schema : SchemaReference
  value : BoundedJson
  root_object : value.value.isObject
deriving DecidableEq

namespace ToolInput

def new (schema : SchemaReference) (value : BoundedJson) : Except ToolInputError ToolInput :=
  if h : value.value.isObject then .ok ⟨schema, value, h⟩ else .error .objectRootRequired

def toJson (input : ToolInput) : Json :=
  .obj [("schema", input.schema.toJson), ("value", input.value.value)]

end ToolInput

/-! ## Artifacts of a result -/

inductive ToolArtifactsError where
  | tooMany (maximum actual : Nat)
  | duplicateIdentity
  | totalBytesOverflow

/-- References in the order the tool returned them, with the sum of their lengths. -/
structure ToolArtifacts (E : Encoding) where
  values : List (ArtifactRef E)
  totalBytes : Count
  bounded : values.length ≤ 64
  distinct : (values.map (·.identity)).Nodup
  total_eq : totalBytes.value = (values.map (·.representation.byteLength.value)).sum
deriving DecidableEq

namespace ToolArtifacts

variable {E : Encoding}

theorem zero_le_maxLen : 0 ≤ 64 := by decide

def empty : ToolArtifacts E := ⟨[], 0, zero_le_maxLen, by simp, rfl⟩

/-- One turn of the loop of `try_new`. -/
def push (artifacts : ToolArtifacts E) (value : ArtifactRef E) :
    Except ToolArtifactsError (ToolArtifacts E) :=
  if hfull : artifacts.values.length = 64 then .error (.tooMany 64 65)
  else if hfresh : value.identity ∈ artifacts.values.map (·.identity) then
    .error .duplicateIdentity
  else
    match htotal : artifacts.totalBytes.checkedAdd value.representation.byteLength with
    | none => .error .totalBytesOverflow
    | some totalBytes => .ok {
        values := artifacts.values ++ [value]
        totalBytes := totalBytes
        bounded := by
          have hbounded := artifacts.bounded
          rw [List.length_append, List.length_singleton]
          omega
        distinct := nodup_map_append_singleton.mpr ⟨artifacts.distinct, hfresh⟩
        total_eq := by
          rw [Count.checkedAdd_eq_some.mp htotal, artifacts.total_eq]
          simp }

def tryNew (values : List (ArtifactRef E)) : Except ToolArtifactsError (ToolArtifacts E) :=
  values.foldlM push empty

def toJson (artifacts : ToolArtifacts E) : Json := .arr (artifacts.values.map ArtifactRef.toJson)

end ToolArtifacts

/-! ## Results -/

/-- Which attempt of which invocation an outcome belongs to: `ToolResultProvenance` and
`ToolErrorProvenance` alike. -/
structure ToolProvenance where
  invocationId : InvocationId
  attemptId : AttemptId
  tool : CapabilityIdentity

def ToolProvenance.toJson (provenance : ToolProvenance) : Json :=
  .obj [("invocation_id", provenance.invocationId.toJson),
    ("attempt_id", provenance.attemptId.toJson), ("tool", provenance.tool.toJson)]

structure ToolResult (E : Encoding) where
  provenance : ToolProvenance
  outputSchema : SchemaReference
  output : BoundedJson
  artifacts : ToolArtifacts E

def ToolResult.toJson {E : Encoding} (result : ToolResult E) : Json :=
  .obj [("provenance", result.provenance.toJson), ("output_schema", result.outputSchema.toJson),
    ("output", result.output.value), ("artifacts", result.artifacts.toJson)]

/-! ## Errors -/

inductive ToolErrorPhase where
  | preparation | execution | result

def ToolErrorPhase.text : ToolErrorPhase → String
  | .preparation => "preparation"
  | .execution => "execution"
  | .result => "result"

/-- What a failed attempt is known to have done to the world. -/
inductive ToolExternalEffect where
  | notApplicable | notStarted | notApplied | applied | unknown
deriving DecidableEq

def ToolExternalEffect.text : ToolExternalEffect → String
  | .notApplicable => "not_applicable"
  | .notStarted => "not_started"
  | .notApplied => "not_applied"
  | .applied => "applied"
  | .unknown => "unknown"

theorem ToolExternalEffect.text_injective : Function.Injective text := by
  intro a b h
  cases a <;> cases b <;> first | rfl | (revert h; decide)

/-- A provider's handle for looking up an ambiguous outcome. -/
structure ToolRecoveryHandle where
  namespaceId : Ident .failureOrigin
  binding : Digest
  opaqueId : String

def ToolRecoveryHandle.toJson (handle : ToolRecoveryHandle) : Json :=
  .obj [("namespace", handle.namespaceId.toJson), ("binding", handle.binding.toJson),
    ("opaque_id", .str handle.opaqueId)]

inductive ToolErrorBuildError where
  | unknownEffectRequiresAmbiguousFailure
  | ambiguousFailureRequiresUnknownEffect
  | phaseEffectMismatch (phase : ToolErrorPhase) (effect : ToolExternalEffect)

/-- The effects that an error of a phase can report. -/
def phaseEffectValid : ToolErrorPhase → ToolExternalEffect → Bool
  | .preparation, effect => effect = .notApplicable || effect = .notStarted
  | .execution, _ => true
  | .result, effect => effect = .notApplicable || effect = .applied || effect = .unknown

def validateToolErrorShape (failure : Failure) (phase : ToolErrorPhase)
    (externalEffect : ToolExternalEffect) : Except ToolErrorBuildError Unit := do
  let ambiguous := failure.category = .ambiguousExternalOutcome
  reject (externalEffect = .unknown ∧ ¬ ambiguous) .unknownEffectRequiresAmbiguousFailure
  reject (ambiguous ∧ externalEffect ≠ .unknown) .ambiguousFailureRequiresUnknownEffect
  reject (!phaseEffectValid phase externalEffect) (.phaseEffectMismatch phase externalEffect)

structure ToolError where
  failure : Failure
  phase : ToolErrorPhase
  externalEffect : ToolExternalEffect
  provenance : ToolProvenance
  recoveryHandle : Option ToolRecoveryHandle
  shape_ok : validateToolErrorShape failure phase externalEffect = .ok ()
  handle_ok : recoveryHandle.isSome → externalEffect = .unknown

namespace ToolError

def new (failure : Failure) (phase : ToolErrorPhase) (externalEffect : ToolExternalEffect)
    (provenance : ToolProvenance) : Except ToolErrorBuildError ToolError :=
  attach (validateToolErrorShape failure phase externalEffect) fun _ h =>
    .ok ⟨failure, phase, externalEffect, provenance, none, h, by simp⟩

def toJson (error : ToolError) : Json :=
  .obj ([("failure", error.failure.toJson), ("phase", .str error.phase.text),
    ("external_effect", .str error.externalEffect.text),
    ("provenance", error.provenance.toJson)] ++
    Json.optionalMember "recovery_handle" ToolRecoveryHandle.toJson error.recoveryHandle)

end ToolError

end StateKnot
