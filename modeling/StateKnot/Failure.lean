import StateKnot.Identity

/-!
# Failures

A durable failure record: what went wrong, where, and whether trying again is
safe.  An ambiguous external outcome is exactly what must be reconciled first.
The private source that a process may attach is not part of a durable record.
-/

namespace StateKnot

open Lib

/-- A whole number of milliseconds in the nonnegative signed 64-bit range. -/
structure DurationMillis where
  millis : Nat
  bounded : millis ≤ maxDatabaseOrdinal

instance : DecidableEq DurationMillis := fun a b =>
  decidable_of_iff (a.millis = b.millis) (by cases a; cases b; simp)

def DurationMillis.toJson (duration : DurationMillis) : Json := .str (Nat.repr duration.millis)

inductive FailureCategory where
  | invalidInput | unauthenticated | permissionDenied | policyDenied | notFound | conflict
  | unsupported | rateLimited | deadlineExceeded | cancelled | dependencyUnavailable
  | dataCorruption | ambiguousExternalOutcome | internal
deriving DecidableEq

def FailureCategory.text : FailureCategory → String
  | .invalidInput => "invalid_input"
  | .unauthenticated => "unauthenticated"
  | .permissionDenied => "permission_denied"
  | .policyDenied => "policy_denied"
  | .notFound => "not_found"
  | .conflict => "conflict"
  | .unsupported => "unsupported"
  | .rateLimited => "rate_limited"
  | .deadlineExceeded => "deadline_exceeded"
  | .cancelled => "cancelled"
  | .dependencyUnavailable => "dependency_unavailable"
  | .dataCorruption => "data_corruption"
  | .ambiguousExternalOutcome => "ambiguous_external_outcome"
  | .internal => "internal"

/-- Whether and when the failed work may be tried again. -/
inductive RetryAdvice where
  | never
  | safeAfter (delay : DurationMillis)
  | reconcileFirst
deriving DecidableEq

namespace RetryAdvice

def requiresReconciliation : RetryAdvice → Bool
  | .reconcileFirst => true
  | .never => false
  | .safeAfter _ => false

def toJson : RetryAdvice → Json
  | .never => .obj [("kind", .str "never")]
  | .safeAfter delay => .obj [("kind", .str "safe_after"), ("delay", delay.toJson)]
  | .reconcileFirst => .obj [("kind", .str "reconcile_first")]

end RetryAdvice

/-- The instant from which a failure at `failedAt` may be retried after `delay`.  The source
computes it in 128-bit integers, which hold every value here. -/
def retryEligibleMicros (failedAt : Timestamp) (delay : DurationMillis) : Int :=
  failedAt.micros + delay.millis * 1000

/-! ## Details -/

/-- The limits of a details value. -/
def failureDetailsJsonLimits : JsonLimits where
  maxBytes := 16 * 1024
  maxDepth := 8
  maxContainerEntries := 64
  maxNodes := 512
  maxStringBytes := 4 * 1024
  maxObjectKeyBytes := 128

/-- Schema-bound details that fit the limits of details. -/
structure FailureDetails where
  schema : SchemaReference
  value : BoundedJson
  within : ∃ tree, BoundedJson.tryFromValueWithLimits tree failureDetailsJsonLimits = .ok value
deriving DecidableEq

namespace FailureDetails

/-- `try_new`: the value is read again under the narrower limits. -/
def tryNew (schema : SchemaReference) (value : BoundedJson) :
    Except BoundedJsonError FailureDetails :=
  attach (BoundedJson.tryFromValueWithLimits value.value failureDetailsJsonLimits)
    fun bounded h => .ok ⟨schema, bounded, ⟨value.value, h⟩⟩

def toJson (details : FailureDetails) : Json :=
  .obj [("schema", details.schema.toJson), ("value", details.value.value)]

end FailureDetails

/-! ## Failures -/

inductive FailureBuildError where
  | ambiguousOutcomeRequiresReconciliation
  | reconciliationRequiresAmbiguousOutcome

def validateFailureRecovery : FailureCategory → RetryAdvice → Except FailureBuildError Unit
  | .ambiguousExternalOutcome, .reconcileFirst => return ()
  | .ambiguousExternalOutcome, _ => .error .ambiguousOutcomeRequiresReconciliation
  | _, .reconcileFirst => .error .reconciliationRequiresAmbiguousOutcome
  | _, _ => return ()

structure Failure where
  id : Ident .failure
  category : FailureCategory
  code : Ident .failureCode
  origin : Ident .failureOrigin
  message : Ident .failureMessage
  retryAdvice : RetryAdvice
  details : Option FailureDetails
  causedByEventId : Option EventId
  recovery_ok : validateFailureRecovery category retryAdvice = .ok ()
deriving DecidableEq

namespace Failure

def new (id : Ident .failure) (category : FailureCategory) (code : Ident .failureCode)
    (origin : Ident .failureOrigin) (message : Ident .failureMessage) (retryAdvice : RetryAdvice) :
    Except FailureBuildError Failure :=
  attach (validateFailureRecovery category retryAdvice) fun _ h =>
    .ok ⟨id, category, code, origin, message, retryAdvice, none, none, h⟩

def toJson (failure : Failure) : Json :=
  .obj ([("id", failure.id.toJson), ("category", .str failure.category.text),
    ("code", failure.code.toJson), ("origin", failure.origin.toJson),
    ("message", failure.message.toJson), ("retry_advice", failure.retryAdvice.toJson)] ++
    Json.optionalMember "details" FailureDetails.toJson failure.details ++
    Json.optionalMember "caused_by_event_id" Ident.toJson failure.causedByEventId)

end Failure

end StateKnot
