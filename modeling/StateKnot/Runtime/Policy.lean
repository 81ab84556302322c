import StateKnot.Agent.Admission
import StateKnot.Lib.UniqueMatch

/-!
# The resource policy of the agent service

A policy document lists who may submit to which agent and who may read or cancel which
runs.  An artifact is a document that passed its checks, with a checksum for every rule.
The service installs an artifact under a lease and answers every request from the
artifact that is installed, as long as it has not expired.

The lock around the snapshot is not modelled: its holders do not panic.
-/

namespace StateKnot

open Lib

structure PolicyError where
deriving DecidableEq

/-! ## Documents -/

structure SubmissionRule where
  tenant : TenantId
  principal : PrincipalIdentity
  agent : CapabilityIdentity
  inputSchema : SchemaReference
  grantedScopes : ScopeSet
  budgetLimits : BudgetLimits
deriving DecidableEq

inductive RunPermission where
  | read
  | cancel
deriving DecidableEq

inductive RunAccessTarget where
  | run (id : RunId)
  | submission (digest : Digest)
  | tenantRuns
deriving DecidableEq

structure RunRule where
  tenant : TenantId
  principal : PrincipalIdentity
  operation : RunPermission
  target : RunAccessTarget
deriving DecidableEq

structure PolicyDocument where
  formatVersion : Nat
  policy : CapabilityIdentity
  validUntil : Timestamp
  submissions : List SubmissionRule
  runs : List RunRule
deriving DecidableEq

namespace SubmissionRule

/-- The rules select the same submissions. -/
def sameSelector (old rule : SubmissionRule) : Bool :=
  old.tenant = rule.tenant && old.principal = rule.principal && old.agent = rule.agent &&
    old.inputSchema = rule.inputSchema

def toJson (E : Encoding) (rule : SubmissionRule) : Json :=
  .obj [("tenant", rule.tenant.toJson), ("principal", rule.principal.toJson),
    ("agent", rule.agent.toJson), ("input_schema", rule.inputSchema.toJson),
    ("granted_scopes", rule.grantedScopes.toJson), ("budget_limits", rule.budgetLimits.toJson E)]

end SubmissionRule

def RunPermission.toJson : RunPermission → Json
  | .read => .str "read"
  | .cancel => .str "cancel"

namespace RunAccessTarget

def isSubmission : RunAccessTarget → Bool
  | .submission _ => true
  | _ => false

def toJson : RunAccessTarget → Json
  | .run id => .obj [("kind", .str "run"), ("value", id.toJson)]
  | .submission digest => .obj [("kind", .str "submission"), ("value", digest.toJson)]
  | .tenantRuns => .obj [("kind", .str "tenant_runs")]

end RunAccessTarget

namespace RunRule

/-- Some request is selected by both rules. -/
def overlaps (old rule : RunRule) : Bool :=
  old.tenant = rule.tenant && old.principal = rule.principal && old.operation = rule.operation &&
    (old.target = rule.target || old.target = .tenantRuns || rule.target = .tenantRuns)

def toJson (rule : RunRule) : Json :=
  .obj [("tenant", rule.tenant.toJson), ("principal", rule.principal.toJson),
    ("operation", rule.operation.toJson), ("target", rule.target.toJson)]

end RunRule

/-- The checksum of a serialized value under a domain. -/
def checksum (E : Encoding) (domain : String) (value : Json) : Except PolicyError Digest :=
  okOr (E.domainSeparatedDigest (domainBytes domain) value) ⟨⟩

namespace PolicyDocument

def maxRules : Nat := 1024

def toJson (E : Encoding) (document : PolicyDocument) : Json :=
  .obj [("format_version", .num (.int document.formatVersion)),
    ("policy", document.policy.toJson), ("valid_until", E.timestampJson document.validUntil),
    ("submissions", .arr (document.submissions.map (·.toJson E))),
    ("runs", .arr (document.runs.map RunRule.toJson))]

/-- One turn of the loop over the submission rules, at the index of the rule. -/
def checkSubmission (document : PolicyDocument) (entry : SubmissionRule × Nat) :
    Except PolicyError Unit :=
  reject (entry.1.budgetLimits.isEmpty ∨
    (document.submissions.take entry.2).any (·.sameSelector entry.1)) ⟨⟩

/-- One turn of the loop over the run rules.  The service has no cancellation by key. -/
def checkRun (document : PolicyDocument) (entry : RunRule × Nat) : Except PolicyError Unit := do
  reject ((document.runs.take entry.2).any (·.overlaps entry.1)) ⟨⟩
  reject (entry.1.operation = .cancel ∧ entry.1.target.isSubmission) ⟨⟩

/-- The checks of `PolicyArtifact::new`, which precede every checksum. -/
def validate (E : Encoding) (document : PolicyDocument) : Except PolicyError Unit := do
  reject (document.formatVersion ≠ 1 ∨
    document.submissions.length + document.runs.length > maxRules) ⟨⟩
  let _ ← (BoundedJson.tryFromValueWithLimits (document.toJson E) .default).mapError fun _ => ⟨⟩
  forM document.submissions.zipIdx document.checkSubmission
  forM document.runs.zipIdx document.checkRun

end PolicyDocument

/-- The checksum of a rule under the identity of its policy. -/
def SubmissionRule.checksum (E : Encoding) (policy : CapabilityIdentity) (rule : SubmissionRule) :
    Except PolicyError Digest :=
  StateKnot.checksum E "stateknot.agent-policy-submission-rule.v1"
    (.arr [policy.toJson, rule.toJson E])

@[inherit_doc SubmissionRule.checksum]
def RunRule.checksum (E : Encoding) (policy : CapabilityIdentity) (rule : RunRule) :
    Except PolicyError Digest :=
  StateKnot.checksum E "stateknot.agent-policy-run-rule.v1" (.arr [policy.toJson, rule.toJson])

/-! ## Artifacts -/

/-- A document that passed its checks, with its canonical bytes and the checksums of its
rules, in their order. -/
structure PolicyArtifact (E : Encoding) where
  document : PolicyDocument
  canonical : List UInt8
  digest : Digest
  submissions : List Digest
  runs : List Digest
  validated : document.validate E = .ok ()
  canonical_eq : E.toVec (document.toJson E) = some canonical
  digest_eq : E.sha256 canonical = digest
  submissions_eq : document.submissions.mapM (·.checksum E document.policy) = .ok submissions
  runs_eq : document.runs.mapM (·.checksum E document.policy) = .ok runs
deriving DecidableEq

def PolicyArtifact.new (E : Encoding) (document : PolicyDocument) :
    Except PolicyError (PolicyArtifact E) :=
  attach (document.validate E) fun _ hvalid =>
  attach (okOr (E.toVec (document.toJson E)) ⟨⟩) fun canonical hcanonical =>
  attach (document.submissions.mapM (·.checksum E document.policy)) fun submissions hsubmissions =>
  attach (document.runs.mapM (·.checksum E document.policy)) fun runs hruns =>
    .ok ⟨document, canonical, E.sha256 canonical, submissions, runs, hvalid,
      okOr_eq_ok.mp hcanonical, rfl, hsubmissions, hruns⟩

/-! ## Requests and grants -/

structure AgentServiceCaller where
  tenantId : TenantId
  principal : PrincipalIdentity

structure AgentServiceSubmissionAuthorization where
  caller : AgentServiceCaller
  agent : CapabilityIdentity
  request : AgentRequest

inductive AgentServiceRunTarget where
  | run (id : RunId)
  | submission (digest : Digest)

inductive AgentServiceRunOperation where
  | read
  | cancel

structure AgentServiceRunAuthorization where
  caller : AgentServiceCaller
  target : AgentServiceRunTarget
  operation : AgentServiceRunOperation

structure AgentServiceSubmissionGrant (E : Encoding) where
  authority : AgentAdmissionAuthority E
  budgetLayers : List AgentAdmissionBudgetLayer

structure AgentServiceRunGrant where
  principal : PrincipalIdentity
  policy : CapabilityIdentity
  policyDigest : Digest
  decisionDigest : Digest

inductive AgentServiceAuthorizationError where
  | unauthenticated
  | denied
  | unavailable
  | invalidEvidence

namespace AgentServiceRunAuthorization

/-- The permission that the operation needs. -/
def permission (context : AgentServiceRunAuthorization) : RunPermission :=
  match context.operation with
  | .read => .read
  | .cancel => .cancel

def accessTarget (context : AgentServiceRunAuthorization) : RunAccessTarget :=
  match context.target with
  | .run id => .run id
  | .submission digest => .submission digest

end AgentServiceRunAuthorization

/-- The rule admits the submission. -/
def SubmissionRule.selects (context : AgentServiceSubmissionAuthorization)
    (rule : SubmissionRule) : Bool :=
  rule.tenant = context.caller.tenantId && rule.principal = context.caller.principal &&
    rule.agent = context.agent && rule.inputSchema = context.request.inputSchema

/-- The rule permits the operation on the target. -/
def RunRule.selects (context : AgentServiceRunAuthorization) (rule : RunRule) : Bool :=
  rule.tenant = context.caller.tenantId && rule.principal = context.caller.principal &&
    rule.operation = context.permission &&
    (rule.target = context.accessTarget || rule.target = .tenantRuns)

/-! ## Evidence -/

/-- The released evidence schema. -/
def agentPolicyEvidenceDocument : Json :=
  let digestSchema : Json := .obj [("type", .str "string"), ("minLength", .num (.int 71)),
    ("maxLength", .num (.int 71)), ("pattern", .str "^sha256:[a-f0-9]\x7b64\x7d$")]
  .obj [("$schema", .str "https://json-schema.org/draft/2020-12/schema"),
    ("$id", .str "https://stknot.com/schemas/runtime/agent-policy-evidence/1.0.0"),
    ("title", .str "StateKnot Agent resource policy admission evidence v1"),
    ("type", .str "object"),
    ("required", .arr [.str "operation", .str "policy_digest", .str "request_digest"]),
    ("properties", .obj [("operation", .obj [("const", .str "submission_granted")]),
      ("policy_digest", digestSchema), ("request_digest", digestSchema)]),
    ("additionalProperties", .bool false)]

/-- The reference to the released evidence schema, with the checksum of its document. -/
def agentPolicyEvidenceSchema (E : Encoding) : Except PolicyError SchemaReference := do
  let canonical ← okOr (E.toVec agentPolicyEvidenceDocument) ⟨⟩
  return ⟨⟨"https://stknot.com/schemas/runtime/agent-policy-evidence/1.0.0"⟩, ⟨"1.0.0"⟩,
    E.sha256 canonical⟩

/-- What the evidence of a granted submission says. -/
def submissionEvidence (policyDigest requestDigest : Digest) : Json :=
  .obj [("operation", .str "submission_granted"), ("policy_digest", policyDigest.toJson),
    ("request_digest", requestDigest.toJson)]

/-! ## The installed policy -/

/-- One reading of the host's clocks, in nanoseconds: the monotonic clock and the time since
the Unix epoch. -/
structure HostClock where
  instant : Nat
  systemTime : Int

def HostClock.nowMicros (clock : HostClock) : Except PolicyError Int := do
  reject (clock.systemTime < 0) ⟨⟩
  let micros := clock.systemTime / 1000
  reject (micros > 9223372036854775807) ⟨⟩
  return micros

/-- The snapshot that an `AgentResourcePolicy` holds. -/
structure AgentResourcePolicy (E : Encoding) where
  artifact : PolicyArtifact E
  expires : Nat
  generation : Nat

namespace AgentResourcePolicy

variable {E : Encoding}

def maxLease : Nat := 3600 * 1000000000

/-- A snapshot expires with its lease or with its document, whichever is earlier. -/
def snapshot (clock : HostClock) (artifact : PolicyArtifact E) (lease generation : Nat) :
    Except PolicyError (AgentResourcePolicy E) := do
  reject (lease = 0 ∨ lease > maxLease) ⟨⟩
  let now ← clock.nowMicros
  let remaining := artifact.document.validUntil.micros - now
  reject (remaining ≤ 0) ⟨⟩
  let absolute := remaining.toNat * 1000
  return ⟨artifact, clock.instant + min lease absolute, generation⟩

def new (clock : HostClock) (artifact : PolicyArtifact E) (lease : Nat) :
    Except PolicyError (AgentResourcePolicy E) :=
  snapshot clock artifact lease 1

/-- The artifact that requests are answered from, while it is fresh. -/
def current (policy : AgentResourcePolicy E) (clock : HostClock) :
    Except PolicyError (PolicyArtifact E) := do
  reject (clock.instant ≥ policy.expires) ⟨⟩
  let now ← clock.nowMicros
  reject (now ≥ policy.artifact.document.validUntil.micros) ⟨⟩
  return policy.artifact

/-- `submission` from the digest of the selected rule on. -/
def grantSubmission (policy : CapabilityIdentity) (policyDigest : Digest) (rule : SubmissionRule)
    (context : AgentServiceSubmissionAuthorization) :
    Except AgentServiceAuthorizationError (AgentServiceSubmissionGrant E) := do
  let requestDigest ←
    (checksum E "stateknot.agent-policy-request.v1" (context.request.toJson E)).mapError
      fun _ => .invalidEvidence
  let schema ← (agentPolicyEvidenceSchema E).mapError fun _ => .invalidEvidence
  let data ← (BoundedJson.tryFromValueWithLimits (submissionEvidence policyDigest requestDigest)
    .default).mapError fun _ => .invalidEvidence
  let evidence ← (JournalPayload.new schema ⟨AgentAdmissionAuthority.evidenceKind⟩
    data).mapError fun _ => .invalidEvidence
  let budget ← (AgentAdmissionBudgetLayer.new policy evidence.digest
    rule.budgetLimits).mapError fun _ => .invalidEvidence
  let authority ← (AgentAdmissionAuthority.new rule.principal rule.grantedScopes policy
    policyDigest evidence).mapError fun _ => .invalidEvidence
  return ⟨authority, [budget]⟩

/-- The source indexes the checksums of the artifact with the position of the rule; there is
one for every rule. -/
def submission (policy : AgentResourcePolicy E) (clock : HostClock)
    (context : AgentServiceSubmissionAuthorization) :
    Except AgentServiceAuthorizationError (AgentServiceSubmissionGrant E) := do
  let artifact ← (policy.current clock).mapError fun _ => .unavailable
  let (rule, index) ←
    okOr (artifact.document.submissions.zipIdx.find? fun entry => entry.1.selects context) .denied
  let policyDigest ← okOr artifact.submissions[index]? .invalidEvidence
  grantSubmission artifact.document.policy policyDigest rule context

/-- `run` from the digest of the selected rule on. -/
def grantRun (E : Encoding) (policy : CapabilityIdentity) (policyDigest : Digest)
    (context : AgentServiceRunAuthorization) :
    Except AgentServiceAuthorizationError AgentServiceRunGrant := do
  let decision ← (checksum E "stateknot.agent-policy-run-decision.v1"
    (.arr [policyDigest.toJson, context.caller.tenantId.toJson, context.caller.principal.toJson,
      context.permission.toJson, context.accessTarget.toJson])).mapError fun _ => .invalidEvidence
  return ⟨context.caller.principal, policy, policyDigest, decision⟩

def run (policy : AgentResourcePolicy E) (clock : HostClock)
    (context : AgentServiceRunAuthorization) :
    Except AgentServiceAuthorizationError AgentServiceRunGrant := do
  let artifact ← (policy.current clock).mapError fun _ => .unavailable
  let index ← okOr (artifact.document.runs.findIdx? (·.selects context)) .denied
  let policyDigest ← okOr artifact.runs[index]? .invalidEvidence
  grantRun E artifact.document.policy policyDigest context

end AgentResourcePolicy

end StateKnot
