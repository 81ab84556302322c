import StateKnot.Agent.Descriptor
import StateKnot.Journal.Event
import StateKnot.Run.Result

/-!
# Agent admission

An agent is admitted to run under an authority: the principal it acts for, the
scopes that principal was granted, and layers of limits whose most restrictive
combination is its budget.  An admission intent carries what its constructor
checked, so an agent without its scopes or with a budget of its own making cannot
be admitted.
-/

namespace StateKnot

open Lib

variable {E : Encoding}

/-! ## Interoperable canonical bytes -/

inductive CanonicalBytesError where
  | integritySerialization
  | nonInteroperableNumber

/-- `canonical_bytes`: integers outside the interoperable range are refused. -/
def Encoding.canonicalBytes (E : Encoding) (value : Json) :
    Except CanonicalBytesError (List UInt8) := do
  reject (!CanonicalJson.ijsonNumbers value) .nonInteroperableNumber
  okOr (E.toVec value) .integritySerialization

def maxSnapshotBytes : Nat := 16777216

/-! ## Requests and provenance -/

inductive AgentRequestValidationError where
  | schemaMismatch (expected actual : SchemaReference)
  | inputLimitExceeded (maximum actual : Count)

structure AgentRequest where
  inputSchema : SchemaReference
  input : BoundedJson
  budgetLimits : BudgetLimits

namespace AgentRequest

def validateSchemaFor (request : AgentRequest) (descriptor : AgentDescriptor) :
    Except AgentRequestValidationError Unit :=
  reject (request.inputSchema ≠ descriptor.inputSchema)
    (.schemaMismatch descriptor.inputSchema request.inputSchema)

def validateWithResolvedBudget (request : AgentRequest) (descriptor : AgentDescriptor)
    (budget : ResolvedBudget) : Except AgentRequestValidationError Unit := do
  request.validateSchemaFor descriptor
  let actual := Count.ofUsize request.input.stats.compactBytes
  reject (actual > budget.counts .inputBytes)
    (.inputLimitExceeded (budget.counts .inputBytes) actual)

def toJson (E : Encoding) (request : AgentRequest) : Json :=
  .obj [("input_schema", request.inputSchema.toJson), ("input", request.input.value),
    ("budget_limits", request.budgetLimits.toJson E)]

end AgentRequest

inductive AgentResultProvenanceError where
  | agentIdentityMismatch (expected actual : CapabilityIdentity)

namespace AgentResultProvenance

def validateFor (provenance : AgentResultProvenance) (descriptor : AgentDescriptor) :
    Except AgentResultProvenanceError Unit :=
  reject (provenance.agent ≠ descriptor.identity)
    (.agentIdentityMismatch descriptor.identity provenance.agent)

def toJson (provenance : AgentResultProvenance) : Json :=
  .obj [("tenant_id", provenance.tenantId.toJson), ("run_id", provenance.runId.toJson),
    ("thread_id", provenance.threadId.toJson), ("invocation_id", provenance.invocationId.toJson),
    ("agent", provenance.agent.toJson)]

end AgentResultProvenance

/-! ## Budget layers -/

/-- The numbers of a version; versions are ordered by them, not by their text. -/
def Version.components (version : Version) : List Nat :=
  (version.text.toList.splitOn '.').map
    (fun digits => digits.foldl (fun value digit => 10 * value + (digit.toNat - 48)) 0)

/-- Capability identities are ordered by owner, name and version. -/
def CapabilityIdentity.key (identity : CapabilityIdentity) :
    Ident .issuer ×ₗ Ident .subject ×ₗ Ident .capabilityName ×ₗ List Nat ×ₗ Version :=
  toLex (identity.issuer, toLex (identity.subject, toLex (identity.name,
    toLex (identity.version.components, identity.version))))

theorem CapabilityIdentity.key_injective : Function.Injective CapabilityIdentity.key := by
  intro a b h
  simp only [key, EmbeddingLike.apply_eq_iff_eq, Prod.mk.injEq] at h
  obtain ⟨hissuer, hsubject, hname, _, hversion⟩ := h
  cases a
  cases b
  cases hissuer
  cases hsubject
  cases hname
  cases hversion
  rfl

inductive AgentAdmissionBudgetLayerError where
  | emptyLimits

/-- Limits that a policy decision imposes. -/
structure AgentAdmissionBudgetLayer where
  source : CapabilityIdentity
  decisionDigest : Digest
  limits : BudgetLimits
  limits_nonempty : limits.isEmpty = false

namespace AgentAdmissionBudgetLayer

def new (source : CapabilityIdentity) (decisionDigest : Digest) (limits : BudgetLimits) :
    Except AgentAdmissionBudgetLayerError AgentAdmissionBudgetLayer :=
  if h : limits.isEmpty = false then .ok ⟨source, decisionDigest, limits, h⟩
  else .error .emptyLimits

def key (layer : AgentAdmissionBudgetLayer) :
    Ident .issuer ×ₗ Ident .subject ×ₗ Ident .capabilityName ×ₗ List Nat ×ₗ Version :=
  layer.source.key

def toJson (E : Encoding) (layer : AgentAdmissionBudgetLayer) : Json :=
  .obj [("source", layer.source.toJson), ("decision_digest", layer.decisionDigest.toJson),
    ("limits", layer.limits.toJson E)]

end AgentAdmissionBudgetLayer

/-! ## Authority -/

inductive AgentAdmissionAuthorityError where
  | wrongEvidenceKind

def AgentAdmissionAuthority.evidenceKind : String := "agent-admission-granted"

/-- Who granted what, with the evidence of the decision. -/
structure AgentAdmissionAuthority (E : Encoding) where
  principal : PrincipalIdentity
  grantedScopes : ScopeSet
  policy : CapabilityIdentity
  policyDigest : Digest
  evidence : JournalPayload E
  evidence_kind : evidence.kind.text = AgentAdmissionAuthority.evidenceKind

namespace AgentAdmissionAuthority

def new (principal : PrincipalIdentity) (grantedScopes : ScopeSet) (policy : CapabilityIdentity)
    (policyDigest : Digest) (evidence : JournalPayload E) :
    Except AgentAdmissionAuthorityError (AgentAdmissionAuthority E) :=
  if h : evidence.kind.text = evidenceKind then
    .ok ⟨principal, grantedScopes, policy, policyDigest, evidence, h⟩
  else .error .wrongEvidenceKind

def toJson (authority : AgentAdmissionAuthority E) : Json :=
  .obj [("principal", authority.principal.toJson),
    ("granted_scopes", authority.grantedScopes.toJson), ("policy", authority.policy.toJson),
    ("policy_digest", authority.policyDigest.toJson),
    ("evidence", payloadEnvelope authority.evidence.schema authority.evidence.kind
      authority.evidence.data)]

end AgentAdmissionAuthority

/-! ## Admission intents -/

inductive AgentAdmissionIntentError where
  | retiredAgent
  | provenance (source : AgentResultProvenanceError)
  | insufficientGrantedScopes
  | duplicateBudgetLayerSource (policySource : CapabilityIdentity)
  | tooManyBudgetLayers (maximum actual : Nat)
  | budgetResolution (source : BudgetResolutionError)
  | request (source : AgentRequestValidationError)
  | resolvedBudgetMismatch
  | intentDigestMismatch
  | integrity (source : CanonicalBytesError)
  | snapshotTooLarge (maximum actual : Nat)

/-- What an admission binds, before its digest. -/
structure AdmissionTerms (E : Encoding) where
  provenance : AgentResultProvenance
  descriptor : AgentDescriptor
  request : AgentRequest
  budgetLayers : List AgentAdmissionBudgetLayer
  graph : GraphReference
  authority : AgentAdmissionAuthority E

namespace AdmissionTerms

/-- The limits published with the agent and those of the request, where they bound
anything. -/
def builtInLimits (terms : AdmissionTerms E) : List BudgetLimits :=
  [terms.descriptor.budgetLimits, terms.request.budgetLimits].filter (fun limits => !limits.isEmpty)

/-- Every layer that the budget is resolved from. -/
def layers (terms : AdmissionTerms E) : List BudgetLimits :=
  terms.budgetLayers.map (·.limits) ++ terms.builtInLimits

/-- One turn of the loop over the layers of `build`. -/
def acceptLayer (maximumBaseLayers : Nat) (ordered : List AgentAdmissionBudgetLayer)
    (layer : AgentAdmissionBudgetLayer) : Except AgentAdmissionIntentError Unit := do
  reject (ordered.length = maximumBaseLayers)
    (.tooManyBudgetLayers maxBudgetLayers (maxBudgetLayers + 1))
  reject (layer.source ∈ ordered.map (·.source)) (.duplicateBudgetLayerSource layer.source)

/-- The checks of `build` that precede its loop. -/
def validateAgent (terms : AdmissionTerms E) : Except AgentAdmissionIntentError Unit := do
  reject (terms.descriptor.lifecycle.state = .retired) .retiredAgent
  (terms.provenance.validateFor terms.descriptor).mapError .provenance
  reject (!terms.descriptor.requiredScopes.isSubset terms.authority.grantedScopes)
    .insufficientGrantedScopes

/-- The layers ordered by their source, each source once. -/
def orderLayers (terms : AdmissionTerms E) :
    Except AgentAdmissionIntentError (List AgentAdmissionBudgetLayer) := do
  let ordered ← collect (acceptLayer (maxBudgetLayers - terms.builtInLimits.length)) []
    terms.budgetLayers
  return sortByKey AgentAdmissionBudgetLayer.key ordered

def members (terms : AdmissionTerms E) (budget : ResolvedBudget) : List (String × Json) :=
  [("provenance", terms.provenance.toJson), ("descriptor", terms.descriptor.wire),
    ("request", terms.request.toJson E),
    ("budget_layers", .arr (terms.budgetLayers.map (·.toJson E))),
    ("budget", budget.toJson E), ("graph", terms.graph.toJson),
    ("authority", terms.authority.toJson)]

def computeDigest (terms : AdmissionTerms E) (budget : ResolvedBudget) :
    Except AgentAdmissionIntentError Digest := do
  let canonical ← (E.canonicalBytes (.obj (terms.members budget))).mapError .integrity
  return E.sha256 (domainBytes "stateknot.agent-admission-intent.v1" ++ canonical)

/-- The serialized intent. -/
def intentJson (terms : AdmissionTerms E) (budget : ResolvedBudget) (intentDigest : Digest) :
    Json :=
  .obj (terms.members budget ++ [("intent_digest", intentDigest.toJson)])

def ensureSize (terms : AdmissionTerms E) (budget : ResolvedBudget) (intentDigest : Digest) :
    Except AgentAdmissionIntentError Unit := do
  let bytes ← (E.canonicalBytes (terms.intentJson budget intentDigest)).mapError .integrity
  reject (bytes.length > maxSnapshotBytes) (.snapshotTooLarge maxSnapshotBytes bytes.length)

end AdmissionTerms

/-- Terms with the budget their layers resolve to and the digest that binds them. -/
structure AgentAdmissionIntent (E : Encoding) extends AdmissionTerms E where
  budget : ResolvedBudget
  intentDigest : Digest
  agent_ok : toAdmissionTerms.validateAgent = .ok ()
  layers_sorted : StrictlySorted AgentAdmissionBudgetLayer.key budgetLayers
  budget_eq : ResolvedBudget.resolve toAdmissionTerms.layers = .ok budget
  request_ok : request.validateWithResolvedBudget descriptor budget = .ok ()
  digest_eq : toAdmissionTerms.computeDigest budget = .ok intentDigest
  size_ok : toAdmissionTerms.ensureSize budget intentDigest = .ok ()

namespace AgentAdmissionIntent

theorem acceptLayer_eq_ok {max : Nat} {ordered : List AgentAdmissionBudgetLayer}
    {layer : AgentAdmissionBudgetLayer} {u : Unit} :
    AdmissionTerms.acceptLayer max ordered layer = .ok u ↔
      ordered.length ≠ max ∧ layer.key ∉ ordered.map AgentAdmissionBudgetLayer.key := by
  have hmem : layer.key ∈ ordered.map AgentAdmissionBudgetLayer.key ↔
      layer.source ∈ ordered.map (·.source) := by
    rw [show ordered.map AgentAdmissionBudgetLayer.key =
      (ordered.map (·.source)).map CapabilityIdentity.key by rw [List.map_map]; rfl]
    exact List.mem_map_of_injective CapabilityIdentity.key_injective
  simp only [AdmissionTerms.acceptLayer, bind_eq_ok, reject_eq_ok, exists_const, hmem, ne_eq]

theorem orderLayers_sorted {terms : AdmissionTerms E} {ordered : List AgentAdmissionBudgetLayer}
    (h : terms.orderLayers = .ok ordered) :
    StrictlySorted AgentAdmissionBudgetLayer.key ordered := by
  simp only [AdmissionTerms.orderLayers, bind_eq_ok, pure_eq_ok] at h
  obtain ⟨collected, hcollect, rfl⟩ := h
  obtain ⟨rfl, _, hnodup⟩ := (collect_eq_ok acceptLayer_eq_ok).mp hcollect
  exact strictlySorted_sortByKey hnodup

/-- `build`; a supplied budget or digest must be the computed one. -/
def build (terms : AdmissionTerms E) (suppliedBudget : Option ResolvedBudget)
    (suppliedIntentDigest : Option Digest) :
    Except AgentAdmissionIntentError (AgentAdmissionIntent E) :=
  attach terms.validateAgent fun _ hagent =>
  attach terms.orderLayers fun ordered hordered =>
  attach ((ResolvedBudget.resolve { terms with budgetLayers := ordered }.layers).mapError
    .budgetResolution) fun budget hbudget =>
  if suppliedBudget.any (· ≠ budget) then .error .resolvedBudgetMismatch
  else
  attach ((terms.request.validateWithResolvedBudget terms.descriptor budget).mapError .request)
    fun _ hrequest =>
  attach ({ terms with budgetLayers := ordered }.computeDigest budget) fun intentDigest hdigest =>
  if suppliedIntentDigest.any (· ≠ intentDigest) then .error .intentDigestMismatch
  else
  attach ({ terms with budgetLayers := ordered }.ensureSize budget intentDigest) fun _ hsize =>
    .ok {
      toAdmissionTerms := { terms with budgetLayers := ordered }
      budget := budget
      intentDigest := intentDigest
      agent_ok := hagent
      layers_sorted := orderLayers_sorted hordered
      budget_eq := mapError_eq_ok.mp hbudget
      request_ok := mapError_eq_ok.mp hrequest
      digest_eq := hdigest
      size_ok := hsize }

def new (terms : AdmissionTerms E) : Except AgentAdmissionIntentError (AgentAdmissionIntent E) :=
  build terms none none

def toJson (intent : AgentAdmissionIntent E) : Json :=
  intent.intentJson intent.budget intent.intentDigest

theorem requiredScopes_subset (intent : AgentAdmissionIntent E) :
    intent.descriptor.requiredScopes.values ⊆ intent.authority.grantedScopes.values := by
  have h := intent.agent_ok
  simp only [AdmissionTerms.validateAgent, bind_eq_ok, reject_eq_ok, mapError_eq_ok,
    Bool.not_eq_true', Bool.not_eq_false] at h
  obtain ⟨_, _, _, _, hscopes⟩ := h
  exact ScopeSet.isSubset_iff.mp hscopes

theorem budget_respects (intent : AgentAdmissionIntent E) {layer : BudgetLimits}
    (h : layer ∈ intent.layers) : intent.budget.Respects layer :=
  ResolvedBudget.respects_of_resolve intent.budget_eq layer h

end AgentAdmissionIntent

/-! ## Admissions -/

inductive AgentAdmissionError where
  | budgetEvaluation (source : BudgetEvaluationError)
  | integrity (source : CanonicalBytesError)
  | snapshotTooLarge (maximum actual : Nat)

namespace AgentAdmission

def computeDigest (E : Encoding) (intentDigest : Digest) (admittedAt : Timestamp) :
    Except AgentAdmissionError Digest := do
  let canonical ← (E.canonicalBytes (.obj [("intent_digest", intentDigest.toJson),
    ("admitted_at", E.timestampJson admittedAt)])).mapError .integrity
  return E.sha256 (domainBytes "stateknot.agent-admission.v1" ++ canonical)

def admissionJson (intent : AgentAdmissionIntent E) (admittedAt : Timestamp) (digest : Digest) :
    Json :=
  .obj [("intent", intent.toJson), ("admitted_at", E.timestampJson admittedAt),
    ("digest", digest.toJson)]

def ensureSize (intent : AgentAdmissionIntent E) (admittedAt : Timestamp) (digest : Digest) :
    Except AgentAdmissionError Unit := do
  let bytes ← (E.canonicalBytes (admissionJson intent admittedAt digest)).mapError .integrity
  reject (bytes.length > maxSnapshotBytes) (.snapshotTooLarge maxSnapshotBytes bytes.length)

end AgentAdmission

/-- An intent bound to the instant at which it was admitted. -/
structure AgentAdmission (E : Encoding) where
  intent : AgentAdmissionIntent E
  admittedAt : Timestamp
  digest : Digest
  budget_open : ∃ rest, intent.budget.remaining .zero admittedAt = .ok rest
  digest_eq : AgentAdmission.computeDigest E intent.intentDigest admittedAt = .ok digest
  size_ok : AgentAdmission.ensureSize intent admittedAt digest = .ok ()

namespace AgentAdmission

def commit (intent : AgentAdmissionIntent E) (admittedAt : Timestamp) :
    Except AgentAdmissionError (AgentAdmission E) :=
  attach ((intent.budget.remaining .zero admittedAt).mapError .budgetEvaluation)
    fun rest hopen =>
  attach (computeDigest E intent.intentDigest admittedAt) fun digest hdigest =>
  attach (ensureSize intent admittedAt digest) fun _ hsize =>
    .ok ⟨intent, admittedAt, digest, ⟨rest, mapError_eq_ok.mp hopen⟩, hdigest, hsize⟩

theorem commit_eq_ok {intent : AgentAdmissionIntent E} {admittedAt : Timestamp}
    {admission : AgentAdmission E} (h : commit intent admittedAt = .ok admission) :
    admission.intent = intent ∧ admission.admittedAt = admittedAt := by
  simp only [commit, attach_eq_ok] at h
  obtain ⟨_, _, _, _, _, _, h⟩ := h
  cases h
  exact ⟨rfl, rfl⟩

end AgentAdmission

end StateKnot
