import Mathlib.Tactic.SplitIfs
import StateKnot.Journal.ReadBack
import StateKnot.JsonReading
import StateKnot.Lib.Utf8
import StateKnot.Runtime.Policy
import StateKnot.Written

/-!
# Decisions of the resource policy

The service answers a request with the first rule that selects it.  The checks of a
document leave at most one such rule, so the answer is a function of the set of rules
alone, and a grant is a function of the selected rule and the identity of the policy.
`decideSubmission` and `decideRun` say what that function is.

Checksums and evidence never fail where the serializer writes every tree and the hash
has the 32 bytes of SHA-256, which is what `Encoding.Standard` assumes.
-/

namespace StateKnot

open Lib Json

variable {E : Encoding}

/-! ## Accepted documents -/

/-- The serializer writes every tree and the hash has 32 bytes. -/
structure Encoding.Standard (E : Encoding) : Prop where
  toVec_isSome : ∀ tree, (E.toVec tree).isSome
  sha256_length : ∀ bytes, (E.sha256 bytes).bytes.length = 32

theorem Encoding.Standard.exists_checksum (hE : E.Standard) (domain : String)
    (value : Json) : ∃ digest, checksum E domain value = .ok digest := by
  obtain ⟨bytes, hbytes⟩ := Option.isSome_iff_exists.mp (hE.toVec_isSome value)
  refine ⟨E.sha256 (domainBytes domain ++ bytes), ?_⟩
  rw [checksum, Encoding.domainSeparatedDigest, hbytes]
  rfl

theorem Encoding.Standard.checksum_length (hE : E.Standard) {domain : String}
    {value : Json} {digest : Digest} (h : checksum E domain value = .ok digest) :
    digest.bytes.length = 32 := by
  rw [checksum, okOr_eq_ok, Encoding.domainSeparatedDigest] at h
  obtain ⟨bytes, _, rfl⟩ := Option.map_eq_some_iff.mp h
  exact hE.sha256_length _

namespace SubmissionRule

theorem sameSelector_symm (a b : SubmissionRule) : a.sameSelector b = b.sameSelector a := by
  simp only [sameSelector, eq_comm]

theorem sameSelector_of_selects {context : AgentServiceSubmissionAuthorization}
    {a b : SubmissionRule} (ha : a.selects context = true) (hb : b.selects context = true) :
    a.sameSelector b = true := by
  simp only [selects, Bool.and_eq_true, decide_eq_true_eq] at ha hb
  simp only [sameSelector, Bool.and_eq_true, decide_eq_true_eq, ha, hb, and_self]

end SubmissionRule

namespace RunRule

theorem overlaps_symm (a b : RunRule) : a.overlaps b = b.overlaps a := by
  simp only [overlaps, eq_comm, Bool.or_assoc]
  rw [Bool.or_comm (decide (.tenantRuns = a.target))]

/-- The target of a request is no wildcard, so two targets that cover it are equal or one of
them is the wildcard. -/
theorem overlaps_of_selects {context : AgentServiceRunAuthorization} {a b : RunRule}
    (ha : a.selects context = true) (hb : b.selects context = true) : a.overlaps b = true := by
  simp only [selects, Bool.and_eq_true, Bool.or_eq_true, decide_eq_true_eq] at ha hb
  obtain ⟨⟨⟨hatenant, haprincipal⟩, haoperation⟩, hatarget⟩ := ha
  obtain ⟨⟨⟨hbtenant, hbprincipal⟩, hboperation⟩, hbtarget⟩ := hb
  simp only [overlaps, Bool.and_eq_true, Bool.or_eq_true, decide_eq_true_eq]
  refine ⟨⟨⟨hatenant.trans hbtenant.symm, haprincipal.trans hbprincipal.symm⟩,
    haoperation.trans hboperation.symm⟩, ?_⟩
  rcases hatarget with hatarget | hatarget
  · rcases hbtarget with hbtarget | hbtarget
    · exact .inl (.inl (hatarget.trans hbtarget.symm))
    · exact .inr hbtarget
  · exact .inl (.inr hatarget)

end RunRule

namespace PolicyDocument

/-- What the checks of a document establish. -/
structure Admissible (E : Encoding) (document : PolicyDocument) : Prop where
  version : document.formatVersion = 1
  size : document.submissions.length + document.runs.length ≤ maxRules
  fits : (document.toJson E).FitsLimits .default
  budgets : ∀ rule ∈ document.submissions, rule.budgetLimits.isEmpty = false
  submissions_distinct :
    document.submissions.Pairwise fun old rule => ¬ old.sameSelector rule = true
  runs_distinct : document.runs.Pairwise fun old rule => ¬ old.overlaps rule = true
  cancellations : ∀ rule ∈ document.runs,
    ¬(rule.operation = .cancel ∧ rule.target.isSubmission = true)

/-- The documents have the same rules, in some order, and are otherwise equal. -/
structure Reorders (document' document : PolicyDocument) : Prop where
  formatVersion : document'.formatVersion = document.formatVersion
  policy : document'.policy = document.policy
  validUntil : document'.validUntil = document.validUntil
  submissions : document'.submissions.Perm document.submissions
  runs : document'.runs.Perm document.runs

variable {document document' : PolicyDocument}

theorem forM_checkSubmission_eq_ok :
    forM document.submissions.zipIdx document.checkSubmission = .ok () ↔
      (∀ rule ∈ document.submissions, rule.budgetLimits.isEmpty = false) ∧
      document.submissions.Pairwise fun old rule => ¬ old.sameSelector rule = true := by
  rw [forM_eq_ok, pairwise_iff_earlier,
    ← forall_zipIdx_iff (P := fun rule : SubmissionRule => rule.budgetLimits.isEmpty = false),
    ← forall₂_and]
  simp only [checkSubmission, reject_eq_ok, not_or, List.any_eq_true, not_exists, not_and,
    Bool.not_eq_true]

theorem forM_checkRun_eq_ok :
    forM document.runs.zipIdx document.checkRun = .ok () ↔
      (document.runs.Pairwise fun old rule => ¬ old.overlaps rule = true) ∧
      ∀ rule ∈ document.runs, ¬(rule.operation = .cancel ∧ rule.target.isSubmission = true) := by
  rw [forM_eq_ok, pairwise_iff_earlier,
    ← forall_zipIdx_iff (P := fun rule : RunRule => ¬(rule.operation = .cancel ∧
      rule.target.isSubmission = true)), ← forall₂_and]
  simp only [checkRun, bind_eq_ok, reject_eq_ok, exists_const, List.any_eq_true, not_exists,
    not_and]

theorem validate_eq_ok : document.validate E = .ok () ↔ document.Admissible E := by
  unfold validate
  simp only [bind_eq_ok, reject_eq_ok, mapError_eq_ok, exists_const,
    BoundedJson.tryFromValueWithLimits_eq_ok, forM_checkRun_eq_ok]
  constructor
  · rintro ⟨hhead, _, ⟨hfits, _⟩, _, hsubmissions, hruns⟩
    obtain ⟨hbudgets, hdistinct⟩ := forM_checkSubmission_eq_ok.mp hsubmissions
    exact ⟨by omega, by omega, hfits, hbudgets, hdistinct, hruns.1, hruns.2⟩
  · intro h
    have hversion := h.version
    have hsize := h.size
    exact ⟨by omega, _, ⟨h.fits, rfl⟩, (),
      forM_checkSubmission_eq_ok.mpr ⟨h.budgets, h.submissions_distinct⟩,
      h.runs_distinct, h.cancellations⟩

/-! ## Reordered documents -/

theorem fitsLimits_reorder {limits : JsonLimits} (h : document'.Reorders document) :
    (document'.toJson E).FitsLimits limits ↔ (document.toJson E).FitsLimits limits := by
  have hsubmissions := h.submissions.map (SubmissionRule.toJson E)
  have hruns := h.runs.map RunRule.toJson
  have htotals : (document'.toJson E).totals 0 = (document.toJson E).totals 0 := by
    unfold toJson
    rw [h.formatVersion, h.policy, h.validUntil, totals, totals]
    simp only [totalsMembers, totals_arr_perm hsubmissions, totals_arr_perm hruns, List.length_cons]
  have hfits : (document'.toJson E).Fits limits 0 ↔ (document.toJson E).Fits limits 0 := by
    unfold toJson
    rw [h.formatVersion, h.policy, h.validUntil, Json.Fits, Json.Fits]
    simp only [FitsMembers, fits_arr_perm hsubmissions, fits_arr_perm hruns, List.length_cons,
      List.map_cons]
  rw [FitsLimits, FitsLimits, htotals, hfits]

theorem Admissible.reorder (h : document.Admissible E) (hreorder : document'.Reorders document) :
    document'.Admissible E where
  version := hreorder.formatVersion.trans h.version
  size := by
    rw [hreorder.submissions.length_eq, hreorder.runs.length_eq]
    exact h.size
  fits := (fitsLimits_reorder hreorder).mpr h.fits
  budgets rule hrule := h.budgets rule (hreorder.submissions.mem_iff.mp hrule)
  submissions_distinct := by
    apply h.submissions_distinct.perm hreorder.submissions.symm
    intro a b hab
    rwa [SubmissionRule.sameSelector_symm]
  runs_distinct := by
    apply h.runs_distinct.perm hreorder.runs.symm
    intro a b hab
    rwa [RunRule.overlaps_symm]
  cancellations rule hrule := h.cancellations rule (hreorder.runs.mem_iff.mp hrule)

theorem Admissible.submission_once (h : document.Admissible E)
    (context : AgentServiceSubmissionAuthorization) :
    MatchesOnce (·.selects context) document.submissions :=
  h.submissions_distinct.imp fun hdistinct hboth =>
    hdistinct (SubmissionRule.sameSelector_of_selects hboth.1 hboth.2)

theorem Admissible.run_once (h : document.Admissible E) (context : AgentServiceRunAuthorization) :
    MatchesOnce (·.selects context) document.runs :=
  h.runs_distinct.imp fun hdistinct hboth =>
    hdistinct (RunRule.overlaps_of_selects hboth.1 hboth.2)

end PolicyDocument

/-! ## Artifacts -/

namespace PolicyArtifact

variable {document : PolicyDocument} {artifact : PolicyArtifact E}

theorem admissible (artifact : PolicyArtifact E) : artifact.document.Admissible E :=
  PolicyDocument.validate_eq_ok.mp artifact.validated

theorem document_of_new (h : new E document = .ok artifact) : artifact.document = document := by
  simp only [new, attach_eq_ok, Except.ok.injEq] at h
  obtain ⟨_, _, _, _, _, _, _, _, rfl⟩ := h
  rfl

theorem exists_new_iff (hE : E.Standard) :
    (∃ artifact, new E document = .ok artifact) ↔ document.Admissible E := by
  constructor
  · intro ⟨artifact, h⟩
    rw [← document_of_new h]
    exact artifact.admissible
  · intro h
    obtain ⟨canonical, hcanonical⟩ :=
      Option.isSome_iff_exists.mp (hE.toVec_isSome (document.toJson E))
    obtain ⟨submissions, hsubmissions⟩ :=
      exists_forall₂ fun rule (_ : rule ∈ document.submissions) =>
        hE.exists_checksum "stateknot.agent-policy-submission-rule.v1"
          (.arr [document.policy.toJson, rule.toJson E])
    obtain ⟨runs, hruns⟩ := exists_forall₂ fun rule (_ : rule ∈ document.runs) =>
      hE.exists_checksum "stateknot.agent-policy-run-rule.v1"
        (.arr [document.policy.toJson, rule.toJson])
    simp only [new, attach_eq_ok]
    exact ⟨_, (), PolicyDocument.validate_eq_ok.mpr h, canonical, okOr_eq_ok.mpr hcanonical,
      submissions, mapM_eq_ok.mpr hsubmissions, runs, mapM_eq_ok.mpr hruns, rfl⟩

theorem submissions_getElem? (artifact : PolicyArtifact E) {rule : SubmissionRule} {index : Nat}
    (h : artifact.document.submissions[index]? = some rule) :
    ∃ digest, artifact.submissions[index]? = some digest ∧
      rule.checksum E artifact.document.policy = .ok digest :=
  getElem?_of_forall₂ (mapM_eq_ok.mp artifact.submissions_eq) h

@[inherit_doc submissions_getElem?]
theorem runs_getElem? (artifact : PolicyArtifact E) {rule : RunRule} {index : Nat}
    (h : artifact.document.runs[index]? = some rule) :
    ∃ digest, artifact.runs[index]? = some digest ∧
      rule.checksum E artifact.document.policy = .ok digest :=
  getElem?_of_forall₂ (mapM_eq_ok.mp artifact.runs_eq) h

end PolicyArtifact

/-! ## Evidence -/

theorem encodedJsonStringLen_of_plain {text : String}
    (h : ∀ c ∈ text.toList, encodedCharLen c = 1) :
    encodedJsonStringLen text = 2 + text.toList.length := by
  unfold encodedJsonStringLen
  generalize 2 = start
  revert h
  induction text.toList generalizing start with
  | nil => exact fun _ => rfl
  | cons c rest ih =>
    intro h
    obtain ⟨hc, hrest⟩ := List.forall_mem_cons.mp h
    rw [List.foldl_cons, hc, ih _ hrest, List.length_cons]
    omega

/-- The text of a digest has 71 characters of one byte each, and none is escaped. -/
theorem Digest.text_size {digest : Digest} (h : digest.bytes.length = 32) :
    digest.text.utf8ByteSize = 71 ∧ encodedJsonStringLen digest.text = 73 := by
  have htext : digest.text.toList =
      ['s', 'h', 'a', '2', '5', '6', ':'] ++ digest.hex.toList := by
    simp [text]
  have hdigits : ∀ n < 16, (hexDigit n).utf8Size = 1 ∧ encodedCharLen (hexDigit n) = 1 := by
    decide
  have hplain : ∀ c ∈ digest.text.toList, c.utf8Size = 1 ∧ encodedCharLen c = 1 := by
    rw [htext, List.forall_mem_append]
    refine ⟨?_, fun c hc => ?_⟩
    · simp only [List.forall_mem_cons, List.not_mem_nil, false_implies, implies_true]
      decide
    · obtain ⟨n, hn, rfl⟩ := exists_of_mem_hex hc
      exact hdigits n hn
  have hlength : digest.text.toList.length = 71 := by
    rw [htext, List.length_append, length_hex, h]
    rfl
  rw [utf8ByteSize_of_ascii fun c hc => (hplain c hc).1,
    encodedJsonStringLen_of_plain fun c hc => (hplain c hc).2, hlength]
  exact ⟨rfl, rfl⟩

/-- A payload is built of every envelope that fits and has interoperable numbers. -/
theorem JournalPayload.exists_new (hE : E.Standard) {schema : SchemaReference}
    {kind : JournalEventKind} {data : BoundedJson}
    (hfits : (payloadEnvelope schema kind data).FitsLimits .maximum)
    (hnumbers : CanonicalJson.ijsonNumbers (payloadEnvelope schema kind data) = true) :
    ∃ payload : JournalPayload E, new schema kind data = .ok payload := by
  have hread := BoundedJson.tryFromValueWithLimits_eq_ok.mpr ⟨hfits, rfl⟩
  obtain ⟨bytes, hbytes⟩ := Option.isSome_iff_exists.mp
    (hE.toVec_isSome (payloadEnvelope schema kind data).materialized)
  have hcanonical : canonicalPayload E schema kind data = .ok ⟨bytes, E.sha256 bytes⟩ := by
    simp only [canonicalPayload, bind_eq_ok, mapError_eq_ok]
    refine ⟨_, hread, ?_⟩
    simp only [CanonicalJson.new, bind_eq_ok, reject_eq_ok, okOr_eq_ok]
    refine ⟨(), ?_, bytes, hbytes, rfl⟩
    rw [Json.ijsonNumbers_materialized, hnumbers]
    decide
  unfold new
  split
  · rename_i error herror
    cases herror.symm.trans hcanonical
  · exact ⟨_, rfl⟩

section Evidence

variable {policyDigest requestDigest : Digest}

theorem exists_evidence_data (hpolicy : policyDigest.bytes.length = 32)
    (hrequest : requestDigest.bytes.length = 32) :
    ∃ data, BoundedJson.tryFromValueWithLimits (submissionEvidence policyDigest requestDigest)
      .default = .ok data := by
  refine ⟨_, BoundedJson.tryFromValueWithLimits_eq_ok.mpr ⟨⟨?_, ?_⟩, rfl⟩⟩
  · simp only [submissionEvidence, Digest.toJson, Json.Fits, FitsMembers,
      Digest.text_size hpolicy, Digest.text_size hrequest, List.length_cons,
      List.length_nil, List.map_cons, List.map_nil]
    decide +kernel
  · simp only [submissionEvidence, Digest.toJson, totals, totalsMembers,
      Digest.text_size hpolicy, Digest.text_size hrequest, List.length_cons,
      List.length_nil]
    decide +kernel

/-- The envelope of the evidence is well within the limits of a payload. -/
theorem fits_evidenceEnvelope (hpolicy : policyDigest.bytes.length = 32)
    (hrequest : requestDigest.bytes.length = 32) {digest : Digest}
    (hdigest : digest.bytes.length = 32) {data : BoundedJson}
    (hdata : data.value = (submissionEvidence policyDigest requestDigest).materialized) :
    (payloadEnvelope
      ⟨⟨"https://stknot.com/schemas/runtime/agent-policy-evidence/1.0.0"⟩, ⟨"1.0.0"⟩, digest⟩
      ⟨AgentAdmissionAuthority.evidenceKind⟩ data).FitsLimits .maximum := by
  refine ⟨?_, ?_⟩
  · simp only [payloadEnvelope, hdata, SchemaReference.toJson, Ident.toJson, Digest.toJson,
      Json.Fits, FitsMembers, fits_materialized, submissionEvidence, Digest.text_size hpolicy,
      Digest.text_size hrequest, Digest.text_size hdigest, List.length_cons, List.length_nil,
      List.map_cons, List.map_nil]
    decide +kernel
  · simp only [payloadEnvelope, hdata, SchemaReference.toJson, Ident.toJson, Digest.toJson,
      totals, totalsMembers, totals_materialized, submissionEvidence, Digest.text_size hpolicy,
      Digest.text_size hrequest, Digest.text_size hdigest, List.length_cons, List.length_nil]
    decide +kernel

theorem exists_evidence (hE : E.Standard)
    (hpolicy : policyDigest.bytes.length = 32) (hrequest : requestDigest.bytes.length = 32)
    {schema : SchemaReference} (hschema : agentPolicyEvidenceSchema E = .ok schema)
    {data : BoundedJson} (hdata : BoundedJson.tryFromValueWithLimits
      (submissionEvidence policyDigest requestDigest) .default = .ok data) :
    ∃ evidence : JournalPayload E,
      JournalPayload.new schema ⟨AgentAdmissionAuthority.evidenceKind⟩ data = .ok evidence := by
  have hvalue : data.value = (submissionEvidence policyDigest requestDigest).materialized := by
    rw [(BoundedJson.tryFromValueWithLimits_eq_ok.mp hdata).2]
  simp only [agentPolicyEvidenceSchema, bind_eq_ok, okOr_eq_ok, pure_eq_ok] at hschema
  obtain ⟨canonical, _, rfl⟩ := hschema
  apply JournalPayload.exists_new hE
  · exact fits_evidenceEnvelope hpolicy hrequest (hE.sha256_length canonical) hvalue
  · -- the envelope holds no numbers
    rw [payloadEnvelope, hvalue]
    simp only [CanonicalJson.ijsonNumbers, CanonicalJson.ijsonMembers,
      Json.ijsonNumbers_materialized]
    rfl

end Evidence

/-! ## What a rule grants -/

/-- The grant of a submission rule, from the rule and the identity of its policy. -/
def SubmissionRule.grant (E : Encoding) (policy : CapabilityIdentity)
    (context : AgentServiceSubmissionAuthorization) (rule : SubmissionRule) :
    Except AgentServiceAuthorizationError (AgentServiceSubmissionGrant E) := do
  let policyDigest ← (rule.checksum E policy).mapError fun _ => .invalidEvidence
  AgentResourcePolicy.grantSubmission policy policyDigest rule context

/-- The grant of a run rule, from the rule and the identity of its policy. -/
def RunRule.grant (E : Encoding) (policy : CapabilityIdentity)
    (context : AgentServiceRunAuthorization) (rule : RunRule) :
    Except AgentServiceAuthorizationError AgentServiceRunGrant := do
  let policyDigest ← (rule.checksum E policy).mapError fun _ => .invalidEvidence
  AgentResourcePolicy.grantRun E policy policyDigest context

section Grants

theorem SubmissionRule.exists_grant (hE : E.Standard) (policy : CapabilityIdentity)
    {rule : SubmissionRule} (hbudget : rule.budgetLimits.isEmpty = false)
    (context : AgentServiceSubmissionAuthorization) :
    ∃ grant, rule.grant E policy context = .ok grant := by
  obtain ⟨policyDigest, hpolicyDigest⟩ := hE.exists_checksum
    "stateknot.agent-policy-submission-rule.v1" (.arr [policy.toJson, rule.toJson E])
  obtain ⟨requestDigest, hrequestDigest⟩ :=
    hE.exists_checksum "stateknot.agent-policy-request.v1" (context.request.toJson E)
  have hpolicyLength := hE.checksum_length hpolicyDigest
  have hrequestLength := hE.checksum_length hrequestDigest
  obtain ⟨schema, hschema⟩ : ∃ schema, agentPolicyEvidenceSchema E = .ok schema := by
    obtain ⟨canonical, hcanonical⟩ :=
      Option.isSome_iff_exists.mp (hE.toVec_isSome agentPolicyEvidenceDocument)
    simp only [agentPolicyEvidenceSchema, bind_eq_ok, okOr_eq_ok]
    exact ⟨_, canonical, hcanonical, rfl⟩
  obtain ⟨data, hdata⟩ := exists_evidence_data hpolicyLength hrequestLength
  obtain ⟨evidence, hevidence⟩ :=
    exists_evidence hE hpolicyLength hrequestLength hschema hdata
  have hkind : evidence.kind.text = AgentAdmissionAuthority.evidenceKind := by
    rw [(JournalPayload.new_eq_ok hevidence).2.1]
  simp only [grant, AgentResourcePolicy.grantSubmission, bind_eq_ok, mapError_eq_ok]
  exact ⟨_, policyDigest, hpolicyDigest, requestDigest, hrequestDigest, schema, hschema, data,
    hdata, evidence, hevidence, ⟨policy, evidence.digest, rule.budgetLimits, hbudget⟩,
    dif_pos hbudget, ⟨rule.principal, rule.grantedScopes, policy, policyDigest, evidence, hkind⟩,
    dif_pos hkind, rfl⟩

theorem RunRule.exists_grant (hE : E.Standard) (policy : CapabilityIdentity)
    (context : AgentServiceRunAuthorization) (rule : RunRule) :
    ∃ grant, rule.grant E policy context = .ok grant := by
  obtain ⟨policyDigest, hpolicyDigest⟩ := hE.exists_checksum
    "stateknot.agent-policy-run-rule.v1" (.arr [policy.toJson, rule.toJson])
  obtain ⟨decision, hdecision⟩ := hE.exists_checksum "stateknot.agent-policy-run-decision.v1"
    (.arr [policyDigest.toJson, context.caller.tenantId.toJson, context.caller.principal.toJson,
      context.permission.toJson, context.accessTarget.toJson])
  simp only [grant, AgentResourcePolicy.grantRun, bind_eq_ok, mapError_eq_ok]
  exact ⟨_, policyDigest, hpolicyDigest, decision, hdecision, rfl⟩

end Grants

/-! ## Decisions -/

namespace PolicyDocument

/-- The answer to a submission: what the selected rule grants. -/
def decideSubmission (E : Encoding) (document : PolicyDocument)
    (context : AgentServiceSubmissionAuthorization) :
    Except AgentServiceAuthorizationError (AgentServiceSubmissionGrant E) :=
  firstAnswer (·.selects context) document.submissions .denied
    (·.grant E document.policy context)

/-- The answer to a run request: what the selected rule grants. -/
def decideRun (E : Encoding) (document : PolicyDocument) (context : AgentServiceRunAuthorization) :
    Except AgentServiceAuthorizationError AgentServiceRunGrant :=
  firstAnswer (·.selects context) document.runs .denied (·.grant E document.policy context)

end PolicyDocument

namespace AgentResourcePolicy

variable {policy : AgentResourcePolicy E} {clock : HostClock}
  {artifact : PolicyArtifact E}

theorem submission_eq (hcurrent : policy.current clock = .ok artifact)
    (context : AgentServiceSubmissionAuthorization) :
    policy.submission clock context = artifact.document.decideSubmission E context := by
  have honce := artifact.admissible.submission_once context
  unfold submission
  simp only [hcurrent, Except.mapError, bind, Except.bind]
  cases hfind :
      artifact.document.submissions.zipIdx.find? (fun entry => entry.1.selects context) with
  | none =>
    have hnone : ∀ rule ∈ artifact.document.submissions, ¬ rule.selects context = true :=
      forall_zipIdx_iff.mp (List.find?_eq_none.mp hfind)
    rw [PolicyDocument.decideSubmission, firstAnswer_of_none hnone]
    rfl
  | some entry =>
    obtain ⟨rule, index⟩ := entry
    have hrule := List.mem_zipIdx_iff_getElem?.mp (List.mem_of_find?_eq_some hfind)
    have hselects : rule.selects context = true := by simpa using List.find?_some hfind
    obtain ⟨digest, hdigest, hchecksum⟩ := artifact.submissions_getElem? hrule
    rw [PolicyDocument.decideSubmission,
      firstAnswer_of_mem honce (List.mem_of_getElem? hrule) hselects, SubmissionRule.grant,
      hchecksum]
    simp only [okOr, hdigest]
    rfl

theorem run_eq (hcurrent : policy.current clock = .ok artifact)
    (context : AgentServiceRunAuthorization) :
    policy.run clock context = artifact.document.decideRun E context := by
  have honce := artifact.admissible.run_once context
  unfold run
  simp only [hcurrent, Except.mapError, bind, Except.bind]
  cases hfind : artifact.document.runs.findIdx? (·.selects context) with
  | none =>
    have hnone : ∀ rule ∈ artifact.document.runs, ¬ rule.selects context = true := by
      simpa using List.findIdx?_eq_none_iff.mp hfind
    rw [PolicyDocument.decideRun, firstAnswer_of_none hnone]
    rfl
  | some index =>
    obtain ⟨hlt, hselects, _⟩ := List.findIdx?_eq_some_iff_getElem.mp hfind
    obtain ⟨digest, hdigest, hchecksum⟩ :=
      artifact.runs_getElem? (List.getElem?_eq_getElem hlt)
    rw [PolicyDocument.decideRun, firstAnswer_of_mem honce (List.getElem_mem hlt) hselects,
      RunRule.grant, hchecksum]
    simp only [okOr, hdigest]
    rfl

end AgentResourcePolicy

/-- The rule is about the caller: its tenant and its principal. -/
def SubmissionRule.IsFor (caller : AgentServiceCaller) (rule : SubmissionRule) : Prop :=
  rule.tenant = caller.tenantId ∧ rule.principal = caller.principal

@[inherit_doc SubmissionRule.IsFor]
def RunRule.IsFor (caller : AgentServiceCaller) (rule : RunRule) : Prop :=
  rule.tenant = caller.tenantId ∧ rule.principal = caller.principal

theorem SubmissionRule.isFor_of_selects {context : AgentServiceSubmissionAuthorization}
    {rule : SubmissionRule} (h : rule.selects context = true) : rule.IsFor context.caller := by
  simp only [selects, Bool.and_eq_true, decide_eq_true_eq] at h
  exact h.1.1

theorem RunRule.isFor_of_selects {context : AgentServiceRunAuthorization} {rule : RunRule}
    (h : rule.selects context = true) : rule.IsFor context.caller := by
  simp only [selects, Bool.and_eq_true, decide_eq_true_eq] at h
  exact h.1.1

/-- The policy is fresh, and its artifact is that of the document. -/
def AgentResourcePolicy.Serves (policy : AgentResourcePolicy E)
    (clock : HostClock) (document : PolicyDocument) : Prop :=
  ∃ artifact, PolicyArtifact.new E document = .ok artifact ∧ policy.current clock = .ok artifact

section Results

variable {policy : AgentResourcePolicy E} {clock : HostClock}
  {document : PolicyDocument}

theorem AgentResourcePolicy.Serves.admissible (h : policy.Serves clock document) :
    document.Admissible E := by
  obtain ⟨artifact, hnew, _⟩ := h
  rw [← PolicyArtifact.document_of_new hnew]
  exact artifact.admissible

theorem AgentResourcePolicy.Serves.submission_eq (h : policy.Serves clock document)
    (context : AgentServiceSubmissionAuthorization) :
    policy.submission clock context = document.decideSubmission E context := by
  obtain ⟨artifact, hnew, hcurrent⟩ := h
  rw [AgentResourcePolicy.submission_eq hcurrent, PolicyArtifact.document_of_new hnew]

theorem AgentResourcePolicy.Serves.run_eq (h : policy.Serves clock document)
    (context : AgentServiceRunAuthorization) :
    policy.run clock context = document.decideRun E context := by
  obtain ⟨artifact, hnew, hcurrent⟩ := h
  rw [AgentResourcePolicy.run_eq hcurrent, PolicyArtifact.document_of_new hnew]

end Results

/-- Policy decisions are unambiguous and do not depend on the order of the rules, on the rules
that do not select the request, or on the rules of another caller. -/
theorem policy_decisions_order_free {E : Encoding} (hE : E.Standard) {document : PolicyDocument}
    {artifact : PolicyArtifact E} (haccepted : PolicyArtifact.new E document = .ok artifact) :
    (∀ document', document'.Reorders document →
      ∃ artifact', PolicyArtifact.new E document' = .ok artifact') ∧
    (∀ context, document.runs.countP (·.selects context) ≤ 1) ∧
    (∀ context, document.submissions.countP (·.selects context) ≤ 1) ∧
    ∀ (policy : AgentResourcePolicy E) (clock : HostClock), policy.Serves clock document →
      (∀ context, (∃ grant, policy.run clock context = .ok grant) ↔
        ∃ rule ∈ document.runs, rule.selects context = true) ∧
      (∀ context, (∃ grant, policy.submission clock context = .ok grant) ↔
        ∃ rule ∈ document.submissions, rule.selects context = true) ∧
      (∀ context grant, policy.run clock context = .ok grant →
        ∃ rule ∈ document.runs, rule.IsFor context.caller ∧
          rule.grant E document.policy context = .ok grant) ∧
      (∀ context grant, policy.submission clock context = .ok grant →
        ∃ rule ∈ document.submissions, rule.IsFor context.caller ∧
          rule.grant E document.policy context = .ok grant) ∧
      ∀ (document' : PolicyDocument) (policy' : AgentResourcePolicy E) (clock' : HostClock),
        policy'.Serves clock' document' → document'.policy = document.policy →
        (document'.Reorders document →
          (∀ context, policy'.run clock' context = policy.run clock context) ∧
          ∀ context, policy'.submission clock' context = policy.submission clock context) ∧
        (∀ context, ∀ rule ∈ document.runs, rule.selects context = true →
          rule ∈ document'.runs → policy'.run clock' context = policy.run clock context) ∧
        (∀ context, ∀ rule ∈ document.submissions, rule.selects context = true →
          rule ∈ document'.submissions →
          policy'.submission clock' context = policy.submission clock context) ∧
        (∀ context, (∀ rule : RunRule, rule.IsFor context.caller →
          (rule ∈ document'.runs ↔ rule ∈ document.runs)) →
          policy'.run clock' context = policy.run clock context) ∧
        ∀ context, (∀ rule : SubmissionRule, rule.IsFor context.caller →
          (rule ∈ document'.submissions ↔ rule ∈ document.submissions)) →
          policy'.submission clock' context = policy.submission clock context := by
  have hadmissible : document.Admissible E := (PolicyArtifact.exists_new_iff hE).mp ⟨_, haccepted⟩
  refine ⟨?_, ?_, ?_, ?_⟩
  · intro document' hreorder
    exact (PolicyArtifact.exists_new_iff hE).mpr (hadmissible.reorder hreorder)
  · intro context
    exact (hadmissible.run_once context).countP_le_one
  · intro context
    exact (hadmissible.submission_once context).countP_le_one
  intro policy clock hserves
  simp only [hserves.run_eq, hserves.submission_eq, PolicyDocument.decideRun,
    PolicyDocument.decideSubmission]
  refine ⟨?_, ?_, ?_, ?_, ?_⟩
  · intro context
    exact exists_firstAnswer_iff (hadmissible.run_once context)
      (fun rule _ => rule.exists_grant hE document.policy context)
  · intro context
    exact exists_firstAnswer_iff (hadmissible.submission_once context) (fun rule hrule =>
      rule.exists_grant hE document.policy (hadmissible.budgets rule hrule) context)
  · intro context grant hgrant
    obtain ⟨rule, hrule, hselects, hgrant⟩ :=
      (firstAnswer_eq_ok (hadmissible.run_once context)).mp hgrant
    exact ⟨rule, hrule, RunRule.isFor_of_selects hselects, hgrant⟩
  · intro context grant hgrant
    obtain ⟨rule, hrule, hselects, hgrant⟩ :=
      (firstAnswer_eq_ok (hadmissible.submission_once context)).mp hgrant
    exact ⟨rule, hrule, SubmissionRule.isFor_of_selects hselects, hgrant⟩
  intro document' policy' clock' hserves' hpolicy
  have hrunOnce := hserves'.admissible.run_once
  have hsubmissionOnce := hserves'.admissible.submission_once
  simp only [hserves'.run_eq, hserves'.submission_eq, PolicyDocument.decideRun,
    PolicyDocument.decideSubmission, hpolicy]
  refine ⟨?_, ?_, ?_, ?_, ?_⟩
  · intro hreorder
    constructor
    · intro context
      exact firstAnswer_congr (hrunOnce context) (hadmissible.run_once context)
        (fun _ _ => hreorder.runs.mem_iff)
    · intro context
      exact firstAnswer_congr (hsubmissionOnce context) (hadmissible.submission_once context)
        (fun _ _ => hreorder.submissions.mem_iff)
  · intro context rule hrule hselects hrule'
    rw [firstAnswer_of_mem (hrunOnce context) hrule' hselects,
      firstAnswer_of_mem (hadmissible.run_once context) hrule hselects]
  · intro context rule hrule hselects hrule'
    rw [firstAnswer_of_mem (hsubmissionOnce context) hrule' hselects,
      firstAnswer_of_mem (hadmissible.submission_once context) hrule hselects]
  · intro context hsame
    exact firstAnswer_congr (hrunOnce context) (hadmissible.run_once context)
      (fun rule hselects => hsame rule (RunRule.isFor_of_selects hselects))
  · intro context hsame
    exact firstAnswer_congr (hsubmissionOnce context) (hadmissible.submission_once context)
      (fun rule hselects => hsame rule (SubmissionRule.isFor_of_selects hselects))

namespace Policy.Sample

/-- A hash that keeps the first 32 bytes. -/
def encoding : Encoding :=
  { Encoding.compact with sha256 := fun bytes => ⟨(bytes ++ List.replicate 32 0).take 32⟩ }

theorem encoding_standard : encoding.Standard where
  toVec_isSome _ := rfl
  sha256_length bytes := by simp [encoding]

def caller : AgentServiceCaller := ⟨⟨"tenant"⟩, ⟨⟨"issuer"⟩, ⟨"subject"⟩⟩⟩

def identity : CapabilityIdentity := ⟨⟨"issuer"⟩, ⟨"owner"⟩, ⟨"policy"⟩, ⟨"1.0.0"⟩⟩

def submission (agent : String) : SubmissionRule :=
  ⟨caller.tenantId, caller.principal, { identity with name := ⟨agent⟩ },
    ⟨⟨"schema"⟩, ⟨"1.0.0"⟩, ⟨[]⟩⟩, ⟨[], ScopeSet.sorted_nil, ScopeSet.bounded_nil⟩,
    { BudgetLimits.empty with deadline := some (.ofMicros 0) }⟩

/-- The caller may submit to two agents, read every run, and cancel one of them. -/
def document : PolicyDocument where
  formatVersion := 1
  policy := identity
  validUntil := .ofMicros 2000000
  submissions := [submission "writer", submission "reader"]
  runs := [⟨caller.tenantId, caller.principal, .read, .tenantRuns⟩,
    ⟨caller.tenantId, caller.principal, .cancel, .run ⟨"run"⟩⟩]

/-- The same rules in another order. -/
def reversed : PolicyDocument :=
  { document with submissions := document.submissions.reverse, runs := document.runs.reverse }

/-- A run rule that overlaps with one of the document. -/
def overlapping : PolicyDocument :=
  { document with runs := ⟨caller.tenantId, caller.principal, .read, .run ⟨"run"⟩⟩ :: document.runs }

def clock : HostClock := ⟨0, 0⟩

def installed (document : PolicyDocument) :
    Option (PolicyArtifact encoding × AgentResourcePolicy encoding) := do
  let artifact ← (PolicyArtifact.new encoding document).toOption
  let policy ← (AgentResourcePolicy.new clock artifact 1000).toOption
  return (artifact, policy)

theorem exists_installed (document : PolicyDocument)
    (h : ((installed document).any fun (artifact, policy) =>
      PolicyArtifact.new encoding document = .ok artifact ∧
      policy.current clock = .ok artifact) = true) :
    ∃ (artifact : PolicyArtifact encoding) (policy : AgentResourcePolicy encoding),
      PolicyArtifact.new encoding document = .ok artifact ∧ policy.Serves clock document := by
  obtain ⟨⟨artifact, policy⟩, _, hboth⟩ := (Option.any_eq_true _ _).mp h
  obtain ⟨hnew, hcurrent⟩ := of_decide_eq_true hboth
  exact ⟨artifact, policy, hnew, artifact, hnew, hcurrent⟩

end Policy.Sample

open Policy.Sample in
/-- The sample and its reversal are accepted, an overlapping rule is not; the caller may cancel
the run under either order, with the same grant. -/
theorem policy_decisions_order_free_sample :
    (∃ error, PolicyArtifact.new encoding overlapping = .error error) ∧
    ∃ (artifact : PolicyArtifact encoding) (policy policy' : AgentResourcePolicy encoding),
      PolicyArtifact.new encoding document = .ok artifact ∧ policy.Serves clock document ∧
      policy'.Serves clock reversed ∧
      ∃ grant, policy.run clock ⟨caller, .run ⟨"run"⟩, .cancel⟩ = .ok grant ∧
        policy'.run clock ⟨caller, .run ⟨"run"⟩, .cancel⟩ = .ok grant := by
  constructor
  · have hnone : (PolicyArtifact.new encoding overlapping).toOption = none := by decide +kernel
    cases hnew : PolicyArtifact.new encoding overlapping with
    | ok artifact => simp [hnew, Except.toOption] at hnone
    | error error => exact ⟨error, rfl⟩
  · obtain ⟨artifact, policy, hnew, hserves⟩ :=
      exists_installed document (by decide +kernel)
    obtain ⟨_, policy', _, hserves'⟩ := exists_installed reversed (by decide +kernel)
    obtain ⟨hruns, _, _, _, hothers⟩ :=
      (policy_decisions_order_free encoding_standard hnew).2.2.2 policy clock hserves
    have hreorder : reversed.Reorders document :=
      ⟨rfl, rfl, rfl, List.reverse_perm _, List.reverse_perm _⟩
    obtain ⟨grant, hgrant⟩ := (hruns ⟨caller, .run ⟨"run"⟩, .cancel⟩).mpr
      ⟨⟨caller.tenantId, caller.principal, .cancel, .run ⟨"run"⟩⟩, by simp [document], by decide⟩
    refine ⟨artifact, policy, policy', hnew, hserves, hserves', grant, hgrant, ?_⟩
    rw [((hothers reversed policy' clock hserves' rfl).1 hreorder).1]
    exact hgrant

end StateKnot
