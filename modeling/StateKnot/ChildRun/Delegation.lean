import StateKnot.ChildRun.Admission
import StateKnot.Written

/-!
# Delegation

Runs delegate to child runs, whose admissions delegate further.  Along such a chain
authority never grows: an admission attenuates every admission before it, because
attenuation is transitive and one delegation attenuates.
-/

namespace StateKnot

open Lib

variable {E : Encoding}

namespace AgentAdmission

/-- `child` was admitted for a child run of `parent`, whose intent was valid for a ready
node of a checkpoint. -/
def Delegates (parent child : AgentAdmission E) : Prop :=
  ∃ (intent : ChildRunAdmissionIntent E) (checkpoint : Checkpoint E)
    (schemas : GraphSchemaValidator) (observedAt admittedAt : Timestamp),
    intent.validateFor parent checkpoint schemas observedAt = .returned (.ok ()) ∧
      commit intent.child admittedAt = .ok child

/-- `descendant` has no authority that `ancestor` lacks. -/
structure Attenuates (ancestor descendant : AgentAdmission E) : Prop where
  tenantId : descendant.intent.provenance.tenantId = ancestor.intent.provenance.tenantId
  principal : descendant.intent.authority.principal = ancestor.intent.authority.principal
  scopes : descendant.intent.authority.grantedScopes.values ⊆
    ancestor.intent.authority.grantedScopes.values
  budget : descendant.intent.budget.Narrows ancestor.intent.budget

theorem Attenuates.refl (admission : AgentAdmission E) : admission.Attenuates admission :=
  ⟨rfl, rfl, fun _ h => h, .refl _⟩

theorem Attenuates.trans {a b c : AgentAdmission E} (hab : a.Attenuates b)
    (hbc : b.Attenuates c) : a.Attenuates c where
  tenantId := hbc.tenantId.trans hab.tenantId
  principal := hbc.principal.trans hab.principal
  scopes := fun _ h => hab.scopes (hbc.scopes h)
  budget := hbc.budget.trans hab.budget

instance : IsTrans (AgentAdmission E) Attenuates := ⟨fun _ _ _ => Attenuates.trans⟩

theorem Delegates.attenuates {parent child : AgentAdmission E} (h : parent.Delegates child) :
    parent.Attenuates child := by
  obtain ⟨intent, checkpoint, schemas, observedAt, admittedAt, hvalid, hcommit⟩ := h
  have hready := ChildRunAdmissionIntent.validateFor_eq_ok hvalid
  have hshape := intent.shape_ok
  simp only [ChildRunAdmissionIntent.validateReady, ChildRunAdmissionIntent.validateParent,
    bind_eq_ok, reject_eq_ok, mapError_eq_ok, ResolvedBudget.validateNarrowing_eq_ok,
    exists_const, not_or, not_not, Bool.not_eq_true', Bool.not_eq_false] at hready
  simp only [SpawnTerms.validateShape, bind_eq_ok, reject_eq_ok, exists_const, not_or,
    not_not] at hshape
  obtain ⟨⟨⟨_, htenant, _⟩, hprincipal, hscopes, hbudget⟩, _⟩ := hready
  obtain ⟨⟨hchild, _⟩, _⟩ := hshape
  obtain ⟨hintent, _⟩ := commit_eq_ok hcommit
  rw [← hintent] at hchild hprincipal hscopes hbudget
  exact ⟨hchild.symm.trans htenant, hprincipal, ScopeSet.isSubset_iff.mp hscopes, hbudget⟩

theorem pairwise_attenuates {admissions : List (AgentAdmission E)}
    (h : admissions.IsChain Delegates) : admissions.Pairwise Attenuates :=
  (h.imp fun _ _ hstep => hstep.attenuates).pairwise

/-- The limits that an admission was given: by policies, with the agent, with the request. -/
def givenLimits (admission : AgentAdmission E) : List BudgetLimits :=
  admission.intent.budgetLayers.map (·.limits) ++
    [admission.intent.descriptor.budgetLimits, admission.intent.request.budgetLimits]

end AgentAdmission

/-- Limits that bound nothing are respected. -/
theorem ResolvedBudget.respects_of_isEmpty {limits : BudgetLimits} (h : limits.isEmpty = true)
    (budget : ResolvedBudget) : budget.Respects limits := by
  simp only [BudgetLimits.isEmpty, Bool.and_eq_true, Option.isNone_iff_eq_none, List.all_eq_true,
    Counter.mem_all, true_implies] at h
  obtain ⟨⟨hdeadline, hcounts⟩, hcosts⟩ := h
  refine ⟨?_, fun counter => ?_, ?_⟩
  · simp only [hdeadline, Option.not_mem_none, false_implies, implies_true]
  · simp only [hcounts counter, Option.not_mem_none, false_implies, implies_true]
  · simp only [hcosts, Option.not_mem_none, false_implies, implies_true]

theorem AgentAdmission.respects_givenLimits (admission : AgentAdmission E) {limits : BudgetLimits}
    (h : limits ∈ admission.givenLimits) : admission.intent.budget.Respects limits := by
  by_cases hempty : limits.isEmpty = true
  · exact ResolvedBudget.respects_of_isEmpty hempty _
  · apply admission.intent.budget_respects
    -- Of the limits that are given, `build` leaves out only those that bound nothing.
    rw [AdmissionTerms.layers, AdmissionTerms.builtInLimits, List.mem_append, List.mem_filter]
    rcases List.mem_append.mp h with hlayer | hbuiltIn
    · exact Or.inl hlayer
    · exact Or.inr ⟨hbuiltIn, by simpa using hempty⟩

/-- Along every chain of delegations tenant and principal stay, scopes shrink, and the
budget of the last admission stays within all limits that were given on the way. -/
theorem delegated_authority_never_grows {ancestors : List (AgentAdmission E)}
    {last : AgentAdmission E}
    (hchain : (ancestors ++ [last]).IsChain AgentAdmission.Delegates) :
    (ancestors ++ [last]).Pairwise (fun earlier later =>
      later.intent.provenance.tenantId = earlier.intent.provenance.tenantId ∧
      later.intent.authority.principal = earlier.intent.authority.principal ∧
      later.intent.authority.grantedScopes.values ⊆
        earlier.intent.authority.grantedScopes.values) ∧
    (∀ admission ∈ ancestors ++ [last],
      admission.intent.descriptor.requiredScopes.values ⊆
        admission.intent.authority.grantedScopes.values ∧
      last.intent.budget.deadline ≤ admission.intent.budget.deadline ∧
      ∀ limits ∈ admission.givenLimits, last.intent.budget.Respects limits) ∧
    (∀ (usage : BudgetUsage) (observedAt : Timestamp),
      (∃ rest, last.intent.budget.remaining usage observedAt = .ok rest) →
      ∀ admission ∈ ancestors ++ [last],
        ∃ rest, admission.intent.budget.remaining usage observedAt = .ok rest) := by
  have hpairs := AgentAdmission.pairwise_attenuates hchain
  have hlast : ∀ admission ∈ ancestors ++ [last], admission.Attenuates last := by
    intro admission hmem
    rcases List.mem_append.mp hmem with hancestor | hself
    · exact (List.pairwise_append.mp hpairs).2.2 admission hancestor last List.mem_cons_self
    · rw [List.mem_singleton.mp hself]
      exact .refl last
  refine ⟨hpairs.imp fun h => ⟨h.tenantId, h.principal, h.scopes⟩, fun admission hmem => ?_,
    fun usage observedAt hrest admission hmem => ?_⟩
  · have hnarrows := (hlast admission hmem).budget
    exact ⟨admission.intent.requiredScopes_subset, hnarrows.deadline,
      fun limits hlimits => hnarrows.respects (admission.respects_givenLimits hlimits)⟩
  · rw [ResolvedBudget.exists_remaining_iff] at hrest ⊢
    exact (hlast admission hmem).budget.covers hrest

namespace Delegation.Sample

def scopes : List String → Option ScopeSet
  | [] => some ⟨[], ScopeSet.sorted_nil, ScopeSet.bounded_nil⟩
  | [text] => some ⟨[⟨text⟩], List.pairwise_singleton _ _, by simp⟩
  | _ => none

theorem deadline_none : BudgetLimits.empty.deadline = none := rfl

def descriptor : AgentDescriptor where
  identity := Sample.identity
  inputSchema := Sample.schema
  outputSchema := Sample.schema
  allowsNoTool := true
  instructions := [⟨"task"⟩]
  tools := []
  execution := ⟨.modelNative, .ofNat 1, 0, 0, .sequential, by decide⟩
  lifecycle := .active
  requiredScopes := ⟨[], ScopeSet.sorted_nil, ScopeSet.bounded_nil⟩
  budgetLimits := .empty
  wire := .obj [("metadata", .obj [("identity", Sample.identity.toJson)])]
  instructions_ok := by decide
  calls_iff_tools := by decide
  deadline_none := deadline_none
  wire_shows := ⟨_, _, rfl, by decide, by decide, rfl, rfl⟩

/-- An intent to run the agent with the same count for every counter and for the costs. -/
def intent (runId : RunId) (granted : List String) (count : Count) (deadline : Timestamp)
    (graph : GraphReference) : Option (AgentAdmissionIntent .compact) := do
  let scopes ← scopes granted
  let evidence ← (JournalPayload.new Sample.schema ⟨"agent-admission-granted"⟩
    ⟨.null, ⟨4, 0, 1⟩⟩).toOption
  let authority ← (AgentAdmissionAuthority.new ⟨⟨"issuer"⟩, ⟨"subject"⟩⟩ scopes Sample.identity
    ⟨[]⟩ evidence).toOption
  let costs ← (Costs.tryNew [⟨⟨"EUR"⟩, count⟩]).toOption
  let layer ← (AgentAdmissionBudgetLayer.new Sample.identity ⟨[]⟩
    ⟨some deadline, fun _ => some count, some costs⟩).toOption
  (AgentAdmissionIntent.new ⟨⟨⟨"tenant"⟩, runId, ⟨"thread"⟩, ⟨"invocation"⟩, Sample.identity⟩,
    descriptor, ⟨Sample.schema, ⟨.null, ⟨4, 0, 1⟩⟩, .empty⟩, [layer], graph, authority⟩).toOption

/-- A graph of one terminal node. -/
def graph : Option (CompiledGraph .compact) := do
  let node ← (GraphNode.new ⟨"node"⟩ none .empty none true).toOption
  Sample.compile [⟨"node"⟩] [node] 1

/-- A first checkpoint of an admitted run, with its node ready. -/
def checkpoint (admission : AgentAdmission .compact) : Option (Checkpoint .compact) := do
  let runId := admission.intent.provenance.runId
  let state ← (CheckpointState.new Sample.schema ⟨.null, ⟨4, 0, 1⟩⟩).toOption
  let ready ← (ReadyNodes.tryNew [⟨"node"⟩]).toOption
  let write ← (CheckpointWrite.initial ⟨"tenant"⟩ runId ⟨"c0"⟩ admission.intent.graph state
    ready).toOption
  (Checkpoint.commit write ⟨⟨"tenant"⟩, runId, .ofNat 1, ⟨"event"⟩, admission.admittedAt,
    ⟨[]⟩⟩).toOption

/-- An admitted run asks at a checkpoint for a child run in a slot of its node. -/
def spawn (parent : AgentAdmission .compact) (checkpoint : Checkpoint .compact)
    (slot : ChildRunSlot) (runId : RunId) (granted : List String) (count : Count)
    (deadline : Timestamp) : Option (ChildRunAdmissionIntent .compact) := do
  let graph ← graph
  let activation ← (NodeActivation.forReadyRoot checkpoint ⟨"node"⟩).toOption
  let key ← (ChildRunKey.new activation slot).toOption
  let child ← intent runId granted count deadline graph.reference
  let state ← (CheckpointState.new Sample.schema ⟨.null, ⟨4, 0, 1⟩⟩).toOption
  (ChildRunAdmissionIntent.new parent key child graph state).toOption

/-- The admission of a child run that a parent asked for. -/
def delegate (parent : AgentAdmission .compact) (runId : RunId) (granted : List String)
    (count : Count) (deadline observedAt : Timestamp) : Option (AgentAdmission .compact) := do
  let checkpoint ← checkpoint parent
  let spawn ← spawn parent checkpoint ⟨"slot"⟩ runId granted count deadline
  let _ ← (spawn.validateReady parent checkpoint observedAt).toOption
  (AgentAdmission.commit spawn.child observedAt).toOption

theorem delegates_of_delegate {parent child : AgentAdmission .compact} {runId : RunId}
    {granted : List String} {count : Count} {deadline observedAt : Timestamp}
    (h : delegate parent runId granted count deadline observedAt = some child) :
    parent.Delegates child := by
  simp only [delegate, Option.bind_eq_bind, Option.bind_eq_some_iff, toOption_eq_some] at h
  obtain ⟨checkpoint, _, spawn, _, _, hready, hcommit⟩ := h
  refine ⟨spawn, checkpoint, fun _ _ => .returned (.ok ()), observedAt, observedAt, ?_, hcommit⟩
  rw [ChildRunAdmissionIntent.validateFor, hready]
  rfl

/-- A run with one scope. -/
def parent : Option (AgentAdmission .compact) := do
  let graph ← graph
  let intent ← intent ⟨"parent"⟩ ["read"] (.ofNat 12) (.ofMicros 9) graph.reference
  (AgentAdmission.commit intent (.ofMicros 1)).toOption

end Delegation.Sample

/-- A run delegates to a child and the child to a grandchild with a smaller budget; whatever
the grandchild may use at an instant, all three may. -/
theorem delegated_authority_never_grows_grandchild :
    ∃ parent child grandchild : AgentAdmission .compact, parent.Delegates child ∧
      child.Delegates grandchild ∧
      grandchild.intent.budget.counts .toolCalls < child.intent.budget.counts .toolCalls ∧
      child.intent.budget.counts .toolCalls < parent.intent.budget.counts .toolCalls ∧
      ∀ admission ∈ [parent, child],
        ∃ rest, admission.intent.budget.remaining .zero grandchild.admittedAt = .ok rest := by
  have hsome : (Delegation.Sample.parent.any fun parent =>
      (Delegation.Sample.delegate parent ⟨"child"⟩ ["read"] (.ofNat 5) (.ofMicros 7)
        (.ofMicros 3)).any fun child =>
      (Delegation.Sample.delegate child ⟨"grandchild"⟩ [] (.ofNat 4) (.ofMicros 6)
        (.ofMicros 4)).any fun grandchild =>
      grandchild.intent.budget.counts .toolCalls < child.intent.budget.counts .toolCalls ∧
      child.intent.budget.counts .toolCalls < parent.intent.budget.counts .toolCalls) = true := by
    decide +kernel
  obtain ⟨parent, _, hsome⟩ := (Option.any_eq_true _ _).mp hsome
  obtain ⟨child, hchild, hsome⟩ := (Option.any_eq_true _ _).mp hsome
  obtain ⟨grandchild, hgrandchild, hless⟩ := (Option.any_eq_true _ _).mp hsome
  have hchild := Delegation.Sample.delegates_of_delegate hchild
  have hgrandchild := Delegation.Sample.delegates_of_delegate hgrandchild
  obtain ⟨hless, hless'⟩ := of_decide_eq_true hless
  obtain ⟨_, _, hcovers⟩ := @delegated_authority_never_grows _ [parent, child] grandchild
    (.cons_cons hchild (.cons_cons hgrandchild (.singleton grandchild)))
  refine ⟨parent, child, grandchild, hchild, hgrandchild, hless, hless', ?_⟩
  intro admission hadmission
  exact hcovers .zero grandchild.admittedAt grandchild.budget_open admission
    (List.mem_append_left _ hadmission)

end StateKnot
