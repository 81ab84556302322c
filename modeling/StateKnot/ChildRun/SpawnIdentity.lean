import StateKnot.ChildRun.Account
import StateKnot.Graph.Identity
import StateKnot.Reference

/-!
# What a spawn digest identifies

A reservation may be repeated with an intent that differs from the first one, for
instance in the identity proposed for the child run.  The spawn digest covers all
that the checks of a reservation look at, so under faithful encoders an intent with
the digest of an accepted one passes the same checks.
-/

namespace StateKnot

open Lib

variable {E : Encoding}

/-- The bytes of a tree with interoperable numbers are a function of its canonical form. -/
def Encoding.Canonicalizes (E : Encoding) : Prop :=
  ∀ {a b : Json}, CanonicalJson.ijsonNumbers a = true → CanonicalJson.ijsonNumbers b = true →
    a.canonical = b.canonical → E.toVec a = E.toVec b

example : Encoding.reference.Faithful ∧ Encoding.reference.Canonicalizes :=
  ⟨Encoding.reference_faithful, fun ha hb h => by
    simp [Encoding.reference, Json.rfc8785, CanonicalJson.toDoubles_of_ijsonNumbers, ha, hb, h]⟩

/-! ## Budgets -/

@[simp] theorem Count.rfc8785_inj {a b : Count} :
    a.toJson.rfc8785 = b.toJson.rfc8785 ↔ a = b := by
  simp [Count.toJson, Nat.repr_inj, Count.value_injective.eq_iff]

@[simp] theorem Money.rfc8785_inj {a b : Money} :
    a.toJson.rfc8785 = b.toJson.rfc8785 ↔ a = b := by
  refine Iff.trans (Json.rfc8785_obj_inj rfl (by simp)) ?_
  cases a
  cases b
  simp

theorem Costs.rfc8785_inj {a b : Costs} :
    a.toJson.rfc8785 = b.toJson.rfc8785 ↔ a = b := by
  refine ⟨fun h => Costs.ext_values ?_, fun h => by rw [h]⟩
  exact Json.eq_of_rfc8785_arr_eq Money.rfc8785_inj.mp h

theorem ResolvedBudget.rfc8785_inj (hE : E.Faithful) {a b : ResolvedBudget} :
    (a.toJson E).rfc8785 = (b.toJson E).rfc8785 ↔ a = b := by
  refine ⟨fun h => ?_, fun h => by rw [h]⟩
  have hnames : ∀ budget : ResolvedBudget, ([("deadline", E.timestampJson budget.deadline)] ++
      countsJson budget.counts ++ [("costs", budget.costs.toJson)]).map Prod.fst =
        "deadline" :: (Counter.all.map Counter.text ++ ["costs"]) := by
    intro budget
    rw [List.map_append, List.map_append, countsJson, List.map_map]
    rfl
  have hnodup : ("deadline" :: (Counter.all.map Counter.text ++ ["costs"])).Nodup := by decide
  have hvalues := Json.values_of_rfc8785_eq h ((hnames a).trans (hnames b).symm)
    (hnames a ▸ hnodup)
  rw [List.append_assoc, List.append_assoc, List.singleton_append, List.singleton_append,
    List.map_cons, List.map_cons, List.map_append, List.map_append, List.cons.injEq] at hvalues
  obtain ⟨hdeadline, hrest⟩ := hvalues
  obtain ⟨hcounts, hcosts⟩ := List.append_inj hrest (by simp [countsJson])
  have hdeadline' : a.deadline = b.deadline := hE.timestampJson_rfc8785_inj.mp hdeadline
  have hcounts' : a.counts = b.counts := by
    funext counter
    rw [countsJson, countsJson, List.map_map, List.map_map] at hcounts
    exact Count.rfc8785_inj.mp
      (List.map_inj_left.mp hcounts counter (Counter.mem_all counter))
  have hcosts' : a.costs = b.costs := Costs.rfc8785_inj.mp (List.cons.inj hcosts).1
  cases a
  cases b
  cases hdeadline'
  cases hcounts'
  cases hcosts'
  rfl

/-! ## Agents -/

theorem Encoding.canonicalBytes_eq_ok {value : Json} {bytes : List UInt8} :
    E.canonicalBytes value = .ok bytes ↔
      CanonicalJson.ijsonNumbers value = true ∧ E.toVec value = some bytes := by
  simp only [Encoding.canonicalBytes, bind_eq_ok, reject_eq_ok, okOr_eq_ok, exists_const,
    Bool.not_eq_true', Bool.not_eq_false]

/-- Descriptors that show one tree show one identity. -/
theorem AgentDescriptor.identity_eq_of_rfc8785_eq {a b : AgentDescriptor}
    (h : a.wire.rfc8785 = b.wire.rfc8785) : a.identity = b.identity := by
  obtain ⟨members, metadata, hwire, hmembers, hmetadata, hlookup, hidentity⟩ := a.wire_shows
  obtain ⟨members', metadata', hwire', hmembers', hmetadata', hlookup', hidentity'⟩ := b.wire_shows
  rw [hwire, hwire'] at h
  have hmeta := Json.lookup_eq_of_rfc8785_eq h hmembers hmembers' "metadata"
  rw [hlookup, hlookup'] at hmeta
  have hsame := Json.lookup_eq_of_rfc8785_eq (Option.some.inj hmeta) hmetadata hmetadata' "identity"
  rw [hidentity, hidentity'] at hsame
  exact CapabilityIdentity.rfc8785_inj.mp (Option.some.inj hsame)

theorem ChildAgentReference.fromDescriptor_congr (hcanonicalizes : E.Canonicalizes)
    {a b : AgentDescriptor} (h : a.wire.rfc8785 = b.wire.rfc8785)
    (ha : CanonicalJson.ijsonNumbers a.wire = true)
    (hb : CanonicalJson.ijsonNumbers b.wire = true) :
    fromDescriptor E a = fromDescriptor E b := by
  have hbytes : E.canonicalBytes a.wire = E.canonicalBytes b.wire := by
    rw [Encoding.canonicalBytes, Encoding.canonicalBytes, ha, hb,
      hcanonicalizes ha hb (CanonicalJson.canonical_eq_of_rfc8785_eq ha hb h)]
  rw [fromDescriptor, fromDescriptor, hbytes, AgentDescriptor.identity_eq_of_rfc8785_eq h]

/-! ## Intents -/

namespace ChildRunAdmissionIntent

/-- Two intents for one spawn, as far as reservations look at them. -/
structure SameSpawn (a b : ChildRunAdmissionIntent E) : Prop where
  parentAdmissionDigest : a.parentAdmissionDigest = b.parentAdmissionDigest
  budget : a.child.budget = b.child.budget
  graph : a.childGraph.reference = b.childGraph.reference
  descriptor : a.child.descriptor.wire.rfc8785 = b.child.descriptor.wire.rfc8785

variable {a b : ChildRunAdmissionIntent E}

theorem spawnDigest_covers (intent : ChildRunAdmissionIntent E) :
    ∃ bytes, CanonicalJson.ijsonNumbers intent.spawnWire = true ∧
      E.toVec intent.spawnWire = some bytes ∧
      E.sha256 (domainBytes "stateknot.child-run-admission-intent.v1" ++ bytes) =
        intent.spawnDigest := by
  have h := intent.digest_eq
  simp only [SpawnTerms.computeSpawnDigest, bind_eq_ok, mapError_eq_ok,
    Encoding.canonicalBytes_eq_ok, pure_eq_ok] at h
  obtain ⟨bytes, ⟨hnumbers, hbytes⟩, hdigest⟩ := h
  exact ⟨bytes, hnumbers, hbytes, hdigest⟩

theorem descriptor_ijsonNumbers (intent : ChildRunAdmissionIntent E) :
    CanonicalJson.ijsonNumbers intent.child.descriptor.wire = true := by
  obtain ⟨_, hnumbers, _⟩ := intent.spawnDigest_covers
  simp only [SpawnTerms.spawnWire, CanonicalJson.ijsonNumbers, CanonicalJson.ijsonMembers,
    Bool.and_eq_true] at hnumbers
  exact hnumbers.2.2.2.1

theorem graph_reference (intent : ChildRunAdmissionIntent E) :
    intent.child.graph = intent.childGraph.reference := by
  have h := intent.shape_ok
  simp only [SpawnTerms.validateShape, bind_eq_ok, reject_eq_ok, exists_const, not_or,
    not_not] at h
  exact h.2.2.1

/-- Intents under one spawn digest are for one spawn. -/
theorem sameSpawn_of_digest_eq (hE : E.Faithful) (h : a.spawnDigest = b.spawnDigest) :
    a.SameSpawn b := by
  obtain ⟨bytes, _, hbytes, hdigest⟩ := a.spawnDigest_covers
  obtain ⟨bytes', _, hbytes', hdigest'⟩ := b.spawnDigest_covers
  have hsame : bytes = bytes' :=
    List.append_cancel_left (hE.sha256_injective (hdigest.trans (h.trans hdigest'.symm)))
  subst hsame
  have hvalues := Json.values_of_rfc8785_eq (hE.determinesTrees hbytes hbytes') rfl (by simp)
  simp only [List.map_cons, List.map_nil, List.cons.injEq, Digest.rfc8785_inj,
    ResolvedBudget.rfc8785_inj hE, GraphReference.rfc8785_inj] at hvalues
  obtain ⟨_, hparent, _, hdescriptor, _, _, hbudget, hgraph, _⟩ := hvalues
  refine ⟨hparent, hbudget, ?_, hdescriptor⟩
  rw [← a.graph_reference, ← b.graph_reference, hgraph]

theorem validateTarget_congr (hE : E.Faithful) {target target' : CompiledGraph E}
    (h : target.reference = target'.reference) (declaration : ChildRunDeclaration)
    (limits : ChildRunTopologyLimits) :
    declaration.validateTarget target limits = declaration.validateTarget target' limits := by
  have hdigest : target.definitionDigest = target'.definitionDigest :=
    congrArg GraphReference.definitionDigest h
  rw [CompiledGraph.eq_of_digest_eq hE hdigest]

theorem SameSpawn.validateDeclaration_eq (hE : E.Faithful) (hcanonicalizes : E.Canonicalizes)
    (h : a.SameSpawn b) (hkey : a.key = b.key) {graph graph' : CompiledGraph E}
    (hgraph : graph.reference = graph'.reference) :
    a.validateDeclaration graph = b.validateDeclaration graph' := by
  have hdigest : graph.definitionDigest = graph'.definitionDigest :=
    congrArg GraphReference.definitionDigest hgraph
  have hsame := CompiledGraph.eq_of_digest_eq hE hdigest
  have hagent : ChildAgentReference.fromDescriptor E a.child.descriptor =
      ChildAgentReference.fromDescriptor E b.child.descriptor :=
    ChildAgentReference.fromDescriptor_congr hcanonicalizes h.descriptor a.descriptor_ijsonNumbers
      b.descriptor_ijsonNumbers
  simp only [validateDeclaration, hkey, hsame, hagent, validateTarget_congr hE h.graph]

end ChildRunAdmissionIntent

theorem ChildRunBudgetAccount.validateReserve_congr (hE : E.Faithful)
    (hcanonicalizes : E.Canonicalizes) (account : ChildRunBudgetAccount E)
    {a b : ChildRunAdmissionIntent E} (hkey : a.key = b.key)
    (hdigest : a.spawnDigest = b.spawnDigest) {graph graph' : CompiledGraph E}
    (hgraph : graph.reference = graph'.reference) :
    account.validateReserve a graph = account.validateReserve b graph' := by
  have hspawn := ChildRunAdmissionIntent.sameSpawn_of_digest_eq hE hdigest
  rw [validateReserve, validateReserve, hspawn.parentAdmissionDigest, hkey, hgraph, hspawn.budget,
    hspawn.validateDeclaration_eq hE hcanonicalizes hkey hgraph]

end StateKnot
