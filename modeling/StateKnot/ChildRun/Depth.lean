import StateKnot.ChildRun.Account
import StateKnot.Graph.Identity
import StateKnot.Lib.Spans

/-!
# The depth of delegation

A graph delegates to the targets that the declarations of its policy validate.  Each
target has a smaller depth limit than the graph that delegates to it, so delegation ends:
a chain visits no graph twice and is no longer than the limit of its root allows.
The declarations themselves are looked up by node and slot, whatever order they came in.
-/

namespace StateKnot

open Lib

variable {E : Encoding}

/-! ## Declarations -/

namespace GraphChildRunPolicy

variable {policy : GraphChildRunPolicy} {limits : ChildRunTopologyLimits}
  {declarations declarations' : List ChildRunDeclaration} {node : NodeId} {slot : ChildRunSlot}

variable {value : ChildRunDeclaration}

theorem key_eq_iff : value.key = toLex (node, slot) ↔ value.nodeId = node ∧ value.slot = slot := by
  rw [ChildRunDeclaration.key, toLex_inj, Prod.mk.injEq]

theorem declaration_eq_some : policy.declaration node slot = some value ↔
      value ∈ policy.declarations ∧ value.nodeId = node ∧ value.slot = slot := by
  rw [declaration, binarySearchBy_eq_some policy.sorted, key_eq_iff]

theorem Admissible.of_perm (h : Admissible declarations) (hperm : declarations.Perm declarations') :
    Admissible declarations' where
  bounded := hperm.length_eq ▸ h.bounded
  keys_nodup := (hperm.map _).nodup_iff.mp h.keys_nodup
  slots_bounded := by
    intro nodeId
    rw [slotCount, ← hperm.countP_eq]
    exact h.slots_bounded nodeId

theorem new_of_perm (hperm : declarations.Perm declarations')
    (h : new limits declarations = .ok policy) : new limits declarations' = .ok policy := by
  obtain ⟨hne, hadmissible, hlimits, hdeclarations⟩ := new_eq_ok.mp h
  refine new_eq_ok.mpr ⟨?_, hadmissible.of_perm hperm, hlimits, ?_⟩
  · intro hnil
    exact hne (hnil ▸ hperm).eq_nil
  · rw [hdeclarations]
    exact sortByKey_eq_of_perm hperm hadmissible.keys_nodup

theorem declaration_of_new (h : new limits declarations = .ok policy) :
    policy.declaration node slot = some value ↔
      value ∈ declarations ∧ value.nodeId = node ∧ value.slot = slot := by
  obtain ⟨_, _, _, hdeclarations⟩ := new_eq_ok.mp h
  rw [declaration_eq_some, hdeclarations, mem_sortByKey]

end GraphChildRunPolicy

/-- Pin declarations into a graph: `GraphChildRunPolicy::new`, then `with_child_runs`. -/
def CompiledGraph.declaring (graph : CompiledGraph E) (limits : ChildRunTopologyLimits)
    (declarations : List ChildRunDeclaration) : Option (CompiledGraph E) := do
  let policy ← (GraphChildRunPolicy.new limits declarations).toOption
  (graph.withChildRuns policy).toOption

/-! ## Chains of delegations -/

namespace CompiledGraph

/-- The depth limit of a graph; one without a policy delegates nothing. -/
def descendantDepth (graph : CompiledGraph E) : Nat :=
  (graph.childRuns.map (·.limits.maximumDescendantDepth)).getD 0

/-- A declaration of the graph's policy validates the target. -/
def Delegates (graph target : CompiledGraph E) : Prop :=
  ∃ policy, graph.childRuns = some policy ∧ ∃ declaration ∈ policy.declarations,
    declaration.validateTarget target policy.limits = .ok ()

theorem Delegates.depth_lt {graph target : CompiledGraph E} (h : graph.Delegates target) :
    target.descendantDepth < graph.descendantDepth := by
  obtain ⟨policy, hpolicy, declaration, _, hvalid⟩ := h
  simp only [ChildRunDeclaration.validateTarget, bind_eq_ok, reject_eq_ok, exists_and_left,
    exists_const] at hvalid
  have hdepth : graph.descendantDepth = policy.limits.maximumDescendantDepth := by
    rw [descendantDepth, hpolicy]
    rfl
  rw [hdepth]
  exact Nat.lt_of_not_le hvalid.2.2

variable {chain : List (CompiledGraph E)}

theorem depth_decreases (h : chain.IsChain Delegates) :
    chain.Pairwise (fun graph target => target.descendantDepth < graph.descendantDepth) :=
  pairwise_of_isChain h (fun _ _ => Delegates.depth_lt) (fun hxy hyz => hyz.trans hxy)

theorem chain_nodup (h : chain.IsChain Delegates) : chain.Nodup := by
  apply (depth_decreases h).imp
  intro graph target hlt heq
  rw [heq] at hlt
  exact lt_irrefl _ hlt

theorem chain_length_le {root : CompiledGraph E} (h : (root :: chain).IsChain Delegates) :
    chain.length ≤ root.descendantDepth := by
  induction chain generalizing root with
  | nil => exact Nat.zero_le _
  | cons target rest ih =>
    rw [List.isChain_cons_cons] at h
    have hlt := h.1.depth_lt
    have hrest := ih h.2
    rw [List.length_cons]
    omega

end CompiledGraph

/-- Delegation is finite: along every chain of validated targets the depth limit decreases
strictly, so no graph occurs twice and the root's limit bounds the delegations.  And a
policy is looked up by node and slot: it holds what was declared for the pair, and
declarations in any order make the same policy and the same graph, or none. -/
theorem delegation_is_finite :
    (∀ (root : CompiledGraph E) (chain : List (CompiledGraph E)),
      (root :: chain).IsChain CompiledGraph.Delegates →
        (root :: chain).Pairwise (fun graph target =>
          target.descendantDepth < graph.descendantDepth) ∧
        (root :: chain).Nodup ∧ chain.length ≤ root.descendantDepth) ∧
    (∀ (limits : ChildRunTopologyLimits) (declarations : List ChildRunDeclaration)
      (policy : GraphChildRunPolicy),
      GraphChildRunPolicy.new limits declarations = .ok policy →
        ∀ node slot value, policy.declaration node slot = some value ↔
          value ∈ declarations ∧ value.nodeId = node ∧ value.slot = slot) ∧
    ∀ (limits : ChildRunTopologyLimits) (declarations declarations' : List ChildRunDeclaration),
      declarations.Perm declarations' →
        (GraphChildRunPolicy.new limits declarations').toOption =
          (GraphChildRunPolicy.new limits declarations).toOption ∧
        ∀ graph : CompiledGraph E,
          graph.declaring limits declarations' = graph.declaring limits declarations := by
  refine ⟨fun root chain h => ⟨CompiledGraph.depth_decreases h, CompiledGraph.chain_nodup h,
    CompiledGraph.chain_length_le h⟩, fun limits declarations policy h node slot value =>
    GraphChildRunPolicy.declaration_of_new h, ?_⟩
  intro limits declarations declarations' hperm
  have hsame : (GraphChildRunPolicy.new limits declarations').toOption =
      (GraphChildRunPolicy.new limits declarations).toOption := by
    ext policy
    rw [toOption_eq_some, toOption_eq_some]
    exact ⟨GraphChildRunPolicy.new_of_perm hperm.symm, GraphChildRunPolicy.new_of_perm hperm⟩
  refine ⟨hsame, fun graph => ?_⟩
  rw [CompiledGraph.declaring, CompiledGraph.declaring, hsame]

namespace Sample

/-- A graph of one node, which ends the run. -/
def single : Option (CompiledGraph .compact) := do
  let node ← (GraphNode.new ⟨"node"⟩ none .empty none true).toOption
  compile [⟨"node"⟩] [node] 1

/-- A target for a slot of the node. -/
def declaration (target : CompiledGraph .compact) (slot : String) : ChildRunDeclaration :=
  ⟨⟨"node"⟩, ⟨slot⟩, ⟨identity, ⟨[]⟩⟩, target.reference, schema, schema⟩

/-- A graph that may delegate to the target in two slots. -/
def delegatingTo (depth : Nat) (slots : List String) (target : CompiledGraph .compact) :
    Option (CompiledGraph .compact) := do
  let graph ← single
  let limits ← (ChildRunTopologyLimits.new depth 2 2).toOption
  graph.declaring limits (slots.map (declaration target))

theorem delegates_of_any {graph target : CompiledGraph E}
    (h : (graph.childRuns.any fun policy => policy.declarations.any fun declaration =>
      (declaration.validateTarget target policy.limits).toOption = some ()) = true) :
    graph.Delegates target := by
  obtain ⟨policy, hpolicy, hany⟩ := (Option.any_eq_true _ _).mp h
  obtain ⟨declaration, hmem, hvalid⟩ := List.any_eq_true.mp hany
  exact ⟨policy, hpolicy, declaration, hmem, toOption_eq_some.mp (of_decide_eq_true hvalid)⟩

end Sample

/-- Two delegations one after the other; the slots may be declared in either order. -/
theorem delegation_is_finite_two_delegations :
    ∃ root middle leaf : CompiledGraph .compact,
      root.Delegates middle ∧ middle.Delegates leaf ∧ [root, middle, leaf].Nodup ∧
      Sample.delegatingTo 2 ["first", "second"] middle = some root ∧
      Sample.delegatingTo 2 ["second", "first"] middle = some root := by
  have hsome : (Sample.single.any fun leaf =>
      (Sample.delegatingTo 1 ["slot"] leaf).any fun middle =>
      (Sample.delegatingTo 2 ["first", "second"] middle).any fun root =>
      (root.childRuns.any fun policy => policy.declarations.any fun declaration =>
        (declaration.validateTarget middle policy.limits).toOption = some ()) ∧
      middle.childRuns.any fun policy => policy.declarations.any fun declaration =>
        (declaration.validateTarget leaf policy.limits).toOption = some ()) = true := by
    decide +kernel
  obtain ⟨leaf, _, hsome⟩ := (Option.any_eq_true _ _).mp hsome
  obtain ⟨middle, _, hsome⟩ := (Option.any_eq_true _ _).mp hsome
  obtain ⟨root, hroot, hvalid⟩ := (Option.any_eq_true _ _).mp hsome
  obtain ⟨hroot_any, hmiddle_any⟩ := of_decide_eq_true hvalid
  have hfirst := Sample.delegates_of_any hroot_any
  have hsecond := Sample.delegates_of_any hmiddle_any
  obtain ⟨hchains, _, horder⟩ := delegation_is_finite (E := .compact)
  have hchain := hchains root [middle, leaf] (.cons_cons hfirst (.cons_cons hsecond (.singleton _)))
  refine ⟨root, middle, leaf, hfirst, hsecond, hchain.2.1, hroot, ?_⟩
  have hswap : ∀ limits graph, CompiledGraph.declaring graph limits
      (["second", "first"].map (Sample.declaration middle)) =
        graph.declaring limits (["first", "second"].map (Sample.declaration middle)) :=
    fun limits graph => (horder limits _ _ (.swap _ _ _)).2 graph
  simp only [Sample.delegatingTo, hswap]
  exact hroot

end StateKnot
