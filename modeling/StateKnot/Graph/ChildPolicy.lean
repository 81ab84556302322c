import StateKnot.Graph.Node

/-!
# Child run policies

A graph may declare which nodes delegate to child runs.  A declaration pins the
child's agent, graph and schemas for one slot of one node; the policy bounds how
deep and how wide delegation goes.
-/

namespace StateKnot

open Lib

/-- Name of a delegation slot of a node. -/
abbrev ChildRunSlot := Ident .slot

inductive ChildRunPolicyError where
  | agentEncoding
  | invalidLimits
  | emptyDeclarations
  | tooManyDeclarations
  | tooManyNodeSlots
  | duplicateSlot
  | undeclaredParentNode
  | parentGraphMismatch
  | delegationNotDeclared
  | targetGraphMismatch
  | targetSchemaMismatch
  | targetAgentMismatch
  | depthNotNarrowed
deriving DecidableEq

/-- A child agent pinned by identity and definition digest. -/
structure ChildAgentReference where
  identity : CapabilityIdentity
  definitionDigest : Digest
deriving DecidableEq

def ChildAgentReference.toJson (agent : ChildAgentReference) : Json :=
  .obj [("identity", agent.identity.toJson), ("definition_digest", agent.definitionDigest.toJson)]

/-- One delegation slot with the child it may start. -/
structure ChildRunDeclaration where
  nodeId : NodeId
  slot : ChildRunSlot
  agent : ChildAgentReference
  graph : GraphReference
  inputSchema : SchemaReference
  outputSchema : SchemaReference

namespace ChildRunDeclaration

/-- Declarations are ordered by node, then by slot. -/
def key (declaration : ChildRunDeclaration) : NodeId ×ₗ ChildRunSlot :=
  toLex (declaration.nodeId, declaration.slot)

def toJson (declaration : ChildRunDeclaration) : Json :=
  .obj [("node_id", declaration.nodeId.toJson), ("slot", declaration.slot.toJson),
    ("agent", declaration.agent.toJson), ("graph", declaration.graph.toJson),
    ("input_schema", declaration.inputSchema.toJson),
    ("output_schema", declaration.outputSchema.toJson)]

end ChildRunDeclaration

/-- Bounds on the tree of child runs. -/
structure ChildRunTopologyLimits where
  maximumDescendantDepth : Nat
  maximumChildrenPerRun : Nat
  maximumActiveDescendants : Nat
  depth_ok : 1 ≤ maximumDescendantDepth ∧ maximumDescendantDepth ≤ 32
  children_ok : 1 ≤ maximumChildrenPerRun ∧ maximumChildrenPerRun ≤ 256
  active_ok : 1 ≤ maximumActiveDescendants ∧ maximumActiveDescendants ≤ 256

namespace ChildRunTopologyLimits

def new (depth children active : Nat) : Except ChildRunPolicyError ChildRunTopologyLimits :=
  if h : (1 ≤ depth ∧ depth ≤ 32) ∧ (1 ≤ children ∧ children ≤ 256) ∧ 1 ≤ active ∧ active ≤ 256
  then .ok ⟨depth, children, active, h.1, h.2.1, h.2.2⟩
  else .error .invalidLimits

def toJson (limits : ChildRunTopologyLimits) : Json :=
  .obj [("maximum_descendant_depth", .num (.int limits.maximumDescendantDepth)),
    ("maximum_children_per_run", .num (.int limits.maximumChildrenPerRun)),
    ("maximum_active_descendants", .num (.int limits.maximumActiveDescendants))]

end ChildRunTopologyLimits

namespace GraphChildRunPolicy

def maxDeclarations : Nat := 256
def maxSlotsPerNode : Nat := 64

/-- Number of declarations of one node. -/
def slotCount (declarations : List ChildRunDeclaration) (nodeId : NodeId) : Nat :=
  declarations.countP (·.nodeId = nodeId)

end GraphChildRunPolicy

/-- The delegation policy of a graph. -/
structure GraphChildRunPolicy where
  limits : ChildRunTopologyLimits
  declarations : List ChildRunDeclaration
  sorted : StrictlySorted ChildRunDeclaration.key declarations
  nonempty : declarations ≠ []
  bounded : declarations.length ≤ GraphChildRunPolicy.maxDeclarations
  slots_bounded : ∀ declaration ∈ declarations,
    GraphChildRunPolicy.slotCount declarations declaration.nodeId ≤
      GraphChildRunPolicy.maxSlotsPerNode

namespace GraphChildRunPolicy

/-- One turn of the loop of `new`. -/
def accept (ordered : List ChildRunDeclaration) (declaration : ChildRunDeclaration) :
    Except ChildRunPolicyError Unit := do
  reject (ordered.length = maxDeclarations) .tooManyDeclarations
  reject (slotCount ordered declaration.nodeId + 1 > maxSlotsPerNode) .tooManyNodeSlots
  reject (declaration.key ∈ ordered.map ChildRunDeclaration.key) .duplicateSlot

/-- What the loop of `new` establishes about the declarations it has seen. -/
structure Admissible (declarations : List ChildRunDeclaration) : Prop where
  bounded : declarations.length ≤ maxDeclarations
  keys_nodup : (declarations.map ChildRunDeclaration.key).Nodup
  slots_bounded : ∀ nodeId, slotCount declarations nodeId ≤ maxSlotsPerNode

theorem Admissible.of_append {seen rest : List ChildRunDeclaration}
    (h : Admissible (seen ++ rest)) : Admissible seen := by
  obtain ⟨hbounded, hkeys, hslots⟩ := h
  rw [List.length_append] at hbounded
  rw [List.map_append] at hkeys
  refine ⟨by omega, hkeys.of_append_left, fun nodeId => ?_⟩
  have := hslots nodeId
  rw [slotCount, List.countP_append] at this
  rw [slotCount]
  omega

theorem accept_eq_ok {ordered : List ChildRunDeclaration} {declaration : ChildRunDeclaration}
    {u : Unit} (hordered : Admissible ordered) :
    accept ordered declaration = .ok u ↔ Admissible (ordered ++ [declaration]) := by
  have hbounded := hordered.bounded
  simp only [accept, bind_eq_ok, reject_eq_ok, exists_and_left, exists_const]
  constructor
  · rintro ⟨hlength, hslots, hkey⟩
    refine ⟨by simp only [List.length_append, List.length_singleton]; omega,
      nodup_map_append_singleton.mpr ⟨hordered.keys_nodup, hkey⟩, fun nodeId => ?_⟩
    have := hordered.slots_bounded nodeId
    simp only [slotCount, List.countP_append, List.countP_singleton] at this hslots ⊢
    split
    · simp_all
    · omega
  · rintro ⟨hlength, hkeys, hslots⟩
    have := hslots declaration.nodeId
    simp only [slotCount, List.countP_append, List.countP_singleton, List.length_append,
      List.length_singleton, decide_true, if_true] at this hlength ⊢
    exact ⟨by omega, by omega, (nodup_map_append_singleton.mp hkeys).2⟩

theorem collect_accept_eq_ok {declarations values : List ChildRunDeclaration} :
    collect accept [] declarations = .ok values ↔
      values = declarations ∧ Admissible declarations :=
  collect_eq_ok_iff Admissible Admissible.of_append accept_eq_ok ⟨by simp, by simp, by simp [slotCount]⟩

def new (limits : ChildRunTopologyLimits) (declarations : List ChildRunDeclaration) :
    Except ChildRunPolicyError GraphChildRunPolicy :=
  attach (collect accept [] declarations) fun ordered h =>
    if hempty : ordered = [] then .error .emptyDeclarations
    else .ok ⟨limits, sortByKey ChildRunDeclaration.key ordered,
      strictlySorted_sortByKey (by
        obtain ⟨rfl, hadmissible⟩ := collect_accept_eq_ok.mp h
        exact hadmissible.keys_nodup),
      fun hnil => hempty (by simpa [← List.length_eq_zero_iff] using hnil),
      by
        obtain ⟨rfl, hadmissible⟩ := collect_accept_eq_ok.mp h
        simpa using hadmissible.bounded,
      by
        obtain ⟨rfl, hadmissible⟩ := collect_accept_eq_ok.mp h
        intro declaration _
        rw [slotCount, (sortByKey_perm _ _).countP_eq]
        exact hadmissible.slots_bounded declaration.nodeId⟩

/-- Lookup by node and slot. -/
def declaration (policy : GraphChildRunPolicy) (node : NodeId) (slot : ChildRunSlot) :
    Option ChildRunDeclaration :=
  binarySearchBy (fun value => compare value.key (toLex (node, slot))) policy.declarations

def toJson (policy : GraphChildRunPolicy) : Json :=
  .obj [("version", .num (.int 1)), ("limits", policy.limits.toJson),
    ("declarations", .arr (policy.declarations.map ChildRunDeclaration.toJson))]

end GraphChildRunPolicy

end StateKnot
