import StateKnot.Identity

/-!
# Capability metadata

What a capability publishes about itself: its identity and kind, texts for people,
where its version stands in its lifecycle, the scopes a caller needs, and
namespaced extensions.  A capability never names itself as its own replacement.
-/

namespace StateKnot

open Lib

/-! ## Owner and reference -/

def PrincipalIdentity.toJson (principal : PrincipalIdentity) : Json :=
  .obj [("issuer", principal.issuer.toJson), ("subject", principal.subject.toJson)]

structure CapabilityReference where
  name : Ident .capabilityName
  version : Version
deriving DecidableEq

def CapabilityReference.toJson (reference : CapabilityReference) : Json :=
  .obj [("name", reference.name.toJson), ("version", reference.version.toJson)]

namespace CapabilityIdentity

def owner (identity : CapabilityIdentity) : PrincipalIdentity :=
  ⟨identity.issuer, identity.subject⟩

def capability (identity : CapabilityIdentity) : CapabilityReference :=
  ⟨identity.name, identity.version⟩

end CapabilityIdentity

/-! ## Lifecycle -/

inductive CapabilityKind where
  | model | tool | agent | workflow | application
deriving DecidableEq

def CapabilityKind.text : CapabilityKind → String
  | .model => "model"
  | .tool => "tool"
  | .agent => "agent"
  | .workflow => "workflow"
  | .application => "application"

/-- Where a capability version stands.  A published sunset lies after its announcement. -/
inductive CapabilityLifecycle where
  | active
  | deprecated (announcedAt : Timestamp) (sunsetAt : Option Timestamp)
      (notice : Ident .capabilityDescription) (replacement : Option CapabilityIdentity)
      (ordered : ∀ instant ∈ sunsetAt, announcedAt < instant)
  | retired (retiredAt : Timestamp) (notice : Ident .capabilityDescription)
      (replacement : Option CapabilityIdentity)
deriving DecidableEq

inductive CapabilityLifecycleState where
  | active | deprecated | retired
deriving DecidableEq

namespace CapabilityLifecycle

def state : CapabilityLifecycle → CapabilityLifecycleState
  | .active => .active
  | .deprecated .. => .deprecated
  | .retired .. => .retired

def replacement : CapabilityLifecycle → Option CapabilityIdentity
  | .active => none
  | .deprecated _ _ _ replacement _ => replacement
  | .retired _ _ replacement => replacement

def toJson (E : Encoding) : CapabilityLifecycle → Json
  | .active => .obj [("status", .str "active")]
  | .deprecated announcedAt sunsetAt notice replacement _ =>
    .obj ([("status", .str "deprecated"), ("announced_at", E.timestampJson announcedAt)] ++
      Json.optionalMember "sunset_at" E.timestampJson sunsetAt ++
      [("notice", notice.toJson)] ++
      Json.optionalMember "replacement" CapabilityIdentity.toJson replacement)
  | .retired retiredAt notice replacement =>
    .obj ([("status", .str "retired"), ("retired_at", E.timestampJson retiredAt),
      ("notice", notice.toJson)] ++
      Json.optionalMember "replacement" CapabilityIdentity.toJson replacement)

end CapabilityLifecycle

/-! ## Scopes and extensions -/

abbrev Scope := Ident .scope

/-- A set of scopes, in ascending order. -/
structure ScopeSet where
  values : List Scope
  sorted : StrictlySorted id values
  bounded : values.length ≤ 128
deriving DecidableEq

theorem ScopeSet.sorted_nil : StrictlySorted id ([] : List Scope) := .nil

theorem ScopeSet.bounded_nil : ([] : List Scope).length ≤ 128 := by decide

def ScopeSet.isSubset (scopes other : ScopeSet) : Bool :=
  scopes.values.all (fun scope => scope ∈ other.values)

theorem ScopeSet.isSubset_iff {scopes other : ScopeSet} :
    scopes.isSubset other ↔ scopes.values ⊆ other.values := by
  simp only [isSubset, List.all_eq_true, decide_eq_true_eq, List.subset_def]

def ScopeSet.toJson (scopes : ScopeSet) : Json := .arr (scopes.values.map Ident.toJson)

inductive ExtensionValue where
  | opaqueValue (value : BoundedJson)
  | schemaBound (schema : SchemaReference) (value : BoundedJson)
deriving DecidableEq

namespace ExtensionValue

def value : ExtensionValue → BoundedJson
  | .opaqueValue value => value
  | .schemaBound _ value => value

def toJson : ExtensionValue → Json
  | .opaqueValue value => .obj [("kind", .str "opaque"), ("value", value.value)]
  | .schemaBound schema value =>
    .obj [("kind", .str "schema_bound"), ("schema", schema.toJson), ("value", value.value)]

end ExtensionValue

/-- Extension values by key, in ascending order of key.  Every value was read under the
default limits when it was inserted. -/
structure Extensions where
  entries : List (Ident .extensionKey × ExtensionValue)
  sorted : StrictlySorted Prod.fst entries
  bounded : entries.length ≤ 64
  restricted : ∀ entry ∈ entries, ∃ tree, BoundedJson.deserialize tree = .ok entry.2.value
deriving DecidableEq

namespace Extensions

def empty : Extensions := ⟨[], .nil, by simp, by simp⟩

def toJson (extensions : Extensions) : Json :=
  .obj (extensions.entries.map (fun entry => (entry.1.text, entry.2.toJson)))

end Extensions

/-! ## Metadata -/

inductive CapabilityMetadataError where
  | replacementIsSelf

structure CapabilityMetadata where
  identity : CapabilityIdentity
  kind : CapabilityKind
  title : Option (Ident .capabilityTitle)
  description : Ident .capabilityDescription
  lifecycle : CapabilityLifecycle
  requiredScopes : ScopeSet
  extensions : Extensions
  replacement_ne : lifecycle.replacement ≠ some identity
deriving DecidableEq

namespace CapabilityMetadata

def new (identity : CapabilityIdentity) (kind : CapabilityKind)
    (title : Option (Ident .capabilityTitle)) (description : Ident .capabilityDescription)
    (lifecycle : CapabilityLifecycle) (requiredScopes : ScopeSet) (extensions : Extensions) :
    Except CapabilityMetadataError CapabilityMetadata :=
  if h : lifecycle.replacement = some identity then
    .error .replacementIsSelf
  else
    .ok ⟨identity, kind, title, description, lifecycle, requiredScopes, extensions, h⟩

def toJson (E : Encoding) (metadata : CapabilityMetadata) : Json :=
  .obj ([("identity", metadata.identity.toJson), ("kind", .str metadata.kind.text)] ++
    Json.optionalMember "title" Ident.toJson metadata.title ++
    [("description", metadata.description.toJson), ("lifecycle", metadata.lifecycle.toJson E),
      ("required_scopes", metadata.requiredScopes.toJson),
      ("extensions", metadata.extensions.toJson)])

end CapabilityMetadata

end StateKnot
