import StateKnot.Capability
import StateKnot.Budget.Amounts

/-!
# Artifact references

An artifact is content kept outside the journal.  A reference names it within its
tenant, describes its bytes by length and digest, and says who produced it in
which run.
-/

namespace StateKnot

open Lib

variable {E : Encoding}

/-! ## Content metadata -/

inductive ContentSource where
  | application | user | model | tool | remoteAgent | artifact
deriving DecidableEq

def ContentSource.text : ContentSource → String
  | .application => "application"
  | .user => "user"
  | .model => "model"
  | .tool => "tool"
  | .remoteAgent => "remote_agent"
  | .artifact => "artifact"

inductive ContentTrust where
  | applicationControlled | untrusted
deriving DecidableEq

def ContentTrust.text : ContentTrust → String
  | .applicationControlled => "application_controlled"
  | .untrusted => "untrusted"

inductive RedactionState where
  | notApplied | partially | full
deriving DecidableEq

def RedactionState.text : RedactionState → String
  | .notApplied => "not_applied"
  | .partially => "partial"
  | .full => "full"

structure ContentMetadata where
  source : ContentSource
  trust : ContentTrust
  securityLabel : Ident .securityLabel
  redaction : RedactionState
deriving DecidableEq

def ContentMetadata.toJson (metadata : ContentMetadata) : Json :=
  .obj [("source", .str metadata.source.text), ("trust", .str metadata.trust.text),
    ("security_label", metadata.securityLabel.toJson),
    ("redaction", .str metadata.redaction.text)]

/-! ## Parts of a reference -/

abbrev ArtifactId := Ident .artifact

structure ArtifactIdentity where
  tenantId : TenantId
  artifactId : ArtifactId
deriving DecidableEq

def ArtifactIdentity.toJson (identity : ArtifactIdentity) : Json :=
  .obj [("tenant_id", identity.tenantId.toJson), ("artifact_id", identity.artifactId.toJson)]

structure ArtifactPresentation where
  name : Ident .artifactName
  description : Option (Ident .artifactDescription)
deriving DecidableEq

def ArtifactPresentation.toJson (presentation : ArtifactPresentation) : Json :=
  .obj ([("name", presentation.name.toJson)] ++
    Json.optionalMember "description" Ident.toJson presentation.description)

inductive ArtifactModality where
  | text | image | audio | video | document | structuredData | archive | binary
deriving DecidableEq

def ArtifactModality.name : ArtifactModality → String
  | .text => "text"
  | .image => "image"
  | .audio => "audio"
  | .video => "video"
  | .document => "document"
  | .structuredData => "structured_data"
  | .archive => "archive"
  | .binary => "binary"

inductive ArtifactRepresentationError where
  | emptyDigestMismatch
  | schemaRequiresStructuredData

def validateRepresentation (E : Encoding) (modality : ArtifactModality) (byteLength : Count)
    (digest : Digest) (schema : Option SchemaReference) :
    Except ArtifactRepresentationError Unit := do
  reject (byteLength = 0 ∧ digest ≠ E.sha256 []) .emptyDigestMismatch
  reject (schema.isSome ∧ modality ≠ .structuredData) .schemaRequiresStructuredData

structure ArtifactRepresentation (E : Encoding) where
  mediaType : Ident .mediaType
  modality : ArtifactModality
  byteLength : Count
  digest : Digest
  schema : Option SchemaReference
  representation_ok : validateRepresentation E modality byteLength digest schema = .ok ()
deriving DecidableEq

namespace ArtifactRepresentation

def new (mediaType : Ident .mediaType) (modality : ArtifactModality) (byteLength : Count)
    (digest : Digest) (schema : Option SchemaReference) :
    Except ArtifactRepresentationError (ArtifactRepresentation E) :=
  attach (validateRepresentation E modality byteLength digest schema) fun _ h =>
    .ok ⟨mediaType, modality, byteLength, digest, schema, h⟩

def toJson (representation : ArtifactRepresentation E) : Json :=
  .obj ([("media_type", representation.mediaType.toJson),
    ("modality", .str representation.modality.name),
    ("byte_length", representation.byteLength.toJson),
    ("digest", representation.digest.toJson)] ++
    Json.optionalMember "schema" SchemaReference.toJson representation.schema)

end ArtifactRepresentation

structure ArtifactProvenance where
  principal : PrincipalIdentity
  capability : Option CapabilityReference
  runId : RunId
  eventId : EventId
deriving DecidableEq

def ArtifactProvenance.toJson (provenance : ArtifactProvenance) : Json :=
  .obj ([("principal", provenance.principal.toJson)] ++
    Json.optionalMember "capability" CapabilityReference.toJson provenance.capability ++
    [("run_id", provenance.runId.toJson), ("event_id", provenance.eventId.toJson)])

/-- The direct parents of an artifact, in ascending order. -/
structure ArtifactParents where
  values : List ArtifactId
  sorted : StrictlySorted id values
  bounded : values.length ≤ 32
deriving DecidableEq

def ArtifactParents.toJson (parents : ArtifactParents) : Json :=
  .arr (parents.values.map Ident.toJson)

/-! ## References -/

inductive ArtifactRefError where
  | invalidContentSource (actual : ContentSource)
  | selfParent

def validateArtifactRef (identity : ArtifactIdentity) (metadata : ContentMetadata)
    (parents : ArtifactParents) : Except ArtifactRefError Unit := do
  reject (metadata.source ≠ .artifact) (.invalidContentSource metadata.source)
  reject (identity.artifactId ∈ parents.values) .selfParent

structure ArtifactRef (E : Encoding) where
  identity : ArtifactIdentity
  presentation : ArtifactPresentation
  representation : ArtifactRepresentation E
  metadata : ContentMetadata
  retentionClass : Ident .retentionClass
  provenance : ArtifactProvenance
  parents : ArtifactParents
  ref_ok : validateArtifactRef identity metadata parents = .ok ()
deriving DecidableEq

namespace ArtifactRef

def new (identity : ArtifactIdentity) (presentation : ArtifactPresentation)
    (representation : ArtifactRepresentation E) (metadata : ContentMetadata)
    (retentionClass : Ident .retentionClass) (provenance : ArtifactProvenance)
    (parents : ArtifactParents) : Except ArtifactRefError (ArtifactRef E) :=
  attach (validateArtifactRef identity metadata parents) fun _ h =>
    .ok ⟨identity, presentation, representation, metadata, retentionClass, provenance, parents, h⟩

def toJson (artifact : ArtifactRef E) : Json :=
  .obj [("identity", artifact.identity.toJson), ("presentation", artifact.presentation.toJson),
    ("representation", artifact.representation.toJson), ("metadata", artifact.metadata.toJson),
    ("retention_class", artifact.retentionClass.toJson),
    ("provenance", artifact.provenance.toJson), ("parents", artifact.parents.toJson)]

end ArtifactRef

end StateKnot
