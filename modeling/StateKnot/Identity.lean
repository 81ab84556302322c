import Mathlib
import StateKnot.Encoding

/-!
# Identities, ordinals and pinned references

Identifiers are validated texts that are only compared, ordered and printed;
one type indexed by its kind covers them.  Ordinals are database positions
bounded by the signed 64-bit range.  References pin schemas and graphs by
digest.  Every type comes with its JSON encoding and the fact that the
canonical form of the encoding determines the value.
-/

namespace StateKnot

open Lib

/-! ## Identifiers -/

/-- The kinds of identifiers the modelled code tells apart. -/
inductive IdentKind where
  | tenant | run | event | attempt | nodeAttempt | checkpoint | node | route | namespace
  | schema | version | issuer | subject | capabilityName | eventKind | interrupt | timer | slot
  | scope | failure | failureCode | failureOrigin | failureMessage | currency
  | invocation | capabilityTitle | capabilityDescription | extensionKey | securityLabel
  | artifact | artifactName | artifactDescription | mediaType | retentionClass | thread
  | message | instructionName | providerToolCall | providerResponse | providerModel
  | delivery | destination | schedulerShard | languageTag | providerRequest | replayFormat

/-- A validated identifier.  Texts of one kind are ordered bytewise. -/
structure Ident (kind : IdentKind) where
  text : String
deriving DecidableEq

instance {kind : IdentKind} : LawfulBEq (Ident kind) := inferInstance

abbrev TenantId := Ident .tenant
abbrev RunId := Ident .run
abbrev EventId := Ident .event
abbrev AttemptId := Ident .attempt
abbrev CheckpointId := Ident .checkpoint
abbrev NodeId := Ident .node
abbrev RouteId := Ident .route
abbrev GraphNamespace := Ident .namespace
abbrev SchemaId := Ident .schema
abbrev Version := Ident .version

namespace Ident

variable {kind : IdentKind}

theorem text_injective : Function.Injective (text : Ident kind → String) := by
  intro a b h
  cases a
  cases b
  simpa using h

instance : LinearOrder (Ident kind) := LinearOrder.lift' text text_injective

theorem lt_iff {a b : Ident kind} : a < b ↔ a.text < b.text := Iff.rfl

/-- Identifiers are serialized as their text. -/
def toJson (id : Ident kind) : Json := .str id.text

@[simp] theorem rfc8785_inj {a b : Ident kind} :
    a.toJson.rfc8785 = b.toJson.rfc8785 ↔ a = b := by
  simp [toJson, text_injective.eq_iff]

end Ident

/-- The root graph namespace. -/
def GraphNamespace.root : GraphNamespace := ⟨""⟩

/-- Invalid node or route identity text. -/
inductive IdentTextError where
  | empty
  | tooLong (max actual : Nat)
  | pathLike
  | invalidByte (index : Nat)

/-- `char::is_ascii_alphanumeric`. -/
def isAsciiAlphanumeric (c : Char) : Bool :=
  ('a' ≤ c && c ≤ 'z') || ('A' ≤ c && c ≤ 'Z') || ('0' ≤ c && c ≤ '9')

/-- The grammar of `validate_node_id` and `validate_route_id`: a nonempty text of at
most 128 bytes that starts with an alphanumeric byte and continues with those or
with `.`, `_`, `-`, and is not a path component. -/
def validateIdentText (value : String) : Except IdentTextError Unit := do
  reject (value = "") .empty
  reject (value.utf8ByteSize > 128) (.tooLong 128 value.utf8ByteSize)
  reject (value = "." ∨ value = "..") .pathLike
  reject (value.toList.head?.any (fun c => !isAsciiAlphanumeric c)) (.invalidByte 0)
  let invalid := fun c => !isAsciiAlphanumeric c && c != '.' && c != '_' && c != '-'
  match value.toList.findIdx? invalid with
  | some index => .error (.invalidByte index)
  | none => return ()

/-- `NodeId::new`. -/
def NodeId.new (value : String) : Except IdentTextError NodeId := do
  validateIdentText value
  return ⟨value⟩

/-- `RouteId::new`. -/
def RouteId.new (value : String) : Except IdentTextError RouteId := do
  validateIdentText value
  return ⟨value⟩

/-! ## Ordinals -/

/-- Largest signed 64-bit integer, the storage bound of every ordinal. -/
def maxDatabaseOrdinal : Nat := 9223372036854775807

/-- A database position counted from `first`. -/
structure Ordinal (first : Nat) where
  value : Nat
  lower : first ≤ value
  upper : value ≤ maxDatabaseOrdinal

/-- Event position in a run journal; the first event is one. -/
abbrev JournalSequence := Ordinal 1
/-- Fencing epoch of a run lease; the first claim is one. -/
abbrev FencingEpoch := Ordinal 1
/-- Barrier position of a checkpoint; the initial checkpoint is zero. -/
abbrev Superstep := Ordinal 0

namespace Ordinal

variable {first : Nat}

theorem value_injective : Function.Injective (value : Ordinal first → Nat) := by
  intro a b h
  cases a
  cases b
  simpa using h

instance : DecidableEq (Ordinal first) := fun a b =>
  decidable_of_iff (a.value = b.value) value_injective.eq_iff

instance : LinearOrder (Ordinal first) := LinearOrder.lift' value value_injective

variable {a b : Ordinal first}

theorem le_iff : a ≤ b ↔ a.value ≤ b.value := Iff.rfl

theorem lt_iff : a < b ↔ a.value < b.value := Iff.rfl

/-- A literal position: its bounds are evaluated where it is written. -/
def ofNat (value : Nat)
    (h : decide (first ≤ value ∧ value ≤ maxDatabaseOrdinal) = true := by exact Eq.refl true) :
    Ordinal first :=
  ⟨value, (of_decide_eq_true h).1, (of_decide_eq_true h).2⟩

/-- The exact successor, or `none` at the storage limit. -/
def checkedNext (ordinal : Ordinal first) : Option (Ordinal first) :=
  if h : ordinal.value = maxDatabaseOrdinal then none
  else some ⟨ordinal.value + 1, by have := ordinal.lower; omega, by
    have := ordinal.upper; omega⟩

theorem checkedNext_eq_some : a.checkedNext = some b ↔ b.value = a.value + 1 := by
  unfold checkedNext
  have hupper := b.upper
  split
  · simp only [reduceCtorEq, false_iff]
    omega
  · rw [Option.some.injEq, ← value_injective.eq_iff, eq_comm]

/-- Ordinals are serialized as decimal strings. -/
def toJson (ordinal : Ordinal first) : Json := .str (Nat.repr ordinal.value)

@[simp] theorem rfc8785_inj : a.toJson.rfc8785 = b.toJson.rfc8785 ↔ a = b := by
  simp [toJson, Nat.repr_inj, value_injective.eq_iff]

end Ordinal

def JournalSequence.first : JournalSequence := ⟨1, by decide, by decide⟩
def FencingEpoch.first : FencingEpoch := ⟨1, by decide, by decide⟩
def Superstep.initial : Superstep := ⟨0, by decide, by decide⟩

/-! ## JSON of digests and instants -/

namespace Digest

def toJson (digest : Digest) : Json := .str digest.text

@[simp] theorem rfc8785_inj {a b : Digest} :
    a.toJson.rfc8785 = b.toJson.rfc8785 ↔ a = b := by
  simp [toJson, text_injective.eq_iff]

end Digest

namespace Encoding

variable {E : Encoding}

def timestampJson (E : Encoding) (instant : Timestamp) : Json := .str (E.timestampText instant)

theorem Faithful.timestampJson_rfc8785_inj (hE : E.Faithful) {a b : Timestamp} :
    (E.timestampJson a).rfc8785 = (E.timestampJson b).rfc8785 ↔ a = b := by
  simp [timestampJson, hE.timestampText_injective.eq_iff]

end Encoding

/-- An optional field that is serialized as `null` when absent. -/
def Json.ofOption {α : Type} (toJson : α → Json) : Option α → Json
  | none => .null
  | some a => toJson a

/-- An object member that is left out when the value is absent. -/
def Json.optionalMember {α : Type} (name : String) (toJson : α → Json) :
    Option α → List (String × Json)
  | none => []
  | some a => [(name, toJson a)]

theorem Json.ofOption_str_rfc8785_inj {α : Type} {text : α → String}
    (htext : Function.Injective text) {a b : Option α} :
    (Json.ofOption (fun x => .str (text x)) a).rfc8785 =
      (Json.ofOption (fun x => .str (text x)) b).rfc8785 ↔ a = b := by
  cases a <;> cases b <;> simp [Json.ofOption, htext.eq_iff]

/-! ## Pinned references -/

/-- A schema pinned by identity, version and content digest. -/
structure SchemaReference where
  id : SchemaId
  version : Version
  digest : Digest
deriving DecidableEq

namespace SchemaReference

def toJson (schema : SchemaReference) : Json :=
  .obj [("id", schema.id.toJson), ("version", schema.version.toJson),
    ("digest", schema.digest.toJson)]

@[simp] theorem rfc8785_inj {a b : SchemaReference} :
    a.toJson.rfc8785 = b.toJson.rfc8785 ↔ a = b := by
  refine Iff.trans (Json.rfc8785_obj_inj rfl (by simp)) ?_
  cases a
  cases b
  simp

end SchemaReference

/-- A principal of an issuer. -/
structure PrincipalIdentity where
  issuer : Ident .issuer
  subject : Ident .subject
deriving DecidableEq

/-- Owner-qualified identity of a published capability. -/
structure CapabilityIdentity where
  issuer : Ident .issuer
  subject : Ident .subject
  name : Ident .capabilityName
  version : Version
deriving DecidableEq

/-- The owner and the capability reference are nested objects on the wire. -/
def CapabilityIdentity.toJson (identity : CapabilityIdentity) : Json :=
  .obj [
    ("owner", .obj [("issuer", identity.issuer.toJson), ("subject", identity.subject.toJson)]),
    ("capability", .obj [("name", identity.name.toJson), ("version", identity.version.toJson)])]

/-- Exact graph definition and state schema required to resume a checkpoint. -/
structure GraphReference where
  identity : CapabilityIdentity
  definitionDigest : Digest
  stateSchema : SchemaReference
deriving DecidableEq

def GraphReference.toJson (graph : GraphReference) : Json :=
  .obj [("identity", graph.identity.toJson),
    ("definition_digest", graph.definitionDigest.toJson),
    ("state_schema", graph.stateSchema.toJson)]

end StateKnot
