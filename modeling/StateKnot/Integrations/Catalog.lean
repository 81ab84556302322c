import StateKnot.Encoding
import StateKnot.Lib.Digits
import StateKnot.Lib.PrefixCode

/-!
# Catalogs of the MCP server

A server lists its tools, its resources and its resource templates in pages.  A principal
sees the entries whose scopes it holds.  The cursor of the next page names the digest of the
catalog, a tag of the principal and the position of the next entry; the server accepts it
only with the digest and the tag that it would issue itself.

The three listings are one function with parameters.  The protocol form of an entry, its
handler and its validators are left out: a page is a list of definitions.
-/

namespace StateKnot

open Lib

variable {E : Encoding}

/-! ## Principals -/

inductive McpServerPrincipalError where
  | invalidScope

inductive McpServerTextError where
  | empty
  | tooLong
  | boundaryWhitespace
  | controlCharacter

/-- `char::is_control`. -/
def isControl (c : Char) : Bool := c.val ≤ 0x1f || (0x7f ≤ c.val && c.val ≤ 0x9f)

/-- `char::is_whitespace`. -/
def isWhitespace (c : Char) : Bool :=
  (0x9 ≤ c.val && c.val ≤ 0xd) || c.val == 0x20 || c.val == 0x85 || c.val == 0xa0 ||
    c.val == 0x1680 || (0x2000 ≤ c.val && c.val ≤ 0x200a) || c.val == 0x2028 ||
    c.val == 0x2029 || c.val == 0x202f || c.val == 0x205f || c.val == 0x3000

/-- `str::trim`. -/
def trimmed (text : List Char) : List Char :=
  ((text.dropWhile isWhitespace).reverse.dropWhile isWhitespace).reverse

def validateDisplayValue (value : String) (maximum : Nat) : Except McpServerTextError Unit := do
  reject (value = "") .empty
  reject (value.utf8ByteSize > maximum) .tooLong
  reject (trimmed value.toList ≠ value.toList) .boundaryWhitespace
  reject (value.toList.any isControl) .controlCharacter

/-- The bytes of a scope token. -/
def isScopeByte (byte : UInt8) : Bool :=
  byte == 0x21 || (0x23 ≤ byte && byte ≤ 0x5b) || (0x5d ≤ byte && byte ≤ 0x7e)

def McpServerPrincipal.validateScope (scope : String) : Except McpServerPrincipalError Unit :=
  reject (scope = "" ∨ scope.utf8ByteSize > 256 ∨
    (utf8 scope.toList).any (fun byte => !isScopeByte byte)) .invalidScope

/-- An authenticated identity with its scopes in ascending order. -/
structure McpServerPrincipal where
  subject : String
  scopes : List String
  subject_valid : validateDisplayValue subject 512 = .ok ()
  scopes_valid : ∀ scope ∈ scopes, McpServerPrincipal.validateScope scope = .ok ()
  sorted : StrictlySorted id scopes
  bounded : scopes.length ≤ 128

def McpServerPrincipal.hasScope (principal : McpServerPrincipal) (scope : String) : Bool :=
  (binarySearchBy (fun candidate => compare candidate scope) principal.scopes).isSome

/-! ## Services -/

inductive McpServerCacheScope where
  | publicScope
  | privateScope

structure McpServerApplicationOptions where
  pageSize : Nat
  cacheScope : McpServerCacheScope
  pageSize_positive : 0 < pageSize

/-! ## Cursors -/

/-- A protocol error for the caller. -/
inductive ErrorData where
  | invalidParams (message : String)

inductive ListingKind where
  | tools
  | resources
  | templates

namespace ListingKind

/-- The part of a cursor that names the listing. -/
def segment : ListingKind → List String
  | .tools => []
  | .resources => ["resources"]
  | .templates => ["templates"]

def maxCursorBytes : ListingKind → Nat
  | .tools => 192
  | .resources | .templates => 224

def invalidCursor : ListingKind → ErrorData
  | .tools => .invalidParams "Invalid tool catalog cursor"
  | .resources | .templates => .invalidParams "Invalid resource catalog cursor"

end ListingKind

/-- What the tag of a principal is the digest of. -/
def McpServerPrincipal.material (principal : McpServerPrincipal) : List UInt8 :=
  utf8 principal.subject.toList ++
    principal.scopes.flatMap (fun scope => lengthPrefixed 8 (utf8 scope.toList))

def scopeTag (E : Encoding) (cacheScope : McpServerCacheScope) (principal : McpServerPrincipal) :
    String :=
  match cacheScope with
  | .publicScope => "public"
  | .privateScope => (E.sha256 principal.material).hex

/-- A plus sign may precede the digits of a number. -/
def stripPlus : List UInt8 → List UInt8
  | 43 :: first :: rest => first :: rest
  | bytes => bytes

/-- `usize::from_str`. -/
def parseUsize (bytes : List UInt8) : Option Nat :=
  let digits := stripPlus bytes
  if digits = [] ∨ digits.any (fun byte => !isDigit byte) then none
  else if digitsValue digits > 18446744073709551615 then none
  else some (digitsValue digits)

/-- The parts of a cursor that come before the position. -/
def cursorHead (kind : ListingKind) (digest tag : String) : List String :=
  "v1" :: kind.segment ++ [digest, tag]

def pageCursor (kind : ListingKind) (digest tag : String) (offset : Nat) : String :=
  String.intercalate "." (cursorHead kind digest tag ++ [toString offset])

def parseCursor (kind : ListingKind) (digest tag : String) (cursor : String) :
    Except ErrorData Nat := do
  reject (cursor.utf8ByteSize > kind.maxCursorBytes) kind.invalidCursor
  let head := (cursorHead kind digest tag).map String.toList
  let parts := cursor.toList.splitOn '.'
  let valid : Bool := parts.take head.length = head
  let offset := (parts[head.length]?).bind fun part => parseUsize (utf8 part)
  reject (!valid ∨ offset = none ∨ head.length + 1 < parts.length) kind.invalidCursor
  okOr offset kind.invalidCursor

/-! ## Pages -/

/-- What a listing reads: the entries of a catalog in their order, the scopes that an entry
requires, the digest of the catalog and the options of the server. -/
structure Listing (α : Type) where
  kind : ListingKind
  entries : List α
  requiredScopes : α → List String
  digest : Digest
  options : McpServerApplicationOptions

namespace Listing

variable {α : Type}

def isVisible (listing : Listing α) (principal : McpServerPrincipal) (entry : α) : Bool :=
  (listing.requiredScopes entry).all principal.hasScope

def tag (listing : Listing α) (E : Encoding) (principal : McpServerPrincipal) : String :=
  scopeTag E listing.options.cacheScope principal

def accepts (listing : Listing α) (E : Encoding) (principal : McpServerPrincipal)
    (cursor : String) : Except ErrorData Nat :=
  parseCursor listing.kind listing.digest.hex (listing.tag E principal) cursor

/-- The position of the page that is asked for. -/
def startOf (listing : Listing α) (E : Encoding) (principal : McpServerPrincipal) :
    Option String → Except ErrorData Nat
  | none => .ok 0
  | some cursor => listing.accepts E principal cursor

def page (listing : Listing α) (E : Encoding) (principal : McpServerPrincipal)
    (cursor : Option String) : Except ErrorData (List α × Option String) := do
  let visible := listing.entries.filter (listing.isVisible principal)
  let start ← listing.startOf E principal cursor
  reject (start > visible.length) listing.kind.invalidCursor
  let stop := min (min (start + listing.options.pageSize) 18446744073709551615) visible.length
  let next :=
    if stop < visible.length then
      some (pageCursor listing.kind listing.digest.hex (listing.tag E principal) stop)
    else none
  return ((visible.drop start).take (stop - start), next)

end Listing

/-! ## Tools -/

structure McpServerToolDefinition where
  name : String
  inputSchema : Json
  outputSchema : Option Json
  requiredScopes : List String

/-- The part of a tool in the digest of its registry. -/
def McpServerToolDefinition.material (E : Encoding) (tool : McpServerToolDefinition) :
    Option (List UInt8) := do
  let input ← E.toVec tool.inputSchema
  let output ←
    match tool.outputSchema with
    | some schema => E.toVec schema
    | none => some []
  return lengthPrefixed 8 (utf8 tool.name.toList) ++ lengthPrefixed 8 input ++
    lengthPrefixed 8 output

/-- The tools of a server by name, with the digest of their names and schemas. -/
structure McpServerToolRegistry (E : Encoding) where
  tools : List McpServerToolDefinition
  digest : Digest
  sorted : StrictlySorted McpServerToolDefinition.name tools
  nonempty : tools ≠ []
  bounded : tools.length ≤ 4096
  digest_eq : ∃ parts, tools.mapM (McpServerToolDefinition.material E) = some parts ∧
    digest = E.sha256 parts.flatten

/-- A public cache holds no scoped entries. -/
structure McpServerToolService (E : Encoding) where
  registry : McpServerToolRegistry E
  options : McpServerApplicationOptions
  unscoped : options.cacheScope = .publicScope →
    ∀ tool ∈ registry.tools, tool.requiredScopes = []

namespace McpServerToolService

def listing (service : McpServerToolService E) : Listing McpServerToolDefinition where
  kind := .tools
  entries := service.registry.tools
  requiredScopes := McpServerToolDefinition.requiredScopes
  digest := service.registry.digest
  options := service.options

def page (service : McpServerToolService E) (principal : McpServerPrincipal)
    (cursor : Option String) : Except ErrorData (List McpServerToolDefinition × Option String) :=
  service.listing.page E principal cursor

end McpServerToolService

/-! ## Resources -/

structure McpServerResourceDefinition where
  uri : String
  name : String
  requiredScopes : List String

structure McpServerResourceTemplateDefinition where
  uriTemplate : String
  requiredScopes : List String

/-- What the digest of a resource catalog covers. -/
def resourceMaterial (resources : List McpServerResourceDefinition)
    (templates : List McpServerResourceTemplateDefinition) : List UInt8 :=
  resources.flatMap (fun resource => lengthPrefixed 8 (utf8 resource.uri.toList) ++
    lengthPrefixed 8 (utf8 resource.name.toList)) ++
  templates.flatMap (fun template => lengthPrefixed 8 (utf8 template.uriTemplate.toList))

structure McpServerResourceCatalog (E : Encoding) where
  resources : List McpServerResourceDefinition
  templates : List McpServerResourceTemplateDefinition
  digest : Digest
  resources_sorted : StrictlySorted McpServerResourceDefinition.uri resources
  templates_sorted : StrictlySorted McpServerResourceTemplateDefinition.uriTemplate templates
  nonempty : resources ≠ [] ∨ templates ≠ []
  resources_bounded : resources.length ≤ 4096
  templates_bounded : templates.length ≤ 4096
  digest_eq : digest = E.sha256 (resourceMaterial resources templates)

@[inherit_doc McpServerToolService]
structure McpServerResourceService (E : Encoding) where
  catalog : McpServerResourceCatalog E
  options : McpServerApplicationOptions
  unscoped : options.cacheScope = .publicScope →
    (∀ resource ∈ catalog.resources, resource.requiredScopes = []) ∧
    ∀ template ∈ catalog.templates, template.requiredScopes = []

namespace McpServerResourceService

def resourcesListing (service : McpServerResourceService E) :
    Listing McpServerResourceDefinition where
  kind := .resources
  entries := service.catalog.resources
  requiredScopes := McpServerResourceDefinition.requiredScopes
  digest := service.catalog.digest
  options := service.options

def templatesListing (service : McpServerResourceService E) :
    Listing McpServerResourceTemplateDefinition where
  kind := .templates
  entries := service.catalog.templates
  requiredScopes := McpServerResourceTemplateDefinition.requiredScopes
  digest := service.catalog.digest
  options := service.options

def resourcesPage (service : McpServerResourceService E) (principal : McpServerPrincipal)
    (cursor : Option String) :
    Except ErrorData (List McpServerResourceDefinition × Option String) :=
  service.resourcesListing.page E principal cursor

def templatesPage (service : McpServerResourceService E) (principal : McpServerPrincipal)
    (cursor : Option String) :
    Except ErrorData (List McpServerResourceTemplateDefinition × Option String) :=
  service.templatesListing.page E principal cursor

end McpServerResourceService

end StateKnot
