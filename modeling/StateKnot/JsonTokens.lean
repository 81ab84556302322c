import StateKnot.Encoding
import StateKnot.JsonReading

/-!
# Reading from a parser

A parser hands a document to the limited reader token by token.  The reader pulls one
element or member name after the other, counts as it goes and stops at the first
violation.  On the tokens of a tree this is the recursion over the tree, whose closed
form is known; here that form is put in terms of the document itself: its compact text,
its nesting and the number of its nodes.
-/

namespace StateKnot

open Lib

/-! ## Tokens -/

/-- What a parser reports of a document, in document order. -/
inductive JsonToken where
  | null
  | bool (value : Bool)
  | num (value : JsonNumber)
  | str (value : String)
  | arrayStart
  | arrayEnd
  | objectStart
  | key (name : String)
  | objectEnd

namespace Json

mutual
def tokens : Json → List JsonToken
  | .null => [.null]
  | .bool b => [.bool b]
  | .num n => [.num n]
  | .str t => [.str t]
  | .arr xs => .arrayStart :: (itemsTokens xs ++ [.arrayEnd])
  | .obj ms => .objectStart :: (membersTokens ms ++ [.objectEnd])

def itemsTokens : List Json → List JsonToken
  | [] => []
  | x :: xs => x.tokens ++ itemsTokens xs

def membersTokens : List (String × Json) → List JsonToken
  | [] => []
  | (key, x) :: ms => .key key :: (x.tokens ++ membersTokens ms)
end

theorem tokens_ne_nil (tree : Json) : 1 ≤ tree.tokens.length := by
  cases tree <;> simp [tokens]

end Json

/-- A document that could not be read. -/
inductive JsonReadError where
  | inputTooLarge (maximum actual : Nat)
  | rejected (source : BoundedJsonError)
  | invalidJson

/-! ## The reader -/

namespace BoundedJson

open Tracker

/-- The reader's computations on a stream of tokens. -/
abbrev Reader (α : Type) : Type :=
  List JsonToken → JsonStats → Except JsonReadError (α × List JsonToken × JsonStats)

/-- A computation of the tracker, with the tokens that are left. -/
def tracked {α : Type} (rest : List JsonToken) :
    Except BoundedJsonError (α × JsonStats) → Except JsonReadError (α × List JsonToken × JsonStats)
  | .ok (value, s) => .ok (value, rest, s)
  | .error error => .error (.rejected error)

mutual
/-- `ValueSeed` and `ValueVisitor`: read one value.  Every call takes a token, so the number of
tokens bounds the recursion. -/
def readValue (limits : JsonLimits) : Nat → Nat → Reader Json
  | 0, _, _, _ => .error .invalidJson
  | fuel + 1, depth, tokens, s => do
    let ((), tokens, s) ← tracked tokens (addNode limits s)
    match tokens with
    | .null :: rest =>
      let ((), rest, s) ← tracked rest (addCompactBytes limits 4 s)
      return (.null, rest, s)
    | .bool b :: rest =>
      let ((), rest, s) ← tracked rest (addCompactBytes limits (if b then 4 else 5) s)
      return (.bool b, rest, s)
    | .num n :: rest =>
      let ((), rest, s) ← tracked rest (addCompactBytes limits n.textLen s)
      return (.num n, rest, s)
    | .str t :: rest =>
      (reject (t.utf8ByteSize > limits.maxStringBytes)
        (.stringTooLong limits.maxStringBytes t.utf8ByteSize)).mapError .rejected
      let ((), rest, s) ← tracked rest (addCompactBytes limits (encodedJsonStringLen t) s)
      return (.str t, rest, s)
    | .arrayStart :: rest =>
      let (inner, rest, s) ← tracked rest (enterContainer limits depth s)
      let ((), rest, s) ← tracked rest (addCompactBytes limits 2 s)
      let (values, rest, s) ← readElements limits fuel inner 0 rest s
      return (.arr values, rest, s)
    | .objectStart :: rest =>
      let (inner, rest, s) ← tracked rest (enterContainer limits depth s)
      let ((), rest, s) ← tracked rest (addCompactBytes limits 2 s)
      let (sorted, rest, s) ← readEntries limits fuel inner [] rest s
      return (.obj (Json.sortMembers sorted), rest, s)
    | _ => .error .invalidJson

/-- The loop of `visit_seq`, after `count` elements. -/
def readElements (limits : JsonLimits) : Nat → Nat → Nat → Reader (List Json)
  | 0, _, _, _, _ => .error .invalidJson
  | _ + 1, _, _, .arrayEnd :: rest, s => return ([], rest, s)
  | fuel + 1, depth, count, tokens, s => do
    (reject (count ≥ limits.maxContainerEntries)
      (.tooManyContainerEntries limits.maxContainerEntries
        (limits.maxContainerEntries + 1))).mapError .rejected
    let ((), tokens, s) ← tracked tokens (addSeparator limits (count = 0) s)
    let (value, rest, s) ← readValue limits fuel depth tokens s
    let (values, rest, s) ← readElements limits fuel depth (count + 1) rest s
    return (value :: values, rest, s)

/-- The loop of `visit_map`, after the members named `seen`. -/
def readEntries (limits : JsonLimits) : Nat → Nat → List String → Reader (List (String × Json))
  | 0, _, _, _, _ => .error .invalidJson
  | _ + 1, _, _, .objectEnd :: rest, s => return ([], rest, s)
  | fuel + 1, depth, seen, .key name :: rest, s => do
    (reject (seen.length ≥ limits.maxContainerEntries)
      (.tooManyContainerEntries limits.maxContainerEntries
        (limits.maxContainerEntries + 1))).mapError .rejected
    (reject (name.utf8ByteSize > limits.maxObjectKeyBytes)
      (.objectKeyTooLong limits.maxObjectKeyBytes name.utf8ByteSize)).mapError .rejected
    let ((), rest, s) ← tracked rest (addSeparator limits seen.isEmpty s)
    let ((), rest, s) ← tracked rest (addCompactBytes limits (encodedJsonStringLen name + 1) s)
    (reject (name ∈ seen) BoundedJsonError.duplicateObjectKey).mapError .rejected
    let (value, rest, s) ← readValue limits fuel depth rest s
    let (entries, rest, s) ← readEntries limits fuel depth (name :: seen) rest s
    return ((name, value) :: entries, rest, s)
  | _ + 1, _, _, _, _ => .error .invalidJson
end

/-- `deserialize_with_limits`, on the tokens that the deserializer reports. -/
def deserializeWithLimits (tokens : List JsonToken) (limits : JsonLimits) :
    Except JsonReadError (BoundedJson × List JsonToken) := do
  let (value, rest, stats) ← readValue limits tokens.length 0 tokens ⟨0, 0, 0⟩
  return (⟨value, stats⟩, rest)

/-- `from_slice_with_limits`, on the number of bytes of the input and its tokens. -/
def fromSliceWithLimits (inputBytes : Nat) (tokens : List JsonToken) (limits : JsonLimits) :
    Except JsonReadError BoundedJson := do
  reject (inputBytes > limits.maxBytes) (.inputTooLarge limits.maxBytes inputBytes)
  let (value, rest) ← deserializeWithLimits tokens limits
  reject (rest ≠ []) .invalidJson
  return value

/-! ## On the tokens of a tree -/

section Refinement

variable {α β : Type} {rest tokens : List JsonToken}

/-- A step of the tracker followed by the rest of a computation, both with their tokens. -/
theorem tracked_bind {x : Except BoundedJsonError (α × JsonStats)}
    {f : α × JsonStats → Except BoundedJsonError (β × JsonStats)}
    {g : α × List JsonToken × JsonStats → Except JsonReadError (β × List JsonToken × JsonStats)}
    (h : ∀ value s, g (value, tokens, s) = tracked rest (f (value, s))) :
    (tracked tokens x >>= g) = tracked rest (x >>= f) := by
  cases x with
  | error error => rfl
  | ok result =>
    obtain ⟨value, s⟩ := result
    exact h value s

theorem reject_bind {P : Prop} [Decidable P] {error : BoundedJsonError}
    {f : Unit → Except BoundedJsonError (β × JsonStats)}
    {g : Unit → Except JsonReadError (β × List JsonToken × JsonStats)}
    (h : g () = tracked rest (f ())) :
    ((reject P error).mapError .rejected >>= g) = tracked rest (reject P error >>= f) := by
  unfold reject
  split
  · rfl
  · exact h

end Refinement

open Json

mutual
/-- On the tokens of a tree the reader does what the recursion over the tree does. -/
theorem readValue_tokens {limits : JsonLimits} :
    ∀ {tree : Json} {fuel depth : Nat} {rest : List JsonToken} {s : JsonStats},
      tree.tokens.length ≤ fuel →
      readValue limits fuel depth (tree.tokens ++ rest) s =
        tracked rest (tree.visit limits depth s)
  | tree, 0, _, _, _, hfuel => absurd hfuel (by have := tree.tokens_ne_nil; omega)
  | .null, fuel + 1, depth, rest, s, _ => by
    rw [readValue, visit]
    exact tracked_bind fun _ s => tracked_bind fun _ s => rfl
  | .bool b, fuel + 1, depth, rest, s, _ => by
    rw [readValue, visit]
    exact tracked_bind fun _ s => tracked_bind fun _ s => rfl
  | .num n, fuel + 1, depth, rest, s, _ => by
    rw [readValue, visit]
    exact tracked_bind fun _ s => tracked_bind fun _ s => rfl
  | .str t, fuel + 1, depth, rest, s, _ => by
    rw [readValue, visit]
    exact tracked_bind fun _ s => reject_bind (tracked_bind fun _ s => rfl)
  | .arr xs, fuel + 1, depth, rest, s, hfuel => by
    rw [tokens, List.length_cons, List.length_append, List.length_singleton] at hfuel
    rw [readValue, visit, tokens, List.cons_append, List.append_assoc, List.singleton_append]
    refine tracked_bind fun _ s => tracked_bind fun inner s => tracked_bind fun _ s => ?_
    show (readElements limits fuel inner 0 (itemsTokens xs ++ .arrayEnd :: rest) s >>= _) = _
    rw [readElements_tokens (by omega)]
    exact tracked_bind fun values s => rfl
  | .obj ms, fuel + 1, depth, rest, s, hfuel => by
    rw [tokens, List.length_cons, List.length_append, List.length_singleton] at hfuel
    rw [readValue, visit, tokens, List.cons_append, List.append_assoc, List.singleton_append]
    refine tracked_bind fun _ s => tracked_bind fun inner s => tracked_bind fun _ s => ?_
    show (readEntries limits fuel inner [] (membersTokens ms ++ .objectEnd :: rest) s >>= _) = _
    rw [readEntries_tokens (by omega)]
    exact tracked_bind fun values s => rfl

theorem readElements_tokens {limits : JsonLimits} :
    ∀ {xs : List Json} {fuel depth count : Nat} {rest : List JsonToken} {s : JsonStats},
      (itemsTokens xs).length < fuel →
      readElements limits fuel depth count (itemsTokens xs ++ .arrayEnd :: rest) s =
        tracked rest (visitItems limits depth count xs s)
  | _, 0, _, _, _, _, hfuel => absurd hfuel (Nat.not_lt_zero _)
  | [], fuel + 1, _, _, _, _, _ => by
    rw [itemsTokens, visitItems, List.nil_append, readElements]
    rfl
  | x :: xs, fuel + 1, depth, count, rest, s, hfuel => by
    have hone := x.tokens_ne_nil
    rw [itemsTokens, List.length_append] at hfuel
    rw [itemsTokens, visitItems, List.append_assoc, readElements]
    · refine reject_bind (tracked_bind fun _ s => ?_)
      show (readValue limits fuel depth (x.tokens ++ (itemsTokens xs ++ .arrayEnd :: rest)) s >>=
        _) = _
      rw [readValue_tokens (by omega)]
      refine tracked_bind fun value s => ?_
      show (readElements limits fuel depth (count + 1) (itemsTokens xs ++ .arrayEnd :: rest) s >>=
        _) = _
      rw [readElements_tokens (by omega)]
      exact tracked_bind fun values s => rfl
    · intro tokens hend
      cases x <;> simp [Json.tokens] at hend

theorem readEntries_tokens {limits : JsonLimits} :
    ∀ {ms : List (String × Json)} {fuel depth : Nat} {seen : List String}
      {rest : List JsonToken} {s : JsonStats}, (membersTokens ms).length < fuel →
      readEntries limits fuel depth seen (membersTokens ms ++ .objectEnd :: rest) s =
        tracked rest (visitMembers limits depth seen ms s)
  | _, 0, _, _, _, _, hfuel => absurd hfuel (Nat.not_lt_zero _)
  | [], fuel + 1, _, _, _, _, _ => by
    rw [membersTokens, visitMembers, List.nil_append, readEntries]
    rfl
  | (key, x) :: ms, fuel + 1, depth, seen, rest, s, hfuel => by
    rw [membersTokens, List.length_cons, List.length_append] at hfuel
    rw [membersTokens, visitMembers, List.cons_append, List.append_assoc, readEntries]
    refine reject_bind (reject_bind (tracked_bind fun _ s => tracked_bind fun _ s =>
      reject_bind ?_))
    show (readValue limits fuel depth (x.tokens ++ (membersTokens ms ++ .objectEnd :: rest)) s >>=
      _) = _
    rw [readValue_tokens (by omega)]
    refine tracked_bind fun value s => ?_
    show (readEntries limits fuel depth (key :: seen) (membersTokens ms ++ .objectEnd :: rest) s >>=
      _) = _
    rw [readEntries_tokens (by omega)]
    exact tracked_bind fun entries s => rfl
end

theorem deserializeWithLimits_tokens {tree : Json} {limits : JsonLimits} {b : BoundedJson}
    {rest : List JsonToken} :
    deserializeWithLimits tree.tokens limits = .ok (b, rest) ↔
      tryFromValueWithLimits tree limits = .ok b ∧ rest = [] := by
  have hread : readValue limits tree.tokens.length 0 (tree.tokens ++ []) ⟨0, 0, 0⟩ =
      tracked [] (tree.visit limits 0 ⟨0, 0, 0⟩) := readValue_tokens (le_refl _)
  rw [List.append_nil] at hread
  rw [deserializeWithLimits, hread, tryFromValueWithLimits]
  cases tree.visit limits 0 ⟨0, 0, 0⟩ with
  | error error => simp [tracked]
  | ok result =>
    obtain ⟨value, stats⟩ := result
    simp [tracked, pure, Except.pure, eq_comm]

end BoundedJson

/-! ## The document itself -/

/-- A character of a string as `serde_json` writes it. -/
def escapedChar (c : Char) : String :=
  if c.val = 0x08 then "\\b"
  else if c.val = 0x09 then "\\t"
  else if c.val = 0x0a then "\\n"
  else if c.val = 0x0c then "\\f"
  else if c.val = 0x0d then "\\r"
  else if c.val = 0x22 then "\\\""
  else if c.val = 0x5c then "\\\\"
  else if c.val ≤ 0x1f then
    "\\u00" ++ String.ofList (Digest.hexByte c.val.toUInt8)
  else String.singleton c

def quoted (value : String) : String :=
  "\"" ++ value.toList.foldr (fun c text => escapedChar c ++ text) "\""

namespace Json

mutual
/-- The text that `serde_json` writes without whitespace. -/
def compactText : Json → String
  | .null => "null"
  | .bool b => if b then "true" else "false"
  | .num (.int n) => toString n
  | .num (.float _ text) => text
  | .str t => quoted t
  | .arr xs => "[" ++ itemsText xs ++ "]"
  | .obj ms => "\x7b" ++ membersText ms ++ "\x7d"

def itemsText : List Json → String
  | [] => ""
  | [x] => x.compactText
  | x :: xs => x.compactText ++ "," ++ itemsText xs

def membersText : List (String × Json) → String
  | [] => ""
  | [(key, x)] => quoted key ++ ":" ++ x.compactText
  | (key, x) :: ms => quoted key ++ ":" ++ x.compactText ++ "," ++ membersText ms
end

mutual
/-- How deep arrays and objects are nested. -/
def nesting : Json → Nat
  | .null | .bool _ | .num _ | .str _ => 0
  | .arr xs => itemsNesting xs + 1
  | .obj ms => membersNesting ms + 1

def itemsNesting : List Json → Nat
  | [] => 0
  | x :: xs => max x.nesting (itemsNesting xs)

def membersNesting : List (String × Json) → Nat
  | [] => 0
  | (_, x) :: ms => max x.nesting (membersNesting ms)
end

mutual
/-- The tree and everything below it. -/
def parts : Json → List Json
  | .null => [.null]
  | .bool b => [.bool b]
  | .num n => [.num n]
  | .str t => [.str t]
  | .arr xs => .arr xs :: itemsParts xs
  | .obj ms => .obj ms :: membersParts ms

def itemsParts : List Json → List Json
  | [] => []
  | x :: xs => x.parts ++ itemsParts xs

def membersParts : List (String × Json) → List Json
  | [] => []
  | (_, x) :: ms => x.parts ++ membersParts ms
end

/-- A string, an array or an object on its own, without what is below it. -/
def PartFits (limits : JsonLimits) : Json → Prop
  | .null | .bool _ | .num _ => True
  | .str t => t.utf8ByteSize ≤ limits.maxStringBytes
  | .arr xs => xs.length ≤ limits.maxContainerEntries
  | .obj ms => ms.length ≤ limits.maxContainerEntries ∧ (ms.map Prod.fst).Nodup ∧
    ∀ entry ∈ ms, entry.1.utf8ByteSize ≤ limits.maxObjectKeyBytes

end Json

/-! ## The statistics of a document -/

theorem utf8ByteSize_hexByte (byte : UInt8) :
    (String.ofList (Digest.hexByte byte)).utf8ByteSize = 2 := by
  have hdigit : ∀ n < 16, (Digest.hexDigit n).utf8Size = 1 := by decide
  have hbound := byte.toNat_lt
  have hhigh := hdigit (byte.toNat / 16) (by omega)
  have hlow := hdigit (byte.toNat % 16) (by omega)
  simp [Digest.hexByte, hhigh, hlow]

theorem utf8ByteSize_escapedChar (c : Char) : (escapedChar c).utf8ByteSize = encodedCharLen c := by
  unfold escapedChar encodedCharLen
  by_cases hshort : c.val = 0x08 ∨ c.val = 0x09 ∨ c.val = 0x0a ∨ c.val = 0x0c ∨ c.val = 0x0d ∨
      c.val = 0x22 ∨ c.val = 0x5c
  · rw [if_pos hshort]
    rcases hshort with h | h | h | h | h | h | h <;> rw [h] <;> rfl
  · rw [if_neg hshort]
    simp only [not_or] at hshort
    obtain ⟨h₁, h₂, h₃, h₄, h₅, h₆, h₇⟩ := hshort
    simp only [h₁, h₂, h₃, h₄, h₅, h₆, h₇, if_false]
    split
    · rw [String.utf8ByteSize_append, utf8ByteSize_hexByte]
      rfl
    · exact String.utf8ByteSize_singleton

theorem utf8ByteSize_quoted (value : String) :
    (quoted value).utf8ByteSize = encodedJsonStringLen value := by
  have hclosed : ∀ (chars : List Char) (start : Nat),
      chars.foldl (fun length c => length + encodedCharLen c) start =
        start + (chars.foldr (fun c text => escapedChar c ++ text) "\"").utf8ByteSize - 1 := by
    intro chars
    induction chars with
    | nil => intro start; rfl
    | cons c chars ih =>
      intro start
      rw [List.foldl_cons, ih, List.foldr_cons, String.utf8ByteSize_append,
        utf8ByteSize_escapedChar, Nat.add_assoc]
  rw [encodedJsonStringLen, hclosed, quoted, String.utf8ByteSize_append]
  have hquote : ("\"" : String).utf8ByteSize = 1 := rfl
  omega

namespace Json

open JsonStats

/-- The depth that containers nested `levels` deep reach below `depth`. -/
def reached (depth levels : Nat) : Nat := if levels = 0 then 0 else depth + levels

theorem max_reached (depth m n : Nat) :
    max (reached depth m) (reached depth n) = reached depth (max m n) := by
  unfold reached
  split_ifs <;> omega

theorem reached_succ (depth levels : Nat) :
    max (depth + 1) (reached (depth + 1) levels) = reached depth (levels + 1) := by
  unfold reached
  rw [if_neg (Nat.succ_ne_zero levels)]
  split_ifs <;> omega

section Totals

variable {depth levels levels' separators count count' : Nat} {text text' : String}
  {others : JsonStats}

theorem totals_container (h : bytes separators + others =
      ⟨text.utf8ByteSize, reached (depth + 1) levels, count⟩)
    {left right : String} (hleft : left.utf8ByteSize = 1) (hright : right.utf8ByteSize = 1) :
    ⟨2, depth + 1, 1⟩ + bytes separators + others =
      ⟨(left ++ text ++ right).utf8ByteSize, reached depth (levels + 1), count + 1⟩ := by
  rw [add_assoc, h, String.utf8ByteSize_append, String.utf8ByteSize_append, hleft, hright]
  exact ext_totals (by simp; omega) (reached_succ depth levels) (Nat.add_comm _ _)

/-- An entry before others adds a comma. -/
theorem totals_entry (h : bytes separators + others =
      ⟨text.utf8ByteSize, reached depth levels, count⟩) :
    bytes (separators + 1) + (⟨text'.utf8ByteSize, reached depth levels', count'⟩ + others) =
      ⟨(text' ++ "," ++ text).utf8ByteSize, reached depth (max levels' levels),
        count' + count⟩ := by
  have hcomma : ("," : String).utf8ByteSize = 1 := rfl
  rw [bytes_add, add_comm (bytes separators), add_add_add_comm, h, String.utf8ByteSize_append,
    String.utf8ByteSize_append, hcomma, ← max_reached]
  exact ext_totals (by simp [JsonStats.bytes]; omega) (by simp [JsonStats.bytes])
    (by simp [JsonStats.bytes])

theorem totals_member (key : String) : bytes (encodedJsonStringLen key + 1) +
      ⟨text.utf8ByteSize, levels, count⟩ =
    ⟨(quoted key ++ ":" ++ text).utf8ByteSize, levels, count⟩ := by
  have hcolon : (":" : String).utf8ByteSize = 1 := rfl
  rw [String.utf8ByteSize_append, String.utf8ByteSize_append, utf8ByteSize_quoted, hcolon]
  exact ext_totals rfl (Nat.zero_max _) (Nat.zero_add _)

end Totals

mutual
theorem totals_at (depth : Nat) : ∀ tree : Json, tree.totals depth =
    ⟨tree.compactText.utf8ByteSize, reached depth tree.nesting, tree.parts.length⟩
  | .null | .num (.int _) | .num (.float _ _) => rfl
  | .bool b => by cases b <;> rfl
  | .str t => by
    rw [totals, compactText, utf8ByteSize_quoted]
    rfl
  | .arr xs => totals_container (totalsItems_at (depth + 1) xs) rfl rfl
  | .obj ms => totals_container (totalsMembers_at (depth + 1) ms) rfl rfl

theorem totalsItems_at (depth : Nat) : ∀ xs : List Json,
    bytes (xs.length - 1) + totalsItems depth xs =
      ⟨(itemsText xs).utf8ByteSize, reached depth (itemsNesting xs), (itemsParts xs).length⟩
  | [] => rfl
  | [x] => by
    simp [totalsItems, itemsText, itemsNesting, itemsParts, totals_at depth x]
  | x :: y :: xs => by
    rw [totalsItems, totals_at depth x, itemsParts, List.length_append]
    exact totals_entry (totalsItems_at depth (y :: xs))

theorem totalsMembers_at (depth : Nat) : ∀ ms : List (String × Json),
    bytes (ms.length - 1) + totalsMembers depth ms =
      ⟨(membersText ms).utf8ByteSize, reached depth (membersNesting ms),
        (membersParts ms).length⟩
  | [] => rfl
  | [(key, x)] => by
    rw [totalsMembers, totals_at depth x, totals_member, membersText, membersNesting,
      membersParts, totalsMembers, membersNesting, membersParts]
    simp
  | (key, x) :: entry :: ms => by
    rw [totalsMembers, totals_at depth x, totals_member, membersParts, List.length_append]
    exact totals_entry (totalsMembers_at depth (entry :: ms))
end

theorem totals_eq (tree : Json) :
    tree.totals 0 = ⟨tree.compactText.utf8ByteSize, tree.nesting, tree.parts.length⟩ := by
  have hdepth : reached 0 tree.nesting = tree.nesting := by
    unfold reached
    split_ifs <;> omega
  rw [totals_at, hdepth]

theorem mem_itemsParts {part : Json} {xs : List Json} :
    part ∈ itemsParts xs ↔ ∃ x ∈ xs, part ∈ x.parts := by
  induction xs with
  | nil => simp [itemsParts]
  | cons x xs ih => rw [itemsParts, List.mem_append, ih, List.exists_mem_cons_iff]

theorem mem_membersParts {part : Json} {ms : List (String × Json)} :
    part ∈ membersParts ms ↔ ∃ entry ∈ ms, part ∈ entry.2.parts := by
  induction ms with
  | nil => simp [membersParts]
  | cons entry ms ih => rw [membersParts, List.mem_append, ih, List.exists_mem_cons_iff]

theorem itemsNesting_le_iff {xs : List Json} {bound : Nat} :
    itemsNesting xs ≤ bound ↔ ∀ x ∈ xs, x.nesting ≤ bound := by
  induction xs with
  | nil => simp [itemsNesting]
  | cons x xs ih => rw [itemsNesting, Nat.max_le, ih, List.forall_mem_cons]

theorem membersNesting_le_iff {ms : List (String × Json)} {bound : Nat} :
    membersNesting ms ≤ bound ↔ ∀ entry ∈ ms, entry.2.nesting ≤ bound := by
  induction ms with
  | nil => simp [membersNesting]
  | cons entry ms ih => rw [membersNesting, Nat.max_le, ih, List.forall_mem_cons]

/-- The parts fit on their own exactly when each does and the nesting is not too deep. -/
theorem fits_iff {limits : JsonLimits} (depth : Nat) (tree : Json) (hdepth : depth ≤ limits.maxDepth) :
    tree.Fits limits depth ↔ (∀ part ∈ tree.parts, part.PartFits limits) ∧
      tree.nesting ≤ limits.maxDepth - depth := by
  induction tree using induct generalizing depth with
  | null | bool | num | str => simp [Fits, parts, PartFits, nesting]
  | arr xs ih =>
    rw [Fits, fitsItems_iff, parts, nesting, List.forall_mem_cons, PartFits]
    constructor
    · rintro ⟨hdeeper, hlength, hitems⟩
      have hfits := fun x hx => (ih x hx (depth + 1) hdeeper).mp (hitems x hx)
      refine ⟨⟨hlength, fun part hpart => ?_⟩, ?_⟩
      · obtain ⟨x, hx, hpart⟩ := mem_itemsParts.mp hpart
        exact (hfits x hx).1 part hpart
      · have hnesting := itemsNesting_le_iff.mpr (fun x hx => (hfits x hx).2)
        omega
    · rintro ⟨⟨hlength, hparts⟩, hnesting⟩
      have hdeeper : depth + 1 ≤ limits.maxDepth := by omega
      have hitems := itemsNesting_le_iff.mp (show itemsNesting xs ≤ limits.maxDepth - (depth + 1) by
        omega)
      exact ⟨hdeeper, hlength, fun x hx => (ih x hx _ hdeeper).mpr
        ⟨fun part hpart => hparts part (mem_itemsParts.mpr ⟨x, hx, hpart⟩), hitems x hx⟩⟩
  | obj ms ih =>
    rw [Fits, fitsMembers_iff, parts, nesting, List.forall_mem_cons, PartFits]
    constructor
    · rintro ⟨hdeeper, hlength, hnodup, hmembers⟩
      have hfits := fun m hm => (ih m hm (depth + 1) hdeeper).mp (hmembers m hm).2
      refine ⟨⟨⟨hlength, hnodup, fun m hm => (hmembers m hm).1⟩, fun part hpart => ?_⟩, ?_⟩
      · obtain ⟨m, hm, hpart⟩ := mem_membersParts.mp hpart
        exact (hfits m hm).1 part hpart
      · have hnesting := membersNesting_le_iff.mpr (fun m hm => (hfits m hm).2)
        omega
    · rintro ⟨⟨⟨hlength, hnodup, hkeys⟩, hparts⟩, hnesting⟩
      have hdeeper : depth + 1 ≤ limits.maxDepth := by omega
      have hmembers := membersNesting_le_iff.mp
        (show membersNesting ms ≤ limits.maxDepth - (depth + 1) by omega)
      exact ⟨hdeeper, hlength, hnodup, fun m hm => ⟨hkeys m hm, (ih m hm _ hdeeper).mpr
        ⟨fun part hpart => hparts part (mem_membersParts.mpr ⟨m, hm, hpart⟩), hmembers m hm⟩⟩⟩

/-! ## Sorted members -/

/-- Every object of the tree has its members in order. -/
def MembersSorted (tree : Json) : Prop :=
  ∀ part ∈ tree.parts, ∀ ms, part = .obj ms → StrictlySorted Prod.fst ms

theorem membersSorted_materialized {limits : JsonLimits} {depth : Nat} {tree : Json}
    (h : tree.Fits limits depth) : tree.materialized.MembersSorted := by
  induction tree using induct generalizing depth with
  | null | bool | num | str => simp [MembersSorted, materialized, parts]
  | arr xs ih =>
    rw [Fits, fitsItems_iff] at h
    intro part hpart ms hms
    rw [materialized, parts, materializedItems_eq_map] at hpart
    rcases List.mem_cons.mp hpart with rfl | hpart
    · cases hms
    · obtain ⟨_, hitem, hpart⟩ := mem_itemsParts.mp hpart
      obtain ⟨x, hx, rfl⟩ := List.mem_map.mp hitem
      exact ih x hx (h.2.2 x hx) part hpart ms hms
  | obj ms ih =>
    rw [Fits, fitsMembers_iff] at h
    intro part hpart ms' hms'
    rw [materialized, parts] at hpart
    rcases List.mem_cons.mp hpart with rfl | hpart
    · cases hms'
      apply strictlySorted_sortByKey
      rw [materializedMembers_eq_map, List.map_map]
      exact h.2.2.1
    · obtain ⟨_, hentry, hpart⟩ := mem_membersParts.mp hpart
      rw [(sortMembers_materialized_perm ms).mem_iff] at hentry
      obtain ⟨m, hm, rfl⟩ := List.mem_map.mp hentry
      exact ih m hm (h.2.2.2 m hm).2 part hpart ms' hms'

/-- What the limits allow, in terms of the document. -/
theorem fitsLimits_iff {tree : Json} {limits : JsonLimits} :
    tree.FitsLimits limits ↔ (∀ part ∈ tree.parts, part.PartFits limits) ∧
      tree.nesting ≤ limits.maxDepth ∧ tree.parts.length ≤ limits.maxNodes ∧
      tree.compactText.utf8ByteSize ≤ limits.maxBytes := by
  rw [FitsLimits, fits_iff 0 tree (Nat.zero_le _), totals_eq, JsonStats.Within, Nat.sub_zero,
    and_assoc, and_comm (b := tree.parts.length ≤ _)]

end Json

/-- Materialization is exact: a document is read exactly when no object repeats a name and
every limit holds of the document; the value has its members in order, its statistics are
its own, and reading the value again gives the same. -/
theorem materialization_is_exact (tree : Json) (limits : JsonLimits) :
    ((∃ b, BoundedJson.deserializeWithLimits tree.tokens limits = .ok (b, [])) ↔
      (∀ part ∈ tree.parts, part.PartFits limits) ∧ tree.nesting ≤ limits.maxDepth ∧
        tree.parts.length ≤ limits.maxNodes ∧
        tree.compactText.utf8ByteSize ≤ limits.maxBytes) ∧
    (∀ b rest, BoundedJson.deserializeWithLimits tree.tokens limits = .ok (b, rest) →
      rest = [] ∧ b.value = tree.materialized ∧ b.value.MembersSorted ∧
      b.stats = ⟨b.value.compactText.utf8ByteSize, b.value.nesting, b.value.parts.length⟩ ∧
      BoundedJson.tryFromValueWithLimits b.value limits = .ok b) ∧
    ∀ inputBytes b, BoundedJson.fromSliceWithLimits inputBytes tree.tokens limits = .ok b ↔
      inputBytes ≤ limits.maxBytes ∧
        BoundedJson.deserializeWithLimits tree.tokens limits = .ok (b, []) := by
  refine ⟨?_, fun b rest htokens => ?_, fun inputBytes b => ?_⟩
  · simp only [BoundedJson.deserializeWithLimits_tokens, and_true,
      BoundedJson.tryFromValueWithLimits_eq_ok, exists_and_left, exists_eq, Json.fitsLimits_iff]
  · obtain ⟨hread, rfl⟩ := BoundedJson.deserializeWithLimits_tokens.mp htokens
    obtain ⟨hfits, hb⟩ := BoundedJson.tryFromValueWithLimits_eq_ok.mp hread
    refine ⟨rfl, by rw [hb], ?_, ?_, ?_⟩
    · rw [hb]
      exact Json.membersSorted_materialized hfits.1
    · rw [← Json.totals_eq, hb, Json.totals_materialized]
    · exact (BoundedJson.reread_eq_ok hread).mpr ⟨BoundedJson.fitsLimits_of_read hread, rfl⟩
  · simp only [BoundedJson.fromSliceWithLimits, bind_eq_ok, reject_eq_ok, exists_const, not_lt,
      not_not, Prod.exists, pure_eq_ok]
    refine and_congr_right fun _ => ⟨fun h => ?_, fun h => ⟨b, [], h, rfl, rfl⟩⟩
    obtain ⟨_, _, hread, rfl, rfl⟩ := h
    exact hread

end StateKnot
