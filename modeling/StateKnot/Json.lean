import Mathlib.Data.Rat.Defs
import Mathlib.Data.String.Basic
import StateKnot.Lib.Ordered
import StateKnot.Lib.Result

/-!
# Bounded JSON values

The JSON tree of `json.rs`, the resource limits under which a tree is
materialized, and the canonical form that RFC 8785 bytes stand for.

A tree here is what a parser hands to the limited reader: object members in
document order, possibly with repeated names.  `materialize` is the reader with
its tracker; it returns the value with sorted members and the statistics.
-/

namespace StateKnot

open Lib

/-- A JSON number as `serde_json` holds it.  A float carries the text that
`serde_json` prints for it, since the compact length counts that text. -/
inductive JsonNumber where
  | int (value : Int)
  | float (value : Rat) (text : String)
deriving DecidableEq

/-- A JSON tree. -/
inductive Json where
  | null
  | bool (value : Bool)
  | num (value : JsonNumber)
  | str (value : String)
  | arr (items : List Json)
  | obj (members : List (String × Json))

namespace Json

mutual
def decEq : (a b : Json) → Decidable (a = b)
  | .null, .null => isTrue rfl
  | .bool a, .bool b => decidable_of_iff (a = b) (by simp)
  | .num a, .num b => decidable_of_iff (a = b) (by simp)
  | .str a, .str b => decidable_of_iff (a = b) (by simp)
  | .arr a, .arr b => match decEqItems a b with
    | isTrue h => isTrue (by rw [h])
    | isFalse h => isFalse (by simpa using h)
  | .obj a, .obj b => match decEqMembers a b with
    | isTrue h => isTrue (by rw [h])
    | isFalse h => isFalse (by simpa using h)
  | .null, .bool _ | .null, .num _ | .null, .str _ | .null, .arr _ | .null, .obj _
  | .bool _, .null | .bool _, .num _ | .bool _, .str _ | .bool _, .arr _ | .bool _, .obj _
  | .num _, .null | .num _, .bool _ | .num _, .str _ | .num _, .arr _ | .num _, .obj _
  | .str _, .null | .str _, .bool _ | .str _, .num _ | .str _, .arr _ | .str _, .obj _
  | .arr _, .null | .arr _, .bool _ | .arr _, .num _ | .arr _, .str _ | .arr _, .obj _
  | .obj _, .null | .obj _, .bool _ | .obj _, .num _ | .obj _, .str _ | .obj _, .arr _ =>
    isFalse (by simp)

def decEqItems : (a b : List Json) → Decidable (a = b)
  | [], [] => isTrue rfl
  | [], _ :: _ => isFalse (by simp)
  | _ :: _, [] => isFalse (by simp)
  | a :: as, b :: bs => match decEq a b, decEqItems as bs with
    | isTrue h, isTrue hs => isTrue (by rw [h, hs])
    | isFalse h, _ => isFalse (fun he => h (List.cons.inj he).1)
    | _, isFalse hs => isFalse (fun he => hs (List.cons.inj he).2)

def decEqMembers : (a b : List (String × Json)) → Decidable (a = b)
  | [], [] => isTrue rfl
  | [], _ :: _ => isFalse (by simp)
  | _ :: _, [] => isFalse (by simp)
  | (k, a) :: as, (l, b) :: bs => match decEq a b, decEqMembers as bs with
    | isTrue h, isTrue hs => decidable_of_iff (k = l) (by simp [h, hs])
    | isFalse h, _ => isFalse (fun he => h (Prod.mk.inj (List.cons.inj he).1).2)
    | _, isFalse hs => isFalse (fun he => hs (List.cons.inj he).2)
end

instance : DecidableEq Json := decEq

/-- Induction over a tree: what all items of an array and all members of an object have, the
array and the object have. -/
@[elab_as_elim]
theorem induct {motive : Json → Prop} (tree : Json) (null : motive .null)
    (bool : ∀ b, motive (.bool b)) (num : ∀ n, motive (.num n)) (str : ∀ s, motive (.str s))
    (arr : ∀ xs, (∀ x ∈ xs, motive x) → motive (.arr xs))
    (obj : ∀ ms, (∀ m ∈ ms, motive m.2) → motive (.obj ms)) : motive tree :=
  @Json.rec motive (fun xs => ∀ x ∈ xs, motive x) (fun ms => ∀ m ∈ ms, motive m.2)
    (fun m => motive m.2) null bool num str arr obj (List.forall_mem_nil _)
    (fun _ _ hx hxs => List.forall_mem_cons.mpr ⟨hx, hxs⟩) (List.forall_mem_nil _)
    (fun _ _ hm hms => List.forall_mem_cons.mpr ⟨hm, hms⟩) (fun _ _ hx => hx) tree

end Json

/-! ## Canonical form -/

/-- The number an RFC 8785 serializer prints: a float of integral value prints
like the integer, and only the value of any other float matters. -/
def JsonNumber.canonical : JsonNumber → JsonNumber
  | .int n => .int n
  | .float q _ => if q.den = 1 then .int q.num else .float q ""

namespace Json

/-- Sort object members by name. -/
def sortMembers (members : List (String × Json)) : List (String × Json) :=
  sortByKey Prod.fst members

mutual
/-- The tree that canonical bytes determine: sorted members, numbers by value. -/
def canonical : Json → Json
  | .null => .null
  | .bool b => .bool b
  | .num n => .num n.canonical
  | .str s => .str s
  | .arr xs => .arr (canonicalItems xs)
  | .obj ms => .obj (sortMembers (canonicalMembers ms))

def canonicalItems : List Json → List Json
  | [] => []
  | x :: xs => x.canonical :: canonicalItems xs

def canonicalMembers : List (String × Json) → List (String × Json)
  | [] => []
  | (k, v) :: ms => (k, v.canonical) :: canonicalMembers ms
end

theorem canonicalMembers_eq_map (ms : List (String × Json)) :
    canonicalMembers ms = ms.map (fun m => (m.1, m.2.canonical)) := by
  induction ms with
  | nil => rfl
  | cons m ms ih =>
    obtain ⟨k, v⟩ := m
    simp [canonicalMembers, ih]

theorem canonicalItems_eq_map (xs : List Json) :
    canonicalItems xs = xs.map canonical := by
  induction xs with
  | nil => rfl
  | cons x xs ih => simp [canonicalItems, ih]

end Json

/-! ## Resource limits -/

/-- Limits applied while JSON is materialized. -/
structure JsonLimits where
  maxBytes : Nat
  maxDepth : Nat
  maxContainerEntries : Nat
  maxNodes : Nat
  maxStringBytes : Nat
  maxObjectKeyBytes : Nat

namespace JsonLimits

/-- Default limits for messages, tool values, and extensions. -/
def default : JsonLimits where
  maxBytes := 256 * 1024
  maxDepth := 32
  maxContainerEntries := 1024
  maxNodes := 16384
  maxStringBytes := 64 * 1024
  maxObjectKeyBytes := 256

/-- Absolute ceilings of every configured limit. -/
def maximum : JsonLimits where
  maxBytes := 2 * (1024 * 1024)
  maxDepth := 64
  maxContainerEntries := 8192
  maxNodes := 131072
  maxStringBytes := 1024 * 1024
  maxObjectKeyBytes := 1024

end JsonLimits

/-- A tree rejected by the limited reader. -/
inductive BoundedJsonError where
  | compactRepresentationTooLarge (maximum actual : Nat)
  | nestingTooDeep (maximum actual : Nat)
  | tooManyContainerEntries (maximum actual : Nat)
  | tooManyNodes (maximum actual : Nat)
  | stringTooLong (maximum actual : Nat)
  | objectKeyTooLong (maximum actual : Nat)
  | duplicateObjectKey

/-- Aggregate statistics of a materialized value, and the state of the reader. -/
structure JsonStats where
  compactBytes : Nat
  maxDepth : Nat
  nodes : Nat
deriving DecidableEq

/-- The reader's computations: they thread the statistics and stop at the first violation. -/
abbrev Tracker (α : Type) : Type := JsonStats → Except BoundedJsonError (α × JsonStats)

namespace Tracker

def addNode (limits : JsonLimits) : Tracker Unit := fun s => do
  let actual := s.nodes + 1
  reject (actual > limits.maxNodes) (.tooManyNodes limits.maxNodes actual)
  return ((), { s with nodes := actual })

def enterContainer (limits : JsonLimits) (parentDepth : Nat) : Tracker Nat := fun s => do
  let actual := parentDepth + 1
  reject (actual > limits.maxDepth) (.nestingTooDeep limits.maxDepth actual)
  return (actual, { s with maxDepth := max s.maxDepth actual })

def addCompactBytes (limits : JsonLimits) (additional : Nat) : Tracker Unit := fun s => do
  let actual := s.compactBytes + additional
  reject (actual > limits.maxBytes) (.compactRepresentationTooLarge limits.maxBytes actual)
  return ((), { s with compactBytes := actual })

/-- The comma before every entry of a container but the first. -/
def addSeparator (limits : JsonLimits) (isFirst : Bool) : Tracker Unit := fun s =>
  if isFirst then .ok ((), s) else addCompactBytes limits 1 s

end Tracker

/-- Compact length of one character of a JSON string. -/
def encodedCharLen (c : Char) : Nat :=
  if c.val = 0x08 ∨ c.val = 0x09 ∨ c.val = 0x0a ∨ c.val = 0x0c ∨ c.val = 0x0d
      ∨ c.val = 0x22 ∨ c.val = 0x5c then 2
  else if c.val ≤ 0x1f then 6
  else c.utf8Size

/-- Compact length of a JSON string with its quotes and escapes. -/
def encodedJsonStringLen (value : String) : Nat :=
  value.toList.foldl (fun length c => length + encodedCharLen c) 2

/-- Length of the text `serde_json` prints for a number. -/
def JsonNumber.textLen : JsonNumber → Nat
  | .int n => (toString n).utf8ByteSize
  | .float _ text => text.utf8ByteSize

namespace Json

open Tracker

mutual
/-- Read one value whose parent container is at `depth`. -/
def visit (limits : JsonLimits) (depth : Nat) : Json → Tracker Json
  | .null, s => do
    let ((), s) ← addNode limits s
    let ((), s) ← addCompactBytes limits 4 s
    return (.null, s)
  | .bool b, s => do
    let ((), s) ← addNode limits s
    let ((), s) ← addCompactBytes limits (if b then 4 else 5) s
    return (.bool b, s)
  | .num n, s => do
    let ((), s) ← addNode limits s
    let ((), s) ← addCompactBytes limits n.textLen s
    return (.num n, s)
  | .str t, s => do
    let ((), s) ← addNode limits s
    reject (t.utf8ByteSize > limits.maxStringBytes)
      (.stringTooLong limits.maxStringBytes t.utf8ByteSize)
    let ((), s) ← addCompactBytes limits (encodedJsonStringLen t) s
    return (.str t, s)
  | .arr xs, s => do
    let ((), s) ← addNode limits s
    let (inner, s) ← enterContainer limits depth s
    let ((), s) ← addCompactBytes limits 2 s
    let (values, s) ← visitItems limits inner 0 xs s
    return (.arr values, s)
  | .obj ms, s => do
    let ((), s) ← addNode limits s
    let (inner, s) ← enterContainer limits depth s
    let ((), s) ← addCompactBytes limits 2 s
    let (members, s) ← visitMembers limits inner [] ms s
    return (.obj (sortMembers members), s)

/-- Read the elements of an array, `count` of which were read before. -/
def visitItems (limits : JsonLimits) (depth count : Nat) : List Json → Tracker (List Json)
  | [], s => return ([], s)
  | x :: xs, s => do
    reject (count ≥ limits.maxContainerEntries)
      (.tooManyContainerEntries limits.maxContainerEntries (limits.maxContainerEntries + 1))
    let ((), s) ← addSeparator limits (count = 0) s
    let (value, s) ← visit limits depth x s
    let (values, s) ← visitItems limits depth (count + 1) xs s
    return (value :: values, s)

/-- Read the members of an object, those named `seen` having been read before. -/
def visitMembers (limits : JsonLimits) (depth : Nat) (seen : List String) :
    List (String × Json) → Tracker (List (String × Json))
  | [], s => return ([], s)
  | (key, x) :: ms, s => do
    reject (seen.length ≥ limits.maxContainerEntries)
      (.tooManyContainerEntries limits.maxContainerEntries (limits.maxContainerEntries + 1))
    reject (key.utf8ByteSize > limits.maxObjectKeyBytes)
      (.objectKeyTooLong limits.maxObjectKeyBytes key.utf8ByteSize)
    let ((), s) ← addSeparator limits seen.isEmpty s
    let ((), s) ← addCompactBytes limits (encodedJsonStringLen key + 1) s
    reject (key ∈ seen) .duplicateObjectKey
    let (value, s) ← visit limits depth x s
    let (members, s) ← visitMembers limits depth (key :: seen) ms s
    return ((key, value) :: members, s)
end

end Json

/-- A JSON value materialized under limits, with its statistics. -/
structure BoundedJson where
  value : Json
  stats : JsonStats
deriving DecidableEq

namespace BoundedJson

/-- `try_from_value_with_limits` and `deserialize_with_limits`: both hand a tree
to the same reader. -/
def tryFromValueWithLimits (value : Json) (limits : JsonLimits) :
    Except BoundedJsonError BoundedJson := do
  let (value, stats) ← value.visit limits 0 ⟨0, 0, 0⟩
  return ⟨value, stats⟩

/-- The generic `Deserialize` of the type, under the default limits. -/
def deserialize (value : Json) : Except BoundedJsonError BoundedJson :=
  tryFromValueWithLimits value .default

end BoundedJson

end StateKnot
