import Mathlib.Data.UInt
import Mathlib.Order.Lex
import Mathlib.Data.List.Lex
import StateKnot.Doubles

/-!
# Digests, instants and canonical encodings

Integrity values of the runtime are SHA-256 digests of canonical JSON bytes.
The hash, the RFC 8785 serializer and the calendar printer are third-party code:
they are the fields of `Encoding`, a parameter of every definition that computes
a digest.  `Encoding.Faithful` collects what is assumed of them where a result
needs it; nothing else in the development assumes anything about them.
-/

namespace StateKnot

open Lib

/-! ## Digests -/

/-- An integrity digest.  The number of bytes is left open, so that an injective
hash is not a contradiction. -/
structure Digest where
  bytes : List UInt8
deriving DecidableEq

namespace Digest

/-- Digests are ordered by their bytes. -/
instance : LinearOrder Digest :=
  LinearOrder.lift' (fun digest => digest.bytes.map UInt8.toNat) (fun a b h => by
    have hbytes : a.bytes = b.bytes :=
      List.map_injective_iff.mpr (fun _ _ => UInt8.toNat_inj.mp) h
    cases a
    cases b
    simpa using hbytes)

def hexDigit (n : Nat) : Char :=
  if n < 10 then Char.ofNat (48 + n) else Char.ofNat (87 + n)

def hexByte (byte : UInt8) : List Char :=
  [hexDigit (byte.toNat / 16), hexDigit (byte.toNat % 16)]

/-- Lowercase hexadecimal text of the digest bytes. -/
def hex (digest : Digest) : String :=
  String.ofList (digest.bytes.flatMap hexByte)

/-- The wire form `sha256:<hex>`. -/
def text (digest : Digest) : String :=
  "sha256:" ++ digest.hex

private theorem hexByte_injective : Function.Injective hexByte := by
  intro a b h
  have hdigit : ∀ m < 16, ∀ n < 16, hexDigit m = hexDigit n → m = n := by decide
  simp only [hexByte, List.cons.injEq, and_true] at h
  have ha := a.toNat_lt
  have hb := b.toNat_lt
  have hdiv := hdigit _ (by omega) _ (by omega) h.1
  have hmod := hdigit _ (by omega) _ (by omega) h.2
  apply UInt8.toNat_inj.mp
  omega

private theorem flatMap_hexByte_injective :
    ∀ {as bs : List UInt8}, as.flatMap hexByte = bs.flatMap hexByte → as = bs
  | [], [], _ => rfl
  | [], _ :: _, h => by simp [hexByte] at h
  | _ :: _, [], h => by simp [hexByte] at h
  | a :: as, b :: bs, h => by
    simp only [List.flatMap_cons] at h
    obtain ⟨hhead, htail⟩ := List.append_inj h rfl
    rw [hexByte_injective hhead, flatMap_hexByte_injective htail]

theorem hex_injective : Function.Injective hex := by
  intro a b h
  have hbytes := flatMap_hexByte_injective (String.ofList_injective h)
  cases a
  cases b
  simpa using hbytes

theorem exists_of_mem_hex {digest : Digest} {c : Char} (h : c ∈ digest.hex.toList) :
    ∃ n < 16, c = hexDigit n := by
  rw [hex, String.toList_ofList] at h
  obtain ⟨byte, _, hc⟩ := List.mem_flatMap.mp h
  have hbyte := byte.toNat_lt
  simp only [hexByte, List.mem_cons, List.not_mem_nil, or_false] at hc
  rcases hc with rfl | rfl
  · exact ⟨_, by omega, rfl⟩
  · exact ⟨_, by omega, rfl⟩

theorem length_hex (digest : Digest) : digest.hex.toList.length = 2 * digest.bytes.length := by
  rw [hex, String.toList_ofList, List.length_flatMap]
  simp [hexByte, Nat.mul_comm]

theorem text_injective : Function.Injective text := by
  intro a b h
  exact hex_injective (by simpa [text] using h)

end Digest

/-! ## Instants -/

/-- A microsecond-precision instant within the years 0000 to 9999. -/
structure Timestamp where
  micros : Int
  lower : -62167219200000000 ≤ micros
  upper : micros ≤ 253402300799999999
deriving DecidableEq

namespace Timestamp

instance : LinearOrder Timestamp :=
  LinearOrder.lift' micros (fun a b h => by cases a; cases b; simp_all)

/-- The instant at `micros`, when the calendar range holds it. -/
def fromUnixMicros? (micros : Int) : Option Timestamp :=
  if h : -62167219200000000 ≤ micros ∧ micros ≤ 253402300799999999 then
    some ⟨micros, h.1, h.2⟩
  else none

theorem le_iff {a b : Timestamp} : a ≤ b ↔ a.micros ≤ b.micros := Iff.rfl

/-- A literal instant: its bounds are evaluated where it is written. -/
def ofMicros (micros : Int)
    (h : decide (-62167219200000000 ≤ micros ∧ micros ≤ 253402300799999999) = true := by
      exact Eq.refl true) : Timestamp :=
  ⟨micros, (of_decide_eq_true h).1, (of_decide_eq_true h).2⟩

theorem lt_iff {a b : Timestamp} : a < b ↔ a.micros < b.micros := Iff.rfl

theorem fromUnixMicros?_eq_some {micros : Int} {t : Timestamp} :
    fromUnixMicros? micros = some t ↔ t.micros = micros := by
  unfold fromUnixMicros?
  have hlower := t.lower
  have hupper := t.upper
  split
  · rw [Option.some.injEq]
    cases t
    simp [eq_comm]
  · simp only [reduceCtorEq, false_iff]
    omega

end Timestamp

/-! ## Canonical bytes and hashes -/

/-- Third-party encoders: the RFC 8785 serializer, SHA-256, the printer of instants, and what is
read from the text that a stored tree is written as. -/
structure Encoding where
  toVec : Json → Option (List UInt8)
  sha256 : List UInt8 → Digest
  timestampText : Timestamp → String
  transport : Json → Option Json := some

/-- Stored trees are read as they were written. -/
def Encoding.KeepsTrees (E : Encoding) : Prop := ∀ tree, E.transport tree = some tree

/-- Canonical bytes determine the tree with its numbers as doubles. -/
def Encoding.DeterminesTrees (E : Encoding) : Prop :=
  ∀ {a b : Json} {bytes : List UInt8},
    E.toVec a = some bytes → E.toVec b = some bytes → a.rfc8785 = b.rfc8785

/-- What integrity arguments assume of the encoders: hashes do not collide, canonical
bytes determine the tree, printed instants determine the instant. -/
structure Encoding.Faithful (E : Encoding) : Prop where
  sha256_injective : Function.Injective E.sha256
  determinesTrees : E.DeterminesTrees
  timestampText_injective : Function.Injective E.timestampText

/-- Failure to produce integrity-bearing RFC 8785 bytes. -/
inductive CanonicalJsonError where
  | integerOutsideIJsonSafeRange
  | serialization

/-- Canonical bytes with their digest. -/
structure CanonicalJson where
  bytes : List UInt8
  digest : Digest

namespace CanonicalJson

def maxSafeInteger : Nat := 9007199254740991

mutual
/-- Every integer of the tree lies in the interoperable range. -/
def ijsonNumbers : Json → Bool
  | .null | .bool _ | .str _ => true
  | .num (.int n) => n.natAbs ≤ maxSafeInteger
  | .num (.float _ _) => true
  | .arr xs => ijsonItems xs
  | .obj ms => ijsonMembers ms

def ijsonItems : List Json → Bool
  | [] => true
  | x :: xs => ijsonNumbers x && ijsonItems xs

def ijsonMembers : List (String × Json) → Bool
  | [] => true
  | (_, x) :: ms => ijsonNumbers x && ijsonMembers ms
end

theorem ijsonItems_iff {items : List Json} :
    ijsonItems items = true ↔ ∀ item ∈ items, ijsonNumbers item = true := by
  induction items with
  | nil => simp [ijsonItems]
  | cons item items ih => simp [ijsonItems, ih]

theorem ijsonMembers_iff {entries : List (String × Json)} :
    ijsonMembers entries = true ↔ ∀ entry ∈ entries, ijsonNumbers entry.2 = true := by
  induction entries with
  | nil => simp [ijsonMembers]
  | cons entry entries ih => simp [ijsonMembers, ih]

/-- Integers in the interoperable range are doubles. -/
theorem toDoubles_of_ijsonNumbers {tree : Json} (h : ijsonNumbers tree = true) :
    tree.toDoubles = tree := by
  induction tree using Json.induct with
  | null | bool | str => rfl
  | num n =>
    cases n with
    | int n =>
      have hle : n.natAbs ≤ maxSafeInteger := of_decide_eq_true h
      rw [Json.toDoubles, JsonNumber.toDouble, roundInt_of_lt (Nat.lt_succ_of_le hle)]
    | float => rfl
  | arr xs ih =>
    rw [ijsonNumbers, ijsonItems_iff] at h
    rw [Json.toDoubles, Json.toDoublesItems_eq_map]
    have hsame : xs.map Json.toDoubles = xs.map id :=
      List.map_congr_left (fun x hx => ih x hx (h x hx))
    rw [hsame, List.map_id]
  | obj ms ih =>
    rw [ijsonNumbers, ijsonMembers_iff] at h
    rw [Json.toDoubles, Json.toDoublesMembers_eq_map]
    have hsame : ms.map (fun m => (m.1, m.2.toDoubles)) = ms.map id :=
      List.map_congr_left (fun m hm => by rw [ih m hm (h m hm), id])
    rw [hsame, List.map_id]

/-- Interoperable trees are determined up to their canonical form. -/
theorem canonical_eq_of_rfc8785_eq {a b : Json} (ha : ijsonNumbers a = true)
    (hb : ijsonNumbers b = true) (h : a.rfc8785 = b.rfc8785) : a.canonical = b.canonical := by
  rwa [Json.rfc8785, Json.rfc8785, toDoubles_of_ijsonNumbers ha, toDoubles_of_ijsonNumbers hb] at h

/-- Canonicalize a bounded value.  The serializer emits UTF-8, so the source's
check of its output is not modelled. -/
def new (E : Encoding) (value : BoundedJson) : Except CanonicalJsonError CanonicalJson := do
  reject (!ijsonNumbers value.value) .integerOutsideIJsonSafeRange
  let bytes ← okOr (E.toVec value.value) .serialization
  return ⟨bytes, E.sha256 bytes⟩

end CanonicalJson

/-- Bytes of a checksum domain: its name and a terminating zero. -/
def domainBytes (name : String) : List UInt8 := name.toUTF8.toList ++ [0]

/-- SHA-256 over a domain prefix followed by the canonical bytes of a checksum
preimage; absent when the preimage cannot be serialized. -/
def Encoding.domainSeparatedDigest (E : Encoding) (domain : List UInt8) (value : Json) :
    Option Digest :=
  (E.toVec value).map (fun canonical => E.sha256 (domain ++ canonical))

namespace Encoding

variable {E : Encoding}

/-- Under one domain, equal checksums come from preimages that show the same tree. -/
theorem Faithful.rfc8785_of_digest_eq (hE : E.Faithful) {domain : List UInt8}
    {a b : Json} {digest : Digest}
    (ha : E.domainSeparatedDigest domain a = some digest)
    (hb : E.domainSeparatedDigest domain b = some digest) : a.rfc8785 = b.rfc8785 := by
  unfold domainSeparatedDigest at ha hb
  obtain ⟨bytes, hbytes, hdigest⟩ := Option.map_eq_some_iff.mp ha
  obtain ⟨bytes', hbytes', hdigest'⟩ := Option.map_eq_some_iff.mp hb
  have hpreimage := hE.sha256_injective (hdigest.trans hdigest'.symm)
  obtain rfl : bytes = bytes' := List.append_cancel_left hpreimage
  exact hE.determinesTrees hbytes hbytes'

end Encoding

end StateKnot
