import Mathlib.Algebra.Order.BigOperators.Group.List
import StateKnot.Encoding
import StateKnot.Lib.Result

/-!
# How documents are written

The serializer is not part of the repository.  What some results need to know of it
is that it writes part by part, as RFC 8785 has it: a document with fewer or shorter
parts is never longer, and a part can be exchanged for one that is written alike.
-/

namespace StateKnot

open Lib

variable {E : Encoding}

/-! ## The size of written documents -/

/-- Texts between two brackets, with a comma between each two. -/
def bracketed (left right : UInt8) (texts : List (List UInt8)) : List UInt8 :=
  left :: List.intercalate [44] texts ++ [right]

def Encoding.memberText (E : Encoding) (entry : String × Json) : Option (List UInt8) := do
  let name ← E.toVec (.str entry.1)
  let value ← E.toVec entry.2
  return name ++ 58 :: value

/-- The serializer writes arrays and objects part by part, as RFC 8785 has it; the members
of an object are written in an order that does not matter here. -/
structure Encoding.WritesParts (E : Encoding) : Prop where
  arr : ∀ items, E.toVec (.arr items) = (items.mapM E.toVec).map (bracketed 91 93)
  obj : ∀ entries, (entries.map Prod.fst).Nodup → ∃ ordered : List (String × Json),
    ordered.Perm entries ∧
      E.toVec (.obj entries) = (ordered.mapM E.memberText).map (bracketed 123 125)

section Bracketed

variable {α : Type} {f : α → Option (List UInt8)} {left right : UInt8} {items : List α}
  {bytes : List UInt8}

theorem length_intercalate_comma (texts : List (List UInt8)) :
    (List.intercalate [44] texts).length = (texts.map List.length).sum + (texts.length - 1) := by
  induction texts with
  | nil => rfl
  | cons text texts ih =>
    cases texts with
    | nil => simp
    | cons next rest =>
      rw [List.intercalate_cons_cons, List.length_append, List.length_append, ih]
      simp only [List.map_cons, List.sum_cons, List.length_cons, List.length_nil]
      omega

/-- How much of the text an item takes. -/
def textLength (f : α → Option (List UInt8)) (item : α) : Nat := ((f item).getD []).length

theorem exists_of_bracketed (h : (items.mapM f).map (bracketed left right) = some bytes) :
    ∀ item ∈ items, ∃ text, f item = some text := by
  obtain ⟨texts, htexts, _⟩ := Option.map_eq_some_iff.mp h
  exact (mapM_eq_some_iff.mp htexts).1

/-- Items that can be written can be written together. -/
theorem bracketed_eq_some (left right : UInt8) (h : ∀ item ∈ items, ∃ text, f item = some text) :
    ∃ bytes, (items.mapM f).map (bracketed left right) = some bytes ∧
      bytes.length = 2 + (items.map (textLength f)).sum + (items.length - 1) := by
  have hmap : items.mapM f = some (items.map fun item => (f item).getD []) := by
    refine mapM_eq_some_map fun item hitem => ?_
    obtain ⟨text, htext⟩ := h item hitem
    rw [htext]
    rfl
  rw [hmap]
  refine ⟨_, rfl, ?_⟩
  simp only [bracketed, List.cons_append, List.length_cons, List.length_append, List.length_nil,
    length_intercalate_comma, List.map_map, List.length_map]
  have hsum : (items.map (List.length ∘ fun item => (f item).getD [])).sum =
      (items.map (textLength f)).sum := rfl
  omega

theorem length_bracketed (h : (items.mapM f).map (bracketed left right) = some bytes) :
    bytes.length = 2 + (items.map (textLength f)).sum + (items.length - 1) := by
  obtain ⟨bytes', hbytes', hlength⟩ :=
    bracketed_eq_some left right (exists_of_bracketed h)
  rw [Option.some.inj (h.symm.trans hbytes'), hlength]

end Bracketed

namespace Encoding.WritesParts

/-- An array with one item less is written in no more bytes. -/
theorem arr_le (hE : E.WritesParts) {items items' : List Json} {item : Json}
    {bytes : List UInt8} (hperm : items'.Perm (item :: items))
    (h : E.toVec (.arr items') = some bytes) :
    ∃ shorter, E.toVec (.arr items) = some shorter ∧ shorter.length ≤ bytes.length := by
  rw [hE.arr] at h ⊢
  have hitems : ∀ other ∈ items, ∃ text, E.toVec other = some text := fun other hother =>
    exists_of_bracketed h other (hperm.mem_iff.mpr (List.mem_cons_of_mem item hother))
  obtain ⟨shorter, hshorter, hlength⟩ := bracketed_eq_some 91 93 hitems
  refine ⟨shorter, hshorter, ?_⟩
  rw [hlength, length_bracketed h, hperm.length_eq, (hperm.map _).sum_eq, List.map_cons,
    List.sum_cons, List.length_cons]
  omega

/-- An object with a shorter value is written in no more bytes. -/
theorem obj_le (hE : E.WritesParts) {before after : List (String × Json)} {name : String}
    {value value' : Json} {text text' bytes : List UInt8}
    (hnodup : ((before ++ (name, value) :: after).map Prod.fst).Nodup)
    (h : E.toVec (.obj (before ++ (name, value') :: after)) = some bytes)
    (htext : E.toVec value = some text) (htext' : E.toVec value' = some text')
    (hle : text.length ≤ text'.length) :
    ∃ shorter, E.toVec (.obj (before ++ (name, value) :: after)) = some shorter ∧
      shorter.length ≤ bytes.length := by
  have hnames : (before ++ (name, value') :: after).map Prod.fst =
      (before ++ (name, value) :: after).map Prod.fst := by
    simp only [List.map_append, List.map_cons]
  obtain ⟨ordered, hperm, hobj⟩ := hE.obj _ hnodup
  obtain ⟨ordered', hperm', hobj'⟩ := hE.obj _ (hnames ▸ hnodup)
  rw [hobj'] at h
  have hall : ∀ entry ∈ before ++ (name, value') :: after, ∃ text, E.memberText entry = some text :=
    fun entry hentry => exists_of_bracketed h entry (hperm'.mem_iff.mpr hentry)
  obtain ⟨whole, hwhole⟩ := hall (name, value') (by simp)
  obtain ⟨nameText, hname, _⟩ := Option.bind_eq_some_iff.mp hwhole
  have hmember : E.memberText (name, value) = some (nameText ++ 58 :: text) := by
    simp [memberText, hname, htext]
  have hmember' : E.memberText (name, value') = some (nameText ++ 58 :: text') := by
    simp [memberText, hname, htext']
  rw [hobj]
  have hordered : ∀ entry ∈ ordered, ∃ text, E.memberText entry = some text := by
    intro entry hentry
    rcases List.mem_append.mp (hperm.mem_iff.mp hentry) with hentry | hentry
    · exact hall entry (List.mem_append_left _ hentry)
    · rcases List.mem_cons.mp hentry with rfl | hentry
      · exact ⟨_, hmember⟩
      · exact hall entry (List.mem_append_right _ (List.mem_cons_of_mem _ hentry))
  obtain ⟨shorter, hshorter, hlength⟩ := bracketed_eq_some 123 125 hordered
  refine ⟨shorter, hshorter, ?_⟩
  rw [hlength, length_bracketed h, hperm.length_eq, hperm'.length_eq, (hperm.map _).sum_eq,
    (hperm'.map _).sum_eq]
  simp only [List.map_append, List.map_cons, List.sum_append, List.sum_cons, List.length_append,
    List.length_cons, textLength, hmember, hmember', Option.getD_some]
  omega

end Encoding.WritesParts

/-! ## A compact encoding

The reference encoding keeps every byte, so its digests grow with what they cover.
Concrete runs use an encoding with digests of fixed size: texts as the serializer
writes them, and a 64-bit FNV-1a checksum in place of the hash.  A writer puts its text
before what follows it, so that a document is written in one pass. -/

namespace Compact

def utf8 (s : String) : List UInt8 := s.toByteArray.data.toList

/-- A JSON string; printable texts need no other escapes. -/
def writeString (s : String) (rest : List UInt8) : List UInt8 :=
  34 :: (utf8 s).foldr (fun b rest => if b = 34 ∨ b = 92 then 92 :: b :: rest else b :: rest)
    (34 :: rest)

/-- Parts with a comma between each two. -/
def writeParts : List (List UInt8 → List UInt8) → List UInt8 → List UInt8
  | [], rest => rest
  | [part], rest => part rest
  | part :: parts, rest => part (44 :: writeParts parts rest)

/-- The order of member names, by their bytes. -/
def nameOrder {α : Type} (entry : String × α) : List Nat := (utf8 entry.1).map UInt8.toNat

mutual
/-- A tree, with the members of every object in the order of their names. -/
def writeTree : Json → List UInt8 → List UInt8
  | .null, rest => utf8 "null" ++ rest
  | .bool b, rest => utf8 (if b then "true" else "false") ++ rest
  | .num (.int n), rest => utf8 (if n < 0 then "-" else "") ++ utf8 (Nat.repr n.natAbs) ++ rest
  | .num (.float _ text), rest => utf8 text ++ rest
  | .str s, rest => writeString s rest
  | .arr xs, rest => 91 :: writeParts (itemWriters xs) (93 :: rest)
  | .obj ms, rest =>
    123 :: writeParts ((sortByKey nameOrder (memberWriters ms)).map Prod.snd) (125 :: rest)

def itemWriters : List Json → List (List UInt8 → List UInt8)
  | [] => []
  | x :: xs => writeTree x :: itemWriters xs

def memberWriters : List (String × Json) → List (String × (List UInt8 → List UInt8))
  | [] => []
  | (k, v) :: ms => (k, fun rest => writeString k (58 :: writeTree v rest)) :: memberWriters ms
end

def checksum (bytes : List UInt8) : Nat :=
  bytes.foldl (fun hash byte => ((hash ^^^ byte.toNat) * 1099511628211) % 2 ^ 64)
    14695981039346656037

end Compact

/-- Texts as the serializer writes them, with short checksums. -/
def Encoding.compact : Encoding where
  toVec json := some (Compact.writeTree json [])
  sha256 bytes := ⟨(List.range 8).map
    (fun i => UInt8.ofNat (Compact.checksum bytes / 256 ^ (7 - i) % 256))⟩
  timestampText instant := Nat.repr (instant.micros + 62167219200000000).toNat

namespace Compact

/-- A writer leaves what follows its text as it is. -/
def Appends (write : List UInt8 → List UInt8) : Prop := ∀ rest, write rest = write [] ++ rest

theorem appends_writeString (s : String) : Appends (writeString s) := by
  intro rest
  simp only [writeString, List.cons_append, List.cons.injEq, true_and]
  induction utf8 s with
  | nil => rfl
  | cons b bs ih =>
    simp only [List.foldr_cons, ih]
    split <;> rfl

theorem writeParts_eq {parts : List (List UInt8 → List UInt8)} (h : ∀ part ∈ parts, Appends part)
    (rest : List UInt8) :
    writeParts parts rest = List.intercalate [44] (parts.map fun part => part []) ++ rest := by
  induction parts with
  | nil => rfl
  | cons part parts ih =>
    obtain ⟨hpart, hparts⟩ := List.forall_mem_cons.mp h
    cases parts with
    | nil => simpa [writeParts] using hpart rest
    | cons next parts =>
      rw [writeParts, hpart, ih hparts]
      · simp [List.intercalate_cons_cons]
      · exact List.cons_ne_nil _ _

theorem itemWriters_eq_map (xs : List Json) : itemWriters xs = xs.map writeTree := by
  induction xs with
  | nil => rfl
  | cons x xs ih => rw [itemWriters, ih, List.map_cons]

/-- The writer of one member. -/
def writeMember (entry : String × Json) (rest : List UInt8) : List UInt8 :=
  writeString entry.1 (58 :: writeTree entry.2 rest)

theorem memberWriters_eq_map (ms : List (String × Json)) :
    memberWriters ms = ms.map fun entry => (entry.1, writeMember entry) := by
  induction ms with
  | nil => rfl
  | cons m ms ih => rw [memberWriters, ih, List.map_cons]; rfl

theorem sorted_memberWriters (ms : List (String × Json)) :
    (sortByKey nameOrder (memberWriters ms)).map Prod.snd =
      (sortByKey nameOrder ms).map writeMember := by
  rw [memberWriters_eq_map, ← map_sortByKey (fun _ => rfl), List.map_map]
  rfl

theorem appends_members {ms : List (String × Json)}
    (h : ∀ entry ∈ ms, Appends (writeTree entry.2)) :
    ∀ part ∈ (sortByKey nameOrder ms).map writeMember, Appends part := by
  intro part hpart rest
  obtain ⟨entry, hentry, rfl⟩ := List.mem_map.mp hpart
  have hvalue := h entry ((sortByKey_perm _ _).mem_iff.mp hentry)
  rw [writeMember, writeMember, appends_writeString, appends_writeString _ (58 :: _), hvalue]
  simp only [List.append_assoc, List.cons_append]

theorem appends_writeTree (json : Json) : Appends (writeTree json) := by
  induction json using Json.induct with
  | null | bool | str => intro rest; simp [writeTree, ← appends_writeString _ rest]
  | num n => intro rest; cases n <;> simp [writeTree]
  | arr xs ih =>
    have hparts : ∀ part ∈ itemWriters xs, Appends part := by
      simpa [itemWriters_eq_map] using ih
    intro rest
    simp [writeTree, writeParts_eq hparts]
  | obj ms ih =>
    intro rest
    simp [writeTree, sorted_memberWriters, writeParts_eq (appends_members ih)]

theorem toVec_arr (items : List Json) : Encoding.compact.toVec (.arr items) =
    (items.mapM Encoding.compact.toVec).map (bracketed 91 93) := by
  have hmap : items.mapM Encoding.compact.toVec = some (items.map fun item => writeTree item []) :=
    mapM_eq_some_map fun item _ => rfl
  have hparts : ∀ part ∈ items.map writeTree, Appends part := by
    simp [appends_writeTree]
  show some (writeTree (.arr items) []) = _
  rw [hmap, writeTree, itemWriters_eq_map, writeParts_eq hparts, List.map_map]
  rfl

theorem toVec_obj (entries : List (String × Json)) : Encoding.compact.toVec (.obj entries) =
    ((sortByKey nameOrder entries).mapM Encoding.compact.memberText).map
      (bracketed 123 125) := by
  have hmap : (sortByKey nameOrder entries).mapM Encoding.compact.memberText =
      some ((sortByKey nameOrder entries).map fun entry => writeMember entry []) :=
    mapM_eq_some_map fun entry _ =>
      congrArg some (appends_writeString entry.1 (58 :: writeTree entry.2 [])).symm
  have hparts := appends_members fun entry (_ : entry ∈ entries) => appends_writeTree entry.2
  show some (writeTree (.obj entries) []) = _
  rw [hmap, writeTree, sorted_memberWriters, writeParts_eq hparts, List.map_map]
  rfl

theorem two_le_textLength_str (s : String) : 2 ≤ textLength Encoding.compact.toVec (.str s) := by
  show 2 ≤ (writeString s []).length
  rw [writeString, List.length_cons]
  refine Nat.succ_le_succ ?_
  induction utf8 s with
  | nil => exact Nat.le_refl 1
  | cons b bs ih =>
    rw [List.foldr_cons]
    split <;> exact Nat.le_add_left ..

theorem sum_le_textLength_arr (xs : List Json) :
    (xs.map (textLength Encoding.compact.toVec)).sum + 2 ≤
      textLength Encoding.compact.toVec (.arr xs) := by
  have hlength := length_bracketed (toVec_arr xs).symm
  have : textLength Encoding.compact.toVec (.arr xs) = (writeTree (.arr xs) []).length := rfl
  omega

theorem textLength_le_textLength_obj {ms : List (String × Json)} (entry : String × Json)
    (hentry : entry ∈ ms) : textLength Encoding.compact.toVec entry.2 ≤
      textLength Encoding.compact.toVec (.obj ms) := by
  have hlength := length_bracketed (toVec_obj ms).symm
  have hmember : textLength Encoding.compact.toVec entry.2 ≤
      textLength Encoding.compact.memberText entry := by
    show (writeTree entry.2 []).length ≤ (writeString entry.1 [] ++ 58 :: writeTree entry.2 []).length
    simp only [List.length_append, List.length_cons]
    omega
  have hsum := List.single_le_sum (fun _ _ => Nat.zero_le _) _ (List.mem_map_of_mem
    (f := textLength Encoding.compact.memberText)
    ((sortByKey_perm nameOrder ms).mem_iff.mpr hentry))
  have hobj : textLength Encoding.compact.toVec (.obj ms) = (writeTree (.obj ms) []).length := rfl
  omega

end Compact

theorem Encoding.compact_writesParts : Encoding.compact.WritesParts where
  arr := Compact.toVec_arr
  obj entries _ := ⟨_, sortByKey_perm _ _, Compact.toVec_obj entries⟩

end StateKnot
