import Mathlib

/-!
# Positions in UTF-8 text

A byte of a UTF-8 text starts a character unless it is a continuation byte.  A position
of the text is a character boundary when it is the end or holds such a byte; these are the
lengths of the encodings of the text's prefixes.
-/

namespace Lib

/-- The UTF-8 encoding of a text. -/
def utf8 (text : List Char) : List UInt8 := text.flatMap String.utf8EncodeChar

@[simp] theorem utf8_nil : utf8 [] = [] := rfl

@[simp] theorem utf8_cons (c : Char) (text : List Char) :
    utf8 (c :: text) = String.utf8EncodeChar c ++ utf8 text := rfl

@[simp] theorem utf8_append (front back : List Char) :
    utf8 (front ++ back) = utf8 front ++ utf8 back := List.flatMap_append

theorem length_utf8 (text : List Char) : (utf8 text).length = (text.map Char.utf8Size).sum := by
  induction text with
  | nil => rfl
  | cons c text ih => simp [ih]

variable {text : List Char} {index : Nat}

theorem utf8_eq_nil : utf8 text = [] ↔ text = [] := by
  cases text with
  | nil => simp
  | cons c text => simp [String.utf8EncodeChar_ne_nil]

theorem utf8_toList (text : String) : utf8 text.toList = text.toUTF8.data.toList := by
  have hbytes : text.toList.utf8Encode = text.toByteArray := String.utf8Encode_toList
  rw [String.toUTF8, ← hbytes, List.utf8Encode, List.toList_data_toByteArray]
  rfl

theorem toUTF8_append (text other : String) : (text ++ other).toUTF8.data.toList =
    text.toUTF8.data.toList ++ other.toUTF8.data.toList := by
  rw [← utf8_toList, ← utf8_toList, ← utf8_toList, String.toList_append, utf8_append]

theorem utf8ByteSize_eq_length (text : String) :
    text.utf8ByteSize = text.toUTF8.data.toList.length := Array.length_toList.symm

theorem utf8ByteSize_ofList (text : List Char) :
    (String.ofList text).utf8ByteSize = (utf8 text).length := by
  rw [utf8ByteSize_eq_length, ← utf8_toList, String.toList_ofList]

theorem utf8ByteSize_of_ascii {text : String} (h : ∀ c ∈ text.toList, c.utf8Size = 1) :
    text.utf8ByteSize = text.toList.length := by
  rw [utf8ByteSize_eq_length, ← utf8_toList, length_utf8, List.map_congr_left h]
  simp

theorem toUTF8_injective {text other : String}
    (h : text.toUTF8.data.toList = other.toUTF8.data.toList) : text = other :=
  String.toByteArray_inj.mp (ByteArray.ext (Array.toList_inj.mp h))

/-- A byte that starts a character. -/
def startsChar (byte : UInt8) : Bool := byte < 128 || 192 ≤ byte

/-- Exactly the first byte of an encoded character starts one; an ASCII byte is the character
itself. -/
theorem utf8EncodeChar_bytes (c : Char) : ∃ first rest, String.utf8EncodeChar c = first :: rest ∧
    startsChar first = true ∧ (∀ byte ∈ rest, startsChar byte = false) ∧
      (first.toNat < 128 → rest = [] ∧ first.toNat = c.toNat) := by
  have hbyte : ∀ n, n < 256 → (UInt8.ofNat n).toNat = n := fun n hn => Nat.mod_eq_of_lt hn
  have hcontinuation : ∀ n, startsChar (UInt8.ofNat (n % 64 + 128)) = false := by
    intro n
    have hn := hbyte (n % 64 + 128) (by omega)
    simp only [startsChar, UInt8.lt_iff_toNat_lt, UInt8.le_iff_toNat_le, hn, Bool.or_eq_false_iff,
      decide_eq_false_iff_not]
    constructor
    · show ¬ n % 64 + 128 < 128
      omega
    · show ¬ 192 ≤ n % 64 + 128
      omega
  have hlead : ∀ n, 192 ≤ n → n < 256 → startsChar (UInt8.ofNat n) = true := by
    intro n hlow hhigh
    simp only [startsChar, UInt8.lt_iff_toNat_lt, UInt8.le_iff_toNat_le, hbyte n hhigh,
      Bool.or_eq_true, decide_eq_true_eq]
    exact .inr hlow
  have hlarge : ∀ {n : Nat} {rest : List UInt8}, 192 ≤ n → n < 256 →
      ((UInt8.ofNat n).toNat < 128 → rest = [] ∧ (UInt8.ofNat n).toNat = c.toNat) := by
    intro n rest hlow hhigh hascii
    rw [hbyte n hhigh] at hascii
    omega
  rw [String.utf8EncodeChar]
  split_ifs with hone htwo hthree
  · have hsmall : c.val.toNat < 256 := by omega
    refine ⟨_, _, rfl, ?_, by simp, fun _ => ⟨rfl, hbyte _ hsmall⟩⟩
    simp only [startsChar, UInt8.lt_iff_toNat_lt, hbyte _ hsmall, Bool.or_eq_true,
      decide_eq_true_eq]
    exact .inl (show c.val.toNat < 128 by omega)
  · refine ⟨_, _, rfl, hlead _ (by omega) (by omega), ?_, hlarge (by omega) (by omega)⟩
    simp only [List.forall_mem_cons, hcontinuation, List.not_mem_nil, false_implies, implies_true,
      and_self]
  · refine ⟨_, _, rfl, hlead _ (by omega) (by omega), ?_, hlarge (by omega) (by omega)⟩
    simp only [List.forall_mem_cons, hcontinuation, List.not_mem_nil, false_implies, implies_true,
      and_self]
  · refine ⟨_, _, rfl, hlead _ (by omega) (by omega), ?_, hlarge (by omega) (by omega)⟩
    simp only [List.forall_mem_cons, hcontinuation, List.not_mem_nil, false_implies, implies_true,
      and_self]

/-- An ASCII byte of an encoded character is the whole character. -/
theorem eq_of_ascii_mem {c : Char} {byte : UInt8} (h : byte ∈ String.utf8EncodeChar c)
    (hascii : byte.toNat < 128) : byte.toNat = c.toNat := by
  obtain ⟨first, rest, hencode, _, hrest, hsingle⟩ := utf8EncodeChar_bytes c
  rw [hencode] at h
  rcases List.mem_cons.mp h with hfirst | htail
  · rw [hfirst] at hascii ⊢
    exact (hsingle hascii).2
  · have hnone := hrest byte htail
    simp only [startsChar, Bool.or_eq_false_iff, decide_eq_false_iff_not] at hnone
    exact absurd (UInt8.lt_iff_toNat_lt.mpr hascii) hnone.1

/-- A position at which a text may be cut: the start, the end or the first byte of a
character. -/
def isCharBoundary (bytes : List UInt8) (index : Nat) : Bool :=
  index == 0 || match bytes[index]? with
    | none => index == bytes.length
    | some byte => startsChar byte

theorem isCharBoundary_zero (bytes : List UInt8) : isCharBoundary bytes 0 = true := rfl

/-- Inside a character there is no boundary. -/
theorem isCharBoundary_inside {c : Char} (hpos : 0 < index)
    (hindex : index < c.utf8Size) : isCharBoundary (utf8 (c :: text)) index = false := by
  obtain ⟨first, rest, hencode, _, hrest, _⟩ := utf8EncodeChar_bytes c
  have hlength : (first :: rest).length = c.utf8Size := by
    rw [← hencode, String.length_utf8EncodeChar]
  obtain ⟨k, rfl⟩ : ∃ k, index = k + 1 := ⟨index - 1, by omega⟩
  have hk : k < rest.length := by
    rw [List.length_cons] at hlength
    omega
  rw [isCharBoundary, utf8_cons, hencode, List.cons_append, List.getElem?_cons_succ,
    List.getElem?_append_left hk, List.getElem?_eq_getElem hk]
  simpa using hrest rest[k] (List.getElem_mem hk)

/-- Past the first character the boundaries are those of the rest. -/
theorem isCharBoundary_add (c : Char) (text : List Char) (index : Nat) :
    isCharBoundary (utf8 (c :: text)) (c.utf8Size + index) = isCharBoundary (utf8 text) index := by
  have hpos := c.utf8Size_pos
  have hnonzero : (c.utf8Size + index == 0) = false := by
    rw [beq_eq_false_iff_ne]
    omega
  have hget : (utf8 (c :: text))[c.utf8Size + index]? = (utf8 text)[index]? := by
    rw [utf8_cons, ← String.length_utf8EncodeChar, List.getElem?_append_right (by omega)]
    simp
  rw [isCharBoundary, isCharBoundary, hnonzero, hget, Bool.false_or, utf8_cons, List.length_append,
    String.length_utf8EncodeChar]
  cases text with
  | nil =>
    cases index with
    | zero => simp
    | succ index => simp
  | cons d text =>
    cases index with
    | zero =>
      obtain ⟨first, rest, hencode, hfirst, _⟩ := utf8EncodeChar_bytes d
      rw [utf8_cons, hencode]
      simpa using hfirst
    | succ index =>
      cases (utf8 (d :: text))[index + 1]? with
      | none => simp
      | some byte => simp

/-- The boundaries of a text are the lengths of the encodings of its prefixes. -/
theorem isCharBoundary_iff : ∀ {index : Nat}, isCharBoundary (utf8 text) index = true ↔
      ∃ front back, text = front ++ back ∧ (utf8 front).length = index := by
  induction text with
  | nil =>
    intro index
    simp only [isCharBoundary, utf8_nil, List.getElem?_nil, List.length_nil, Bool.or_self,
      beq_iff_eq]
    constructor
    · intro h
      exact ⟨[], [], rfl, h.symm⟩
    · intro ⟨front, back, hsplit, hlength⟩
      rw [← hlength, (List.append_eq_nil_iff.mp hsplit.symm).1]
      rfl
  | cons c text ih =>
    intro index
    by_cases hzero : index = 0
    · rw [hzero, isCharBoundary_zero]
      simp only [true_iff]
      exact ⟨[], c :: text, rfl, rfl⟩
    by_cases hinside : index < c.utf8Size
    · rw [isCharBoundary_inside (by omega) hinside]
      simp only [Bool.false_eq_true, false_iff]
      intro ⟨front, back, hsplit, hlength⟩
      cases front with
      | nil => exact hzero hlength.symm
      | cons d front =>
        obtain ⟨rfl, _⟩ := List.cons.inj hsplit
        rw [utf8_cons, List.length_append, String.length_utf8EncodeChar] at hlength
        omega
    · obtain ⟨rest, rfl⟩ : ∃ rest, index = c.utf8Size + rest := ⟨index - c.utf8Size, by omega⟩
      rw [isCharBoundary_add, ih]
      constructor
      · intro ⟨front, back, hsplit, hlength⟩
        refine ⟨c :: front, back, by rw [hsplit, List.cons_append], ?_⟩
        rw [utf8_cons, List.length_append, String.length_utf8EncodeChar, hlength]
      · intro ⟨front, back, hsplit, hlength⟩
        cases front with
        | nil => exact absurd hlength.symm hzero
        | cons d front =>
          obtain ⟨rfl, htext⟩ := List.cons.inj hsplit
          rw [utf8_cons, List.length_append, String.length_utf8EncodeChar] at hlength
          exact ⟨front, back, htext, by omega⟩

/-- The last boundary at or before a position. -/
def boundaryBefore (bytes : List UInt8) : Nat → Nat
  | 0 => 0
  | index + 1 =>
    if isCharBoundary bytes (index + 1) then index + 1 else boundaryBefore bytes index

theorem boundaryBefore_le (bytes : List UInt8) (index : Nat) :
    boundaryBefore bytes index ≤ index := by
  induction index with
  | zero => exact le_refl _
  | succ index ih =>
    rw [boundaryBefore]
    split_ifs
    · exact le_refl _
    · exact ih.trans (Nat.le_succ index)

theorem isCharBoundary_boundaryBefore (bytes : List UInt8) (index : Nat) :
    isCharBoundary bytes (boundaryBefore bytes index) = true := by
  induction index with
  | zero => rfl
  | succ index ih =>
    rw [boundaryBefore]
    split_ifs with hboundary
    · exact hboundary
    · exact ih

/-- A boundary at or before the position is not passed. -/
theorem le_boundaryBefore {bytes : List UInt8} {boundary : Nat}
    (h : isCharBoundary bytes boundary = true) (hle : boundary ≤ index) :
    boundary ≤ boundaryBefore bytes index := by
  induction index with
  | zero => exact hle
  | succ index ih =>
    rw [boundaryBefore]
    split_ifs with hboundary
    · exact hle
    · apply ih
      rcases Nat.lt_or_eq_of_le hle with hlt | heq
      · exact Nat.le_of_lt_succ hlt
      · rw [heq] at h
        exact absurd h hboundary

/-- The search does not pass the first character. -/
theorem boundaryBefore_pos (htext : text ≠ [])
    (hindex : 4 ≤ index) : 0 < boundaryBefore (utf8 text) (min (utf8 text).length index) := by
  cases text with
  | nil => exact absurd rfl htext
  | cons c text =>
    have hfirst : isCharBoundary (utf8 (c :: text)) c.utf8Size = true := by
      rw [isCharBoundary_iff]
      exact ⟨[c], text, rfl, by simp [utf8]⟩
    have hlength : c.utf8Size ≤ (utf8 (c :: text)).length := by
      rw [utf8_cons, List.length_append, String.length_utf8EncodeChar]
      omega
    have hfour := c.utf8Size_le_four
    exact Nat.lt_of_lt_of_le c.utf8Size_pos
      (le_boundaryBefore hfirst (le_min hlength (hfour.trans hindex)))

end Lib
