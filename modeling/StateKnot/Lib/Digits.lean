import Mathlib.Data.List.Induction
import Mathlib.Order.Basic
import Mathlib.Tactic.IntervalCases
import Mathlib.Tactic.Ring
import Mathlib.Tactic.Tauto
import StateKnot.Lib.Utf8

/-!
# Decimal digits

Numbers written with ASCII digits, the most significant one first.  A digit string is
determined by its length and its value, and among strings of one length the order of the
bytes is the order of the values.  Without leading zeros the length is determined by the
value, so each number has one such string.
-/

namespace Lib

/-- An ASCII digit. -/
def isDigit (byte : UInt8) : Bool := 48 ≤ byte && byte ≤ 57

/-- The number that a digit stands for. -/
def digitValue (byte : UInt8) : Nat := byte.toNat - 48

/-- The digit for a number below ten. -/
def digit (d : Nat) : UInt8 := UInt8.ofNat (48 + d)

/-- The number that a digit string stands for, read from the left. -/
def digitsValue (digits : List UInt8) : Nat :=
  digits.foldl (fun value byte => value * 10 + digitValue byte) 0

/-- All bytes are digits. -/
def AllDigits (digits : List UInt8) : Prop := ∀ byte ∈ digits, isDigit byte = true

variable {digits : List UInt8} {byte : UInt8} {d : Nat} {xs ys : List UInt8} {n : Nat}

theorem isDigit_iff : isDigit byte = true ↔ 48 ≤ byte.toNat ∧ byte.toNat ≤ 57 := by
  simp only [isDigit, Bool.and_eq_true, decide_eq_true_eq, UInt8.le_iff_toNat_le]
  exact Iff.rfl

theorem toNat_digit (hd : d < 10) : (digit d).toNat = 48 + d :=
  Nat.mod_eq_of_lt (by omega)

theorem isDigit_digit (hd : d < 10) : isDigit (digit d) = true := by
  rw [isDigit_iff, toNat_digit hd]
  omega

theorem digitValue_digit (hd : d < 10) : digitValue (digit d) = d := by
  rw [digitValue, toNat_digit hd]
  omega

theorem digitValue_lt (h : isDigit byte = true) : digitValue byte < 10 := by
  have hbounds := isDigit_iff.mp h
  unfold digitValue
  omega

theorem digit_digitValue (h : isDigit byte = true) :
    digit (digitValue byte) = byte := by
  have hbounds := isDigit_iff.mp h
  apply UInt8.toNat_inj.mp
  rw [toNat_digit (digitValue_lt h), digitValue]
  omega

@[simp] theorem digitsValue_nil : digitsValue [] = 0 := rfl

@[simp] theorem digitsValue_concat (digits : List UInt8) (byte : UInt8) :
    digitsValue (digits ++ [byte]) = digitsValue digits * 10 + digitValue byte := by
  rw [digitsValue, List.foldl_append]
  rfl

/-- A first digit counts with the power of ten of the length behind it. -/
theorem digitsValue_cons (byte : UInt8) (digits : List UInt8) :
    digitsValue (byte :: digits) =
      digitValue byte * 10 ^ digits.length + digitsValue digits := by
  induction digits using List.reverseRecOn with
  | nil => simp [digitsValue]
  | append_singleton digits last ih =>
    rw [← List.cons_append, digitsValue_concat, digitsValue_concat, ih, List.length_append,
      List.length_singleton, pow_succ]
    ring

theorem AllDigits.concat_iff :
    AllDigits (digits ++ [byte]) ↔ AllDigits digits ∧ isDigit byte = true := by
  simp [AllDigits, or_imp, forall_and]

theorem digitsValue_lt (h : AllDigits digits) :
    digitsValue digits < 10 ^ digits.length := by
  induction digits using List.reverseRecOn with
  | nil => simp
  | append_singleton digits last ih =>
    obtain ⟨hdigits, hlast⟩ := AllDigits.concat_iff.mp h
    have hvalue := ih hdigits
    have hdigit := digitValue_lt hlast
    rw [digitsValue_concat, List.length_append, List.length_singleton, pow_succ]
    omega

/-! ## A fixed number of digits -/

/-- The last digits of a number, as many as the width. -/
def padded : Nat → Nat → List UInt8
  | 0, _ => []
  | width + 1, n => padded width (n / 10) ++ [digit (n % 10)]

@[simp] theorem length_padded (width : Nat) : ∀ n, (padded width n).length = width := by
  induction width with
  | zero => exact fun _ => rfl
  | succ width ih =>
    intro n
    rw [padded, List.length_append, ih, List.length_singleton]

theorem allDigits_padded (width : Nat) : ∀ n, AllDigits (padded width n) := by
  induction width with
  | zero =>
    intro n byte hbyte
    cases hbyte
  | succ width ih =>
    intro n
    rw [padded, AllDigits.concat_iff]
    exact ⟨ih (n / 10), isDigit_digit (Nat.mod_lt n (by decide))⟩

theorem digitsValue_padded (width : Nat) :
    ∀ {n : Nat}, n < 10 ^ width → digitsValue (padded width n) = n := by
  induction width with
  | zero =>
    intro n hn
    rw [pow_zero, Nat.lt_one_iff] at hn
    rw [hn]
    rfl
  | succ width ih =>
    intro n hn
    have hhead : n / 10 < 10 ^ width := by
      rw [pow_succ] at hn
      omega
    rw [padded, digitsValue_concat, ih hhead, digitValue_digit (Nat.mod_lt n (by decide))]
    omega

/-- A digit string is the padded form of its value. -/
theorem padded_digitsValue (h : AllDigits digits) :
    padded digits.length (digitsValue digits) = digits := by
  induction digits using List.reverseRecOn with
  | nil => rfl
  | append_singleton digits last ih =>
    obtain ⟨hdigits, hlast⟩ := AllDigits.concat_iff.mp h
    have hdigit := digitValue_lt hlast
    rw [List.length_append, List.length_singleton, padded, digitsValue_concat]
    have hdiv : (digitsValue digits * 10 + digitValue last) / 10 = digitsValue digits := by omega
    have hmod : (digitsValue digits * 10 + digitValue last) % 10 = digitValue last := by omega
    rw [hdiv, hmod, ih hdigits, digit_digitValue hlast]

theorem eq_of_digitsValue_eq (hxs : AllDigits xs) (hys : AllDigits ys)
    (hlength : xs.length = ys.length) (hvalue : digitsValue xs = digitsValue ys) : xs = ys := by
  rw [← padded_digitsValue hxs, ← padded_digitsValue hys, hlength, hvalue]

theorem padded_injective {width a b : Nat} (ha : a < 10 ^ width) (hb : b < 10 ^ width)
    (h : padded width a = padded width b) : a = b := by
  rw [← digitsValue_padded width ha, ← digitsValue_padded width hb, h]

/-- Behind fronts of one length the order of the bytes compares the fronts first. -/
theorem append_lt_append_iff {front back : List UInt8} :
    ∀ {front' back' : List UInt8}, front.length = front'.length →
      (front ++ back < front' ++ back' ↔ front < front' ∨ front = front' ∧ back < back') := by
  induction front with
  | nil =>
    intro front' back' hlength
    have hnil : front' = [] := List.length_eq_zero_iff.mp hlength.symm
    subst hnil
    simp
  | cons byte front ih =>
    intro front' back' hlength
    cases front' with
    | nil => cases hlength
    | cons byte' front' =>
      rw [List.cons_append, List.cons_append, List.cons_lt_cons_iff, List.cons_lt_cons_iff,
        ih (Nat.succ.inj hlength), List.cons.injEq]
      tauto

theorem padded_lt_iff {width : Nat} : ∀ {a b : Nat}, a < 10 ^ width → b < 10 ^ width →
    (padded width a < padded width b ↔ a < b) := by
  induction width with
  | zero =>
    intro a b ha hb
    rw [pow_zero, Nat.lt_one_iff] at ha hb
    subst ha
    subst hb
    simp [padded]
  | succ width ih =>
    intro a b ha hb
    rw [pow_succ] at ha hb
    have hdivA : a / 10 < 10 ^ width := by omega
    have hdivB : b / 10 < 10 ^ width := by omega
    have hmodA := toNat_digit (Nat.mod_lt a (show 0 < 10 by decide))
    have hmodB := toNat_digit (Nat.mod_lt b (show 0 < 10 by decide))
    have hlast : [digit (a % 10)] < [digit (b % 10)] ↔ a % 10 < b % 10 := by
      rw [List.cons_lt_cons_iff]
      simp only [List.not_lt_nil, and_false, or_false, UInt8.lt_iff_toNat_lt, hmodA, hmodB]
      omega
    have hfront : padded width (a / 10) = padded width (b / 10) ↔ a / 10 = b / 10 :=
      ⟨padded_injective hdivA hdivB, fun h => by rw [h]⟩
    rw [padded, padded, append_lt_append_iff (by rw [length_padded, length_padded]),
      ih hdivA hdivB, hlast, hfront]
    omega

/-! ## No leading zero -/

/-- A number written with as few digits as possible. -/
structure Shortest (digits : List UInt8) : Prop where
  nonempty : digits ≠ []
  allDigits : AllDigits digits
  leading : 1 < digits.length → digits.head? ≠ some 48

theorem Shortest.pow_le (h : Shortest digits) (hlength : 1 < digits.length) :
    10 ^ (digits.length - 1) ≤ digitsValue digits := by
  cases digits with
  | nil => exact absurd hlength (by simp)
  | cons byte digits =>
    have hbyte := h.allDigits byte List.mem_cons_self
    have hnonzero : byte ≠ 48 := by
      intro hzero
      apply h.leading hlength
      rw [hzero]
      rfl
    have hpositive : 1 ≤ digitValue byte := by
      have hbounds := isDigit_iff.mp hbyte
      have hne : byte.toNat ≠ 48 := fun hzero => hnonzero (UInt8.toNat_inj.mp hzero)
      unfold digitValue
      omega
    rw [digitsValue_cons, List.length_cons, Nat.add_sub_cancel]
    calc 10 ^ digits.length = 1 * 10 ^ digits.length := (Nat.one_mul _).symm
      _ ≤ digitValue byte * 10 ^ digits.length := Nat.mul_le_mul_right _ hpositive
      _ ≤ _ := Nat.le_add_right _ _

theorem Shortest.length_le (hxs : Shortest xs) (hys : AllDigits ys)
    (hnonempty : ys ≠ []) (hle : digitsValue xs ≤ digitsValue ys) : xs.length ≤ ys.length := by
  by_contra hlonger
  have hpos := List.length_pos_of_ne_nil hnonempty
  have hlow := hxs.pow_le (by omega)
  have hhigh := digitsValue_lt hys
  have hmono : 10 ^ ys.length ≤ 10 ^ (xs.length - 1) := Nat.pow_le_pow_right (by decide) (by omega)
  omega

/-- A writing that is no longer than the shortest one is it. -/
theorem Shortest.eq_of_length_le (hxs : Shortest xs) (hys : AllDigits ys)
    (hnonempty : ys ≠ []) (hvalue : digitsValue ys = digitsValue xs)
    (hlength : ys.length ≤ xs.length) : ys = xs := by
  have hle := hxs.length_le hys hnonempty hvalue.ge
  exact Lib.eq_of_digitsValue_eq hys hxs.allDigits (Nat.le_antisymm hlength hle) hvalue

theorem Shortest.eq_of_digitsValue_eq (hxs : Shortest xs) (hys : Shortest ys)
    (hvalue : digitsValue xs = digitsValue ys) : xs = ys :=
  hys.eq_of_length_le hxs.allDigits hxs.nonempty hvalue
    (hxs.length_le hys.allDigits hys.nonempty hvalue.le)

/-- The bytes of the printed number. -/
def printed (n : Nat) : List UInt8 := utf8 (Nat.toDigits 10 n)

theorem utf8EncodeChar_digitChar (hd : d < 10) :
    String.utf8EncodeChar (Nat.digitChar d) = [digit d] := by
  interval_cases d <;> decide

theorem printed_of_lt (hn : n < 10) : printed n = [digit n] := by
  rw [printed, Nat.toDigits_of_lt_base hn, utf8_cons, utf8EncodeChar_digitChar hn]
  rfl

theorem printed_of_le (hn : 10 ≤ n) :
    printed n = printed (n / 10) ++ [digit (n % 10)] := by
  have hmod : n % 10 < 10 := Nat.mod_lt n (by decide)
  rw [printed, Nat.toDigits_of_base_le (by decide) hn, utf8_append, utf8_cons,
    utf8EncodeChar_digitChar hmod]
  rfl

theorem shortest_printed (n : Nat) :
    Shortest (printed n) ∧ digitsValue (printed n) = n ∧
      (0 < n → (printed n).head? ≠ some 48) := by
  induction n using Nat.strong_induction_on with
  | _ n ih =>
    by_cases hsmall : n < 10
    · rw [printed_of_lt hsmall]
      have hdigit := isDigit_digit hsmall
      refine ⟨⟨by simp, by simpa [AllDigits] using hdigit, by simp⟩, ?_, ?_⟩
      · show 0 * 10 + digitValue (digit n) = n
        rw [digitValue_digit hsmall]
        omega
      · intro hpos hhead
        have hbyte : digit n = 48 := Option.some.inj hhead
        have hvalue := toNat_digit hsmall
        rw [hbyte] at hvalue
        have hfortyEight : (48 : UInt8).toNat = 48 := rfl
        omega
    · have hdiv : n / 10 < n := by omega
      obtain ⟨hshortest, hvalue, hleading⟩ := ih (n / 10) hdiv
      have hmod : n % 10 < 10 := Nat.mod_lt n (by decide)
      have hhead : (printed n).head? ≠ some 48 := by
        rw [printed_of_le (by omega), List.head?_append_of_ne_nil _ hshortest.nonempty]
        exact hleading (by omega)
      rw [printed_of_le (by omega)] at hhead ⊢
      refine ⟨⟨by simp, ?_, fun _ => hhead⟩, ?_, fun _ => hhead⟩
      · exact AllDigits.concat_iff.mpr ⟨hshortest.allDigits, isDigit_digit hmod⟩
      · rw [digitsValue_concat, hvalue, digitValue_digit hmod]
        omega

/-- The printed form is the only shortest writing of a number. -/
theorem shortest_iff :
    Shortest digits ∧ digitsValue digits = n ↔ digits = printed n := by
  obtain ⟨hshortest, hvalue, _⟩ := shortest_printed n
  constructor
  · intro ⟨hdigits, hn⟩
    exact hdigits.eq_of_digitsValue_eq hshortest (hn.trans hvalue.symm)
  · intro heq
    rw [heq]
    exact ⟨hshortest, hvalue⟩

theorem length_printed_le {m n : Nat} (h : m ≤ n) : (printed m).length ≤ (printed n).length := by
  obtain ⟨hm, hmValue, _⟩ := shortest_printed m
  obtain ⟨hn, hnValue, _⟩ := shortest_printed n
  apply hm.length_le hn.allDigits hn.nonempty
  rw [hmValue, hnValue]
  exact h

theorem length_printed_le_width {n width : Nat} (hwidth : 0 < width) (hn : n < 10 ^ width) :
    (printed n).length ≤ width := by
  obtain ⟨hshortest, hvalue, _⟩ := shortest_printed n
  have hpadded := digitsValue_padded width hn
  have hnonempty : padded width n ≠ [] := by
    apply List.ne_nil_of_length_pos
    rwa [length_padded]
  have hle := hshortest.length_le (allDigits_padded width n) hnonempty (by omega)
  rwa [length_padded] at hle

theorem digitsValue_zeros_append (zeros : Nat) (digits : List UInt8) :
    digitsValue (List.replicate zeros 48 ++ digits) = digitsValue digits := by
  induction zeros with
  | zero => rfl
  | succ zeros ih =>
    rw [List.replicate_succ, List.cons_append, digitsValue_cons, ih]
    have hzero : digitValue 48 = 0 := rfl
    rw [hzero, Nat.zero_mul, Nat.zero_add]

/-- A printed number filled up with zeros has the digits of its place. -/
theorem zeros_append_printed {n width : Nat} (hwidth : 0 < width) (hn : n < 10 ^ width) :
    List.replicate (width - (printed n).length) 48 ++ printed n = padded width n := by
  obtain ⟨hshortest, hvalue, _⟩ := shortest_printed n
  have hlength := length_printed_le_width hwidth hn
  apply eq_of_digitsValue_eq _ (allDigits_padded width n)
  · rw [List.length_append, List.length_replicate, length_padded]
    omega
  · rw [digitsValue_zeros_append, hvalue, digitsValue_padded width hn]
  · intro byte hbyte
    rcases List.mem_append.mp hbyte with hzero | hdigit
    · rw [List.eq_of_mem_replicate hzero]
      rfl
    · exact hshortest.allDigits byte hdigit

end Lib
