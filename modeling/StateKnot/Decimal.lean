import StateKnot.Lib.Digits
import StateKnot.Lib.Result

/-!
# Canonical decimal strings

Full-width integers travel as decimal strings.  The parser rejects early what is longer
than the bound's own writing, then every byte that is no digit, then leading zeros, and
only then reads the number; it accepts exactly the shortest writing of each number within
the bound.
-/

namespace StateKnot

open Lib

inductive UnsignedDecimalError where
  | empty
  | tooLong (max actual : Nat)
  | invalidCharacter (index : Nat)
  | leadingZero
  | overflow

/-- The loop of `decimal_digits` with its counter. -/
def countDigits (digits value : Nat) : Nat :=
  if value ≥ 10 then countDigits (digits + 1) (value / 10) else digits
termination_by value

def decimalDigits (value : UInt64) : Nat := countDigits 1 value.toNat

/-- One digit more; `none` when the number does not fit. -/
def pushDigit (value : UInt64) (byte : UInt8) : Option UInt64 :=
  let next := value.toNat * 10 + digitValue byte
  if next < 2 ^ 64 then some (UInt64.ofNat next) else none

/-- `str::parse::<u64>` on a text of digits. -/
def parseU64 (digits : List UInt8) : Option UInt64 := digits.foldlM pushDigit 0

def rejectNonDigit (bytes : List UInt8) : Except UnsignedDecimalError Unit :=
  match bytes.findIdx? (fun byte => !isDigit byte) with
  | some index => .error (.invalidCharacter index)
  | none => .ok ()

def parseBoundedU64 (value : String) (maximum : UInt64) :
    Except UnsignedDecimalError UInt64 := do
  let bytes := value.toUTF8.data.toList
  reject (bytes = []) .empty
  let maxLen := decimalDigits maximum
  reject (bytes.length > maxLen) (.tooLong maxLen bytes.length)
  rejectNonDigit bytes
  reject (bytes.length > 1 ∧ bytes.head? = some 48) .leadingZero
  let parsed ← okOr (parseU64 bytes) .overflow
  reject (parsed > maximum) .overflow
  return parsed

/-! ## The checks -/

theorem countDigits_eq (value : Nat) :
    ∀ digits, countDigits digits value + 1 = digits + (printed value).length := by
  induction value using Nat.strong_induction_on with
  | _ value ih =>
    intro digits
    rw [countDigits]
    by_cases hlarge : value ≥ 10
    · rw [if_pos hlarge, ih (value / 10) (by omega), printed_of_le hlarge, List.length_append,
        List.length_singleton]
      omega
    · rw [if_neg hlarge, printed_of_lt (by omega)]
      rfl

theorem decimalDigits_eq (value : UInt64) :
    decimalDigits value = (printed value.toNat).length := by
  have hcount := countDigits_eq value.toNat 1
  unfold decimalDigits
  omega

theorem rejectNonDigit_eq_ok {bytes : List UInt8} {u : Unit} :
    rejectNonDigit bytes = .ok u ↔ AllDigits bytes := by
  unfold rejectNonDigit
  cases hfound : bytes.findIdx? (fun byte => !isDigit byte) with
  | none =>
    simp only [true_iff]
    intro byte hbyte
    simpa using List.findIdx?_eq_none_iff.mp hfound byte hbyte
  | some index =>
    simp only [reduceCtorEq, false_iff]
    intro hall
    obtain ⟨hindex, hbyte, _⟩ := List.findIdx?_eq_some_iff_getElem.mp hfound
    have hdigit := hall bytes[index] (List.getElem_mem hindex)
    simp [hdigit] at hbyte

theorem pushDigit_eq_some {value n : UInt64} {byte : UInt8} :
    pushDigit value byte = some n ↔ value.toNat * 10 + digitValue byte = n.toNat := by
  unfold pushDigit
  have hn := n.toNat_lt
  by_cases hfits : value.toNat * 10 + digitValue byte < 2 ^ 64
  · simp only [hfits, if_true, Option.some.injEq]
    rw [← UInt64.toNat_inj, UInt64.toNat_ofNat_of_lt' hfits]
  · simp only [hfits, if_false, reduceCtorEq, false_iff]
    omega

/-- Reading stops at the first number that does not fit; the numbers only grow. -/
theorem parseU64_eq_some {digits : List UInt8} :
    ∀ {n : UInt64}, parseU64 digits = some n ↔ digitsValue digits = n.toNat := by
  induction digits using List.reverseRecOn with
  | nil =>
    intro n
    rw [digitsValue_nil]
    show some (0 : UInt64) = some n ↔ _
    rw [Option.some.injEq, ← UInt64.toNat_inj]
    rfl
  | append_singleton digits last ih =>
    intro n
    have hstep : parseU64 (digits ++ [last]) =
        (parseU64 digits).bind fun value => pushDigit value last := by
      rw [parseU64, List.foldlM_append]
      simp only [List.foldlM_cons, List.foldlM_nil, bind_pure]
      rfl
    rw [hstep, Option.bind_eq_some_iff, digitsValue_concat]
    constructor
    · intro ⟨value, hvalue, hn⟩
      rw [ih.mp hvalue]
      exact pushDigit_eq_some.mp hn
    · intro hn
      -- the number before the last digit is no larger, so it fits too
      have hfits : digitsValue digits < 2 ^ 64 := by
        have hbound := n.toNat_lt
        omega
      have hvalue : digitsValue digits = (UInt64.ofNat (digitsValue digits)).toNat :=
        (UInt64.toNat_ofNat_of_lt' hfits).symm
      refine ⟨UInt64.ofNat (digitsValue digits), ih.mpr hvalue, pushDigit_eq_some.mpr ?_⟩
      rw [← hvalue]
      exact hn

theorem parseBoundedU64_eq_ok {value : String} {maximum n : UInt64} :
    parseBoundedU64 value maximum = .ok n ↔
      value.toUTF8.data.toList = printed n.toNat ∧ n ≤ maximum := by
  unfold parseBoundedU64
  simp only [bind_eq_ok, reject_eq_ok, okOr_eq_ok, exists_const, rejectNonDigit_eq_ok,
    parseU64_eq_some, decimalDigits_eq, gt_iff_lt, not_lt, UInt64.not_lt, pure_eq_ok]
  constructor
  · rintro ⟨hnonempty, _, hdigits, hleading, parsed, hvalue, hmaximum, hn⟩
    subst hn
    refine ⟨shortest_iff.mp ⟨⟨hnonempty, hdigits, ?_⟩, hvalue⟩, hmaximum⟩
    intro hlong hzero
    exact hleading ⟨hlong, hzero⟩
  · rintro ⟨hprinted, hmaximum⟩
    obtain ⟨hshortest, hvalue⟩ := shortest_iff.mpr hprinted
    refine ⟨hshortest.nonempty, ?_, hshortest.allDigits, ?_, n, hvalue, hmaximum, rfl⟩
    · rw [hprinted]
      exact length_printed_le (UInt64.le_iff_toNat_le.mp hmaximum)
    · rintro ⟨hlong, hzero⟩
      exact hshortest.leading hlong hzero

/-! ## The codec -/

/-- A decimal representation of a number: ASCII digits with its value. -/
def IsDecimal (text : String) (n : Nat) : Prop :=
  text.toUTF8.data.toList ≠ [] ∧ AllDigits text.toUTF8.data.toList ∧
    digitsValue text.toUTF8.data.toList = n

/-- The shortest decimal representation of a number. -/
def IsShortestDecimal (text : String) (n : Nat) : Prop :=
  IsDecimal text n ∧ ∀ other, IsDecimal other n → text.utf8ByteSize ≤ other.utf8ByteSize

theorem toUTF8_repr (n : Nat) : (Nat.repr n).toUTF8.data.toList = printed n := by
  rw [← utf8_toList, Nat.repr_eq_ofList_toDigits, String.toList_ofList]
  rfl

theorem isShortestDecimal_iff {text : String} {n : Nat} :
    IsShortestDecimal text n ↔ text.toUTF8.data.toList = printed n := by
  obtain ⟨hshortest, hvalue, _⟩ := shortest_printed n
  constructor
  · intro ⟨⟨hnonempty, hdigits, htext⟩, hminimal⟩
    have hrepr : IsDecimal (Nat.repr n) n := by
      unfold IsDecimal
      rw [toUTF8_repr]
      exact ⟨hshortest.nonempty, hshortest.allDigits, hvalue⟩
    have hle := hminimal (Nat.repr n) hrepr
    rw [utf8ByteSize_eq_length, utf8ByteSize_eq_length, toUTF8_repr] at hle
    exact hshortest.eq_of_length_le hdigits hnonempty (htext.trans hvalue.symm) hle
  · intro hprinted
    unfold IsShortestDecimal IsDecimal
    rw [hprinted, utf8ByteSize_eq_length, hprinted]
    refine ⟨⟨hshortest.nonempty, hshortest.allDigits, hvalue⟩, ?_⟩
    intro other ⟨hnonempty, hdigits, hother⟩
    rw [utf8ByteSize_eq_length]
    exact hshortest.length_le hdigits hnonempty (hvalue.trans hother.symm).le

/-- The parser returns a number exactly on its shortest decimal representation, when it is
within the bound.  So no number has two accepted texts, a printed number is read back, and the
length check, which comes first, rejects no representation of a number within the bound. -/
theorem canonical_decimal_codec (maximum : UInt64) :
    (∀ (text : String) (n : UInt64), parseBoundedU64 text maximum = .ok n ↔
      IsShortestDecimal text n.toNat ∧ n ≤ maximum) ∧
    (∀ (text other : String) (n : UInt64), parseBoundedU64 text maximum = .ok n →
      parseBoundedU64 other maximum = .ok n → text = other) ∧
    (∀ n : UInt64, n ≤ maximum → parseBoundedU64 (Nat.repr n.toNat) maximum = .ok n) ∧
    (∀ (text : String) (n : UInt64), IsShortestDecimal text n.toNat → n ≤ maximum →
      text.utf8ByteSize ≤ decimalDigits maximum) := by
  refine ⟨?_, ?_, ?_, ?_⟩
  · intro text n
    rw [parseBoundedU64_eq_ok, isShortestDecimal_iff]
  · intro text other n htext hother
    have hbytes := (parseBoundedU64_eq_ok.mp htext).1
    rw [← (parseBoundedU64_eq_ok.mp hother).1] at hbytes
    exact toUTF8_injective hbytes
  · intro n hn
    exact parseBoundedU64_eq_ok.mpr ⟨toUTF8_repr n.toNat, hn⟩
  · intro text n hshortest hn
    rw [utf8ByteSize_eq_length, isShortestDecimal_iff.mp hshortest, decimalDigits_eq]
    exact length_printed_le (UInt64.le_iff_toNat_le.mp hn)

end StateKnot
