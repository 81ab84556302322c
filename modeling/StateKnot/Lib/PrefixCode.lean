import Mathlib

/-!
# Prefix codes

A code is prefix-free when a code word followed by anything can be cut off again
in only one way.  Prefix-free codes are injective and are closed under pairing
and length-prefixed lists, which is how a code for a tree is put together.
-/

namespace Lib

variable {α β σ : Type}

/-- A code word followed by a rest determines the value and the rest. -/
def PrefixFree (code : α → List σ) : Prop :=
  ∀ ⦃a b : α⦄ ⦃r s : List σ⦄, code a ++ r = code b ++ s → a = b ∧ r = s

namespace PrefixFree

variable {f : α → List σ} {g : β → List σ}

theorem comp (hg : PrefixFree g) {view : α → β} (hview : Function.Injective view) :
    PrefixFree (fun a => g (view a)) := by
  intro a b r s h
  obtain ⟨hview', hrest⟩ := hg h
  exact ⟨hview hview', hrest⟩

theorem prod (hf : PrefixFree f) (hg : PrefixFree g) :
    PrefixFree (fun p : α × β => f p.1 ++ g p.2) := by
  rintro ⟨a, b⟩ ⟨a', b'⟩ r s h
  simp only [List.append_assoc] at h
  obtain ⟨rfl, hsecond⟩ := hf h
  obtain ⟨rfl, hrest⟩ := hg hsecond
  exact ⟨rfl, hrest⟩

end PrefixFree

/-- Words in sequence can be read back when each one can and their number is known. -/
theorem flatMap_inj {f : α → List σ} {xs ys : List α} {r s : List σ}
    (hf : ∀ a ∈ xs, ∀ ⦃b : α⦄ ⦃r s : List σ⦄, f a ++ r = f b ++ s → a = b ∧ r = s)
    (hlength : xs.length = ys.length) (h : xs.flatMap f ++ r = ys.flatMap f ++ s) :
    xs = ys ∧ r = s := by
  induction xs generalizing ys with
  | nil =>
    cases ys with
    | nil => simpa using h
    | cons y ys => simp at hlength
  | cons x xs ih =>
    cases ys with
    | nil => simp at hlength
    | cons y ys =>
      simp only [List.flatMap_cons, List.append_assoc] at h
      rw [List.forall_mem_cons] at hf
      obtain ⟨rfl, htail⟩ := hf.1 h
      obtain ⟨rfl, hrest⟩ := ih hf.2 (by simpa using hlength) htail
      exact ⟨rfl, hrest⟩

/-- Unary numbers: `n` marks and an end. -/
def unaryCode (n : Nat) : List UInt8 := List.replicate n 1 ++ [0]

theorem prefixFree_unaryCode : PrefixFree unaryCode := by
  intro m n r s h
  induction m generalizing n with
  | zero =>
    cases n with
    | zero => simpa [unaryCode] using h
    | succ n => simp [unaryCode, List.replicate_succ] at h
  | succ m ih =>
    cases n with
    | zero => simp [unaryCode, List.replicate_succ] at h
    | succ n =>
      obtain ⟨rfl, hrest⟩ := ih (n := n) (by simpa [unaryCode, List.replicate_succ] using h)
      exact ⟨rfl, hrest⟩

/-- A list as its length and its words. -/
def listCode (f : α → List UInt8) (xs : List α) : List UInt8 :=
  unaryCode xs.length ++ xs.flatMap f

theorem prefixFree_listCode {f : α → List UInt8} (hf : PrefixFree f) :
    PrefixFree (listCode f) := by
  intro xs ys r s h
  simp only [listCode, List.append_assoc] at h
  obtain ⟨hlength, hwords⟩ := prefixFree_unaryCode h
  exact flatMap_inj (fun a _ => @hf a) hlength hwords

/-! ## Length prefixes -/

/-- The big-endian bytes of a number of the given width. -/
def bigEndian : Nat → Nat → List UInt8
  | 0, _ => []
  | width + 1, n => bigEndian width (n / 256) ++ [UInt8.ofNat (n % 256)]

@[simp] theorem length_bigEndian (width n : Nat) : (bigEndian width n).length = width := by
  induction width generalizing n with
  | zero => rfl
  | succ width ih => rw [bigEndian, List.length_append, ih, List.length_singleton]

theorem bigEndian_injective {width m n : Nat} (hm : m < 256 ^ width) (hn : n < 256 ^ width)
    (h : bigEndian width m = bigEndian width n) : m = n := by
  induction width generalizing m n with
  | zero => omega
  | succ width ih =>
    rw [Nat.pow_succ] at hm hn
    obtain ⟨hfront, hlast⟩ := List.append_inj h (by simp)
    have hdiv := ih (by omega) (by omega) hfront
    have hmod : m % 256 = n % 256 := by
      have hbyte := congrArg UInt8.toNat (List.cons.inj hlast).1
      simpa using hbyte
    omega

/-- The most significant byte of a small number is zero. -/
theorem bigEndian_of_lt {width n : Nat} (h : n < 256 ^ width) :
    ∃ rest, bigEndian (width + 1) n = 0 :: rest := by
  induction width generalizing n with
  | zero =>
    obtain rfl : n = 0 := by omega
    exact ⟨[], rfl⟩
  | succ width ih =>
    rw [Nat.pow_succ] at h
    obtain ⟨rest, hrest⟩ := ih (n := n / 256) (by omega)
    refine ⟨rest ++ [UInt8.ofNat (n % 256)], ?_⟩
    rw [bigEndian, hrest, List.cons_append]

/-- A byte string behind its length. -/
def lengthPrefixed (width : Nat) (bytes : List UInt8) : List UInt8 :=
  bigEndian width bytes.length ++ bytes

section LengthPrefixed

variable {width : Nat}

theorem lengthPrefixed_inj {a b r s : List UInt8} (ha : a.length < 256 ^ width)
    (hb : b.length < 256 ^ width)
    (h : lengthPrefixed width a ++ r = lengthPrefixed width b ++ s) : a = b ∧ r = s := by
  simp only [lengthPrefixed, List.append_assoc] at h
  obtain ⟨hlength, hrest⟩ := List.append_inj h (by simp)
  exact List.append_inj hrest (bigEndian_injective ha hb hlength)

/-- Length-prefixed byte strings in sequence can be read back. -/
theorem flatMap_lengthPrefixed_inj (hwidth : 0 < width) {xs ys : List (List UInt8)}
    (hxs : ∀ x ∈ xs, x.length < 256 ^ width) (hys : ∀ y ∈ ys, y.length < 256 ^ width)
    (h : xs.flatMap (lengthPrefixed width) = ys.flatMap (lengthPrefixed width)) : xs = ys := by
  have hpositive : ∀ (x : List UInt8) (rest : List UInt8), lengthPrefixed width x ++ rest ≠ [] := by
    intro x rest hnil
    have hlength := congrArg List.length hnil
    simp only [lengthPrefixed, List.length_append, length_bigEndian, List.length_nil] at hlength
    omega
  induction xs generalizing ys with
  | nil =>
    cases ys with
    | nil => rfl
    | cons y ys => exact absurd h.symm (hpositive y _)
  | cons x xs ih =>
    cases ys with
    | nil => exact absurd h (hpositive x _)
    | cons y ys =>
      obtain ⟨rfl, hrest⟩ := lengthPrefixed_inj (hxs x List.mem_cons_self)
        (hys y List.mem_cons_self) h
      rw [ih (fun x' hx' => hxs x' (List.mem_cons_of_mem _ hx'))
        (fun y' hy' => hys y' (List.mem_cons_of_mem _ hy')) hrest]

end LengthPrefixed

end Lib
