import StateKnot.Identity
import StateKnot.Lib.PrefixCode

/-!
# A reference encoding

The integrity results assume faithful encoders.  The encoding of this module
meets the assumption: it writes the tree with its numbers as doubles in a
prefix-free code, hashes by keeping the bytes, and prints an instant by its
distance from the earliest one.  It shows that `Encoding.Faithful` can be met by encoders
that never fail.
-/

namespace StateKnot

open Lib

namespace Reference

def charCode (c : Char) : List UInt8 := unaryCode c.toNat

def stringCode (s : String) : List UInt8 := listCode charCode s.toList

def intCode (n : Int) : List UInt8 := unaryCode n.toNat ++ unaryCode (-n).toNat

def numberCode : JsonNumber → List UInt8
  | .int n => 0 :: intCode n
  | .float q text => 1 :: (intCode q.num ++ unaryCode q.den ++ stringCode text)

mutual
def treeCode : Json → List UInt8
  | .null => [0]
  | .bool b => [1, if b then 1 else 0]
  | .num n => 2 :: numberCode n
  | .str s => 3 :: stringCode s
  | .arr xs => 4 :: (unaryCode xs.length ++ itemsCode xs)
  | .obj ms => 5 :: (unaryCode ms.length ++ membersCode ms)

def itemsCode : List Json → List UInt8
  | [] => []
  | x :: xs => treeCode x ++ itemsCode xs

def membersCode : List (String × Json) → List UInt8
  | [] => []
  | (k, v) :: ms => stringCode k ++ treeCode v ++ membersCode ms
end

theorem prefixFree_stringCode : PrefixFree stringCode := by
  have hchar : PrefixFree charCode :=
    prefixFree_unaryCode.comp (fun _ _ h => Char.toNat_inj.mp h)
  exact (prefixFree_listCode hchar).comp (fun _ _ h => String.toList_injective h)

theorem prefixFree_intCode : PrefixFree intCode := by
  intro m n r s h
  have hpair := (prefixFree_unaryCode.prod prefixFree_unaryCode)
    (a := (m.toNat, (-m).toNat)) (b := (n.toNat, (-n).toNat)) h
  refine ⟨?_, hpair.2⟩
  have h₁ : m.toNat = n.toNat := congrArg Prod.fst hpair.1
  have h₂ : (-m).toNat = (-n).toNat := congrArg Prod.snd hpair.1
  omega

theorem prefixFree_numberCode : PrefixFree numberCode := by
  rintro (m | ⟨q, text⟩) (n | ⟨q', text'⟩) r s h <;> simp [numberCode] at h
  case int.int => simpa using prefixFree_intCode h
  case float.float =>
    obtain ⟨hnum, h₁⟩ := prefixFree_intCode h
    obtain ⟨hden, h₂⟩ := prefixFree_unaryCode h₁
    obtain ⟨rfl, hrest⟩ := prefixFree_stringCode h₂
    obtain rfl : q = q' := Rat.ext hnum hden
    exact ⟨rfl, hrest⟩

theorem itemsCode_eq (xs : List Json) : itemsCode xs = xs.flatMap treeCode := by
  induction xs with
  | nil => rfl
  | cons x xs ih => rw [itemsCode, ih, List.flatMap_cons]

theorem membersCode_eq (ms : List (String × Json)) :
    membersCode ms = ms.flatMap fun m => stringCode m.1 ++ treeCode m.2 := by
  induction ms with
  | nil => rfl
  | cons m ms ih => rw [membersCode, ih, List.flatMap_cons]

theorem prefixFree_treeCode : PrefixFree treeCode := by
  intro a
  -- The first byte is the constructor, so only trees of the same one are left to compare.
  induction a using Json.induct <;> rintro (_ | c | y | y | ys | ns) r s h <;>
    simp [treeCode, itemsCode_eq, membersCode_eq] at h
  case null.null => exact ⟨rfl, h⟩
  case bool.bool x => cases x <;> cases c <;> simp_all
  case num.num x => simpa using prefixFree_numberCode h
  case str.str x => simpa using prefixFree_stringCode h
  case arr.arr xs ih =>
    obtain ⟨hlength, hitems⟩ := prefixFree_unaryCode h
    simpa using flatMap_inj ih hlength hitems
  case obj.obj ms ih =>
    obtain ⟨hlength, hmembers⟩ := prefixFree_unaryCode h
    have hmember : ∀ m ∈ ms, ∀ ⦃n : String × Json⦄ ⦃r s : List UInt8⦄,
        stringCode m.1 ++ treeCode m.2 ++ r = stringCode n.1 ++ treeCode n.2 ++ s →
          m = n ∧ r = s := by
      intro m hm n r s h
      simp only [List.append_assoc] at h
      obtain ⟨hname, hvalue⟩ := prefixFree_stringCode h
      obtain ⟨htree, hrest⟩ := ih m hm hvalue
      exact ⟨Prod.ext hname htree, hrest⟩
    simpa using flatMap_inj hmember hlength hmembers

end Reference

/-- The trees of RFC 8785 in a prefix-free code, hashed by the identity. -/
def Encoding.reference : Encoding where
  toVec json := some (Reference.treeCode json.rfc8785)
  sha256 := Digest.mk
  timestampText instant := Nat.repr (instant.micros + 62167219200000000).toNat

theorem Encoding.reference_faithful : Encoding.reference.Faithful where
  sha256_injective := fun _ _ h => Digest.mk.inj h
  determinesTrees := by
    intro a b bytes ha hb
    have hcode := Option.some.inj (ha.trans hb.symm)
    exact (Reference.prefixFree_treeCode (r := []) (s := []) (by rw [hcode])).1
  timestampText_injective := by
    intro a b h
    have hnat := Nat.repr_inj.mp h
    have ha := a.lower
    have hb := b.lower
    have hmicros : a.micros = b.micros := by omega
    cases a
    cases b
    simpa using hmicros

end StateKnot
