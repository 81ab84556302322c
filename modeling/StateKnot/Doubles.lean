import Mathlib.Data.Nat.Size
import StateKnot.Json

/-!
# Canonical trees with numbers as doubles

RFC 8785 prints every number by its IEEE-754 double value.  An integer with more
than 53 significant bits is therefore printed as the nearest double, and canonical
bytes determine a tree only up to that rounding.  `Json.rfc8785` is the tree that
the bytes do determine.
-/

namespace StateKnot

open Lib

/-- The nearest natural number with at most 53 significant bits, ties to the even one. -/
def roundNat (n : Nat) : Nat :=
  let unit := 2 ^ (n.size - 53)
  let quotient := n / unit
  let rest := n % unit
  if 2 * rest < unit ∨ (2 * rest = unit ∧ quotient % 2 = 0) then quotient * unit
  else (quotient + 1) * unit

/-- The double nearest to an integer. -/
def roundInt (n : Int) : Int := n.sign * roundNat n.natAbs

theorem roundInt_of_lt {n : Int} (h : n.natAbs < 2 ^ 53) : roundInt n = n := by
  have hsize : n.natAbs.size - 53 = 0 := Nat.sub_eq_zero_of_le (Nat.size_le.mpr h)
  have hround : roundNat n.natAbs = n.natAbs := by simp [roundNat, hsize, Nat.mod_one]
  rw [roundInt, hround, Int.sign_mul_natAbs]

/-- The number as a double.  `serde_json` already holds a float as a double. -/
def JsonNumber.toDouble : JsonNumber → JsonNumber
  | .int n => .int (roundInt n)
  | .float q text => .float q text

namespace Json

mutual
/-- The tree with every number as a double. -/
def toDoubles : Json → Json
  | .null => .null
  | .bool b => .bool b
  | .num n => .num n.toDouble
  | .str s => .str s
  | .arr xs => .arr (toDoublesItems xs)
  | .obj ms => .obj (toDoublesMembers ms)

def toDoublesItems : List Json → List Json
  | [] => []
  | x :: xs => x.toDoubles :: toDoublesItems xs

def toDoublesMembers : List (String × Json) → List (String × Json)
  | [] => []
  | (k, v) :: ms => (k, v.toDoubles) :: toDoublesMembers ms
end

/-- The tree that RFC 8785 bytes determine. -/
def rfc8785 (tree : Json) : Json := tree.toDoubles.canonical

@[simp] theorem rfc8785_null : Json.null.rfc8785 = .null := by
  simp [rfc8785, toDoubles, canonical]

@[simp] theorem rfc8785_str (s : String) : (Json.str s).rfc8785 = .str s := by
  simp [rfc8785, toDoubles, canonical]

@[simp] theorem rfc8785_bool (b : Bool) : (Json.bool b).rfc8785 = .bool b := by
  simp [rfc8785, toDoubles, canonical]

theorem rfc8785_nat_inj {m n : Nat} (hm : m < 2 ^ 53) (hn : n < 2 ^ 53) :
    (Json.num (.int m)).rfc8785 = (Json.num (.int n)).rfc8785 ↔ m = n := by
  refine Iff.trans ?_ Int.ofNat_inj
  simp [rfc8785, toDoubles, canonical, JsonNumber.toDouble, JsonNumber.canonical,
    roundInt_of_lt (n := m) (by simpa using hm), roundInt_of_lt (n := n) (by simpa using hn)]

theorem toDoublesItems_eq_map (xs : List Json) : toDoublesItems xs = xs.map toDoubles := by
  induction xs with
  | nil => rfl
  | cons x xs ih => rw [toDoublesItems, ih, List.map_cons]

theorem toDoublesMembers_eq_map (ms : List (String × Json)) :
    toDoublesMembers ms = ms.map (fun m => (m.1, m.2.toDoubles)) := by
  induction ms with
  | nil => rfl
  | cons m ms ih => rw [toDoublesMembers, ih, List.map_cons]

@[simp] theorem rfc8785_arr (xs : List Json) : (Json.arr xs).rfc8785 = .arr (xs.map rfc8785) := by
  rw [rfc8785, toDoubles, canonical, canonicalItems_eq_map, toDoublesItems_eq_map, List.map_map]
  rfl

theorem rfc8785_obj (ms : List (String × Json)) :
    (Json.obj ms).rfc8785 = .obj (sortMembers (ms.map (fun m => (m.1, m.2.rfc8785)))) := by
  rw [rfc8785, toDoubles, canonical, canonicalMembers_eq_map, toDoublesMembers_eq_map,
    List.map_map]
  rfl

/-- Arrays of records that show one tree have the same records. -/
theorem eq_of_rfc8785_arr_eq {α : Type} {toJson : α → Json} {xs ys : List α}
    (hinj : ∀ {x y : α}, (toJson x).rfc8785 = (toJson y).rfc8785 → x = y)
    (h : (Json.arr (xs.map toJson)).rfc8785 = (Json.arr (ys.map toJson)).rfc8785) : xs = ys := by
  simp only [rfc8785_arr, Json.arr.injEq, List.map_map] at h
  exact List.map_injective_iff.mpr (fun _ _ hxy => hinj hxy) h

/-- The member of an object with a given name. -/
def member (key : String) : Json → Option Json
  | .obj ms => ms.lookup key
  | _ => none

/-- The form acts on each member of an object with distinct names. -/
theorem member_rfc8785 {ms : List (String × Json)} (key : String)
    (hnodup : (ms.map Prod.fst).Nodup) :
    (rfc8785 (.obj ms)).member key = (ms.lookup key).map rfc8785 := by
  have hperm : (sortMembers (ms.map (fun m => (m.1, m.2.rfc8785)))).Perm _ := sortByKey_perm _ _
  have hkeys := (hperm.map Prod.fst).nodup_iff.mpr (by rw [List.map_map]; exact hnodup)
  rw [rfc8785_obj, member, lookup_eq_of_perm hperm hkeys]
  clear hperm hkeys hnodup
  induction ms with
  | nil => rfl
  | cons m ms ih =>
    obtain ⟨k, v⟩ := m
    simp only [List.map_cons, List.lookup_cons]
    split
    · rfl
    · exact ih

/-- Records over the same distinct names have one form exactly when they agree in every field. -/
theorem rfc8785_obj_inj {ms ns : List (String × Json)}
    (hkeys : ms.map Prod.fst = ns.map Prod.fst) (hnodup : (ms.map Prod.fst).Nodup) :
    rfc8785 (.obj ms) = rfc8785 (.obj ns) ↔
      ms.map (fun m => m.2.rfc8785) = ns.map (fun m => m.2.rfc8785) := by
  constructor
  · intro heq
    -- the names read the values back
    have hread : ∀ {rs : List (String × Json)}, (rs.map Prod.fst).Nodup →
        (rs.map (fun m => m.2.rfc8785)).map some =
          (rs.map Prod.fst).map (fun key => (rfc8785 (.obj rs)).member key) := by
      intro rs hrs
      rw [List.map_map, List.map_map]
      refine List.map_congr_left (fun m hm => ?_)
      rw [Function.comp_apply, Function.comp_apply, member_rfc8785 _ hrs,
        (lookup_eq_some_iff_mem hrs).mpr hm, Option.map_some]
    refine List.map_injective_iff.mpr (Option.some_injective _) ?_
    rw [hread hnodup, hread (hkeys ▸ hnodup), hkeys, heq]
  · intro hvalues
    have hzip : ∀ rs : List (String × Json), rs.map (fun m => (m.1, m.2.rfc8785)) =
        (rs.map Prod.fst).zip (rs.map (fun m => m.2.rfc8785)) := fun rs => by
      rw [List.zip_map']
    rw [rfc8785_obj, rfc8785_obj, hzip, hzip, hkeys, hvalues]

theorem values_of_rfc8785_eq {ms ns : List (String × Json)}
    (h : rfc8785 (.obj ms) = rfc8785 (.obj ns)) (hkeys : ms.map Prod.fst = ns.map Prod.fst)
    (hnodup : (ms.map Prod.fst).Nodup) :
    ms.map (fun m => m.2.rfc8785) = ns.map (fun m => m.2.rfc8785) :=
  (rfc8785_obj_inj hkeys hnodup).mp h

end Json

end StateKnot
