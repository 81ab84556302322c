import Mathlib.Data.List.Dedup
import Mathlib.Data.List.Sort

/-!
# Ordered collections as lists

Ordered maps and sets are lists that increase strictly in a key.  A list sorted
by a key whose values are pairwise distinct is determined by its members, so the
order in which a collection was filled does not show in it.
-/

namespace Lib

variable {α κ : Type} [LinearOrder κ]

/-- The list increases strictly in `key`. -/
def StrictlySorted (key : α → κ) (xs : List α) : Prop := xs.Pairwise (fun a b => key a < key b)

/-- Stable sort by a key. -/
def sortByKey (key : α → κ) (xs : List α) : List α :=
  xs.insertionSort (fun a b => key a ≤ key b)

theorem sortByKey_perm (key : α → κ) (xs : List α) : (sortByKey key xs).Perm xs :=
  List.perm_insertionSort _ _

variable {key : α → κ} {xs : List α}

theorem map_sortByKey {β : Type} {key' : β → κ} {f : α → β}
    (hf : ∀ a, key' (f a) = key a) (xs : List α) :
    (sortByKey key xs).map f = sortByKey key' (xs.map f) := by
  apply List.map_insertionSort
  intro a _ b _
  simp only [hf]

@[simp] theorem mem_sortByKey {a : α} : a ∈ sortByKey key xs ↔ a ∈ xs :=
  (sortByKey_perm key xs).mem_iff

@[simp] theorem length_sortByKey (key : α → κ) (xs : List α) :
    (sortByKey key xs).length = xs.length :=
  (sortByKey_perm key xs).length_eq

private theorem pairwise_sortByKey (key : α → κ) (xs : List α) :
    (sortByKey key xs).Pairwise (fun a b => key a ≤ key b) := by
  have htotal : Std.Total (fun a b : α => key a ≤ key b) := ⟨fun a b => le_total (key a) (key b)⟩
  have htrans : IsTrans α (fun a b => key a ≤ key b) := ⟨fun _ _ _ => le_trans⟩
  exact List.pairwise_insertionSort _ xs

theorem strictlySorted_sortByKey (hnodup : (xs.map key).Nodup) :
    StrictlySorted key (sortByKey key xs) := by
  have hkeys : ((sortByKey key xs).map key).Nodup :=
    ((sortByKey_perm key xs).map key).nodup_iff.mpr hnodup
  have hne : (sortByKey key xs).Pairwise (fun a b => key a ≠ key b) := List.pairwise_map.mp hkeys
  exact (pairwise_sortByKey key xs).imp₂ (fun _ _ hle hne => lt_of_le_of_ne hle hne) hne

namespace StrictlySorted

variable {key : α → κ} {xs ys : List α}

theorem nodup_keys (h : StrictlySorted key xs) : (xs.map key).Nodup :=
  List.pairwise_map.mpr (h.imp (fun hlt => hlt.ne))

theorem nodup (h : StrictlySorted key xs) : xs.Nodup := h.nodup_keys.of_map

theorem eq_of_mem_iff (hxs : StrictlySorted key xs) (hys : StrictlySorted key ys)
    (hmem : ∀ a, a ∈ xs ↔ a ∈ ys) : xs = ys := by
  have hperm : xs.Perm ys := (List.perm_ext_iff_of_nodup hxs.nodup hys.nodup).mpr hmem
  exact hperm.eq_of_pairwise (fun a b _ _ hab hba => absurd (hab.trans hba) (lt_irrefl _)) hxs hys

theorem sortByKey_eq (h : StrictlySorted key xs) : sortByKey key xs = xs :=
  eq_of_mem_iff (strictlySorted_sortByKey h.nodup_keys) h (fun _ => mem_sortByKey)

theorem eq_of_key_eq (h : StrictlySorted key xs) {a b : α} (ha : a ∈ xs) (hb : b ∈ xs)
    (hkey : key a = key b) : a = b :=
  List.inj_on_of_nodup_map h.nodup_keys ha hb hkey

theorem map_of_key_eq (h : StrictlySorted key xs) {f : α → α} (hf : ∀ x ∈ xs, key (f x) = key x) :
    StrictlySorted key (xs.map f) := by
  rw [StrictlySorted, List.pairwise_map]
  refine List.Pairwise.imp_of_mem (fun {a b} ha hb hlt => ?_) h
  rw [hf a ha, hf b hb]
  exact hlt

end StrictlySorted

theorem sortByKey_eq_of_perm {ys : List α} (hperm : xs.Perm ys)
    (hnodup : (xs.map key).Nodup) : sortByKey key xs = sortByKey key ys := by
  refine StrictlySorted.eq_of_mem_iff (strictlySorted_sortByKey hnodup)
    (strictlySorted_sortByKey ((hperm.map key).nodup_iff.mp hnodup)) (fun a => ?_)
  simp [hperm.mem_iff]

/-- The ordered set of the members of a list. -/
def toOrderedSet (xs : List κ) : List κ := sortByKey id xs.dedup

@[simp] theorem mem_toOrderedSet {xs : List κ} {a : κ} : a ∈ toOrderedSet xs ↔ a ∈ xs := by
  simp [toOrderedSet]

theorem strictlySorted_toOrderedSet (xs : List κ) : StrictlySorted id (toOrderedSet xs) :=
  strictlySorted_sortByKey (by simpa using xs.nodup_dedup)

/-! ## Binary search

The search of a slice by a comparison halves a window `[base, base + size)` until one entry is
left.  On a strictly sorted list it finds what a search from the front finds. -/

section BinarySearch

variable {key : α → κ} {xs : List α} {k : κ}

/-- Halve the window until it holds one entry. -/
def searchLoop (cmp : α → Ordering) (xs : List α) (size base : Nat) : Nat :=
  if 1 < size then
    let mid := base + size / 2
    if xs[mid]?.map cmp = some .gt then searchLoop cmp xs (size - size / 2) base
    else searchLoop cmp xs (size - size / 2) mid
  else base
termination_by size

/-- The index that the search ends at, if the entry there compares equal. -/
def binarySearchIdx (cmp : α → Ordering) (xs : List α) : Option Nat :=
  let index := searchLoop cmp xs xs.length 0
  if xs[index]?.map cmp = some .eq then some index else none

/-- The entry that the search ends at, if it compares equal. -/
def binarySearchBy (cmp : α → Ordering) (xs : List α) : Option α := do
  let index ← binarySearchIdx cmp xs
  xs[index]?

theorem StrictlySorted.lt_iff_index (h : StrictlySorted key xs) {i j : Nat} {x y : α}
    (hx : xs[i]? = some x) (hy : xs[j]? = some y) : key x < key y ↔ i < j := by
  obtain ⟨hi, rfl⟩ := List.getElem?_eq_some_iff.mp hx
  obtain ⟨hj, rfl⟩ := List.getElem?_eq_some_iff.mp hy
  have hlt := List.pairwise_iff_getElem.mp h
  constructor
  · intro hkey
    by_contra hle
    rcases Nat.lt_or_eq_of_le (Nat.le_of_not_lt hle) with hji | rfl
    · exact lt_asymm hkey (hlt j i hj hi hji)
    · exact lt_irrefl _ hkey
  · exact hlt i j hi hj

/-- An entry under the key that lies in the window is where the loop ends. -/
theorem searchLoop_eq (h : StrictlySorted key xs) {i : Nat} {x : α} (hx : xs[i]? = some x)
    {size base : Nat} (hbase : base ≤ i) (hsize : i < base + size)
    (hlength : base + size ≤ xs.length) :
    searchLoop (fun y => compare (key y) (key x)) xs size base = i := by
  fun_induction searchLoop (fun y => compare (key y) (key x)) xs size base with
  | case1 size base hone mid hgt ih =>
    -- The middle entry lies behind the key, which is then in the first half.
    have hmid : mid = base + size / 2 := rfl
    obtain ⟨y, hy⟩ : ∃ y, xs[mid]? = some y :=
      ⟨_, List.getElem?_eq_getElem (show mid < xs.length by omega)⟩
    rw [hy, Option.map_some, Option.some.injEq, compare_gt_iff_gt] at hgt
    have hlt := (h.lt_iff_index hx hy).mp hgt
    exact ih hbase (by omega) (by omega)
  | case2 size base hone mid hgt ih =>
    have hmid : mid = base + size / 2 := rfl
    obtain ⟨y, hy⟩ : ∃ y, xs[mid]? = some y :=
      ⟨_, List.getElem?_eq_getElem (show mid < xs.length by omega)⟩
    rw [hy, Option.map_some, Option.some.injEq, compare_gt_iff_gt] at hgt
    have hle : ¬ i < mid := fun hlt => hgt ((h.lt_iff_index hx hy).mpr hlt)
    exact ih (by omega) (by omega) (by omega)
  | case3 size base hone => omega

/-- On a strictly sorted list the binary search finds where the key stands. -/
theorem binarySearchIdx_eq_some (h : StrictlySorted key xs) {i : Nat} :
    binarySearchIdx (fun y => compare (key y) k) xs = some i ↔
      ∃ x, xs[i]? = some x ∧ key x = k := by
  rw [binarySearchIdx, Option.ite_none_right_eq_some, Option.some.injEq, Option.map_eq_some_iff]
  simp only [compare_eq_iff_eq]
  constructor
  · rintro ⟨hfound, rfl⟩
    exact hfound
  · rintro ⟨x, hx, rfl⟩
    obtain ⟨hi, _⟩ := List.getElem?_eq_some_iff.mp hx
    rw [searchLoop_eq h hx (Nat.zero_le _) (by omega) (by omega)]
    exact ⟨⟨x, hx, rfl⟩, rfl⟩

theorem binarySearchBy_eq_some (h : StrictlySorted key xs) {x : α} :
    binarySearchBy (fun y => compare (key y) k) xs = some x ↔ x ∈ xs ∧ key x = k := by
  simp only [binarySearchBy, Option.bind_eq_bind, Option.bind_eq_some_iff,
    binarySearchIdx_eq_some h, List.mem_iff_getElem?]
  constructor
  · rintro ⟨i, ⟨y, hy, hkey⟩, hx⟩
    obtain rfl : y = x := Option.some.inj (hy.symm.trans hx)
    exact ⟨⟨i, hx⟩, hkey⟩
  · rintro ⟨⟨i, hx⟩, hkey⟩
    exact ⟨i, ⟨x, hx, hkey⟩, hx⟩

end BinarySearch

/-! ## Association lists -/

section Lookup

variable {ι β : Type} [BEq ι] [LawfulBEq ι] {entries entries' : List (ι × β)} {key : ι}

/-- Under distinct keys a lookup finds exactly the entries of the list. -/
theorem lookup_eq_some_iff_mem (hnodup : (entries.map Prod.fst).Nodup) {value : β} :
    entries.lookup key = some value ↔ (key, value) ∈ entries := by
  induction entries with
  | nil => simp
  | cons entry entries ih =>
    obtain ⟨k, w⟩ := entry
    simp only [List.map_cons, List.nodup_cons] at hnodup
    rcases eq_or_ne key k with hk | hk
    · subst hk
      have hnot : (key, value) ∉ entries := fun h => hnodup.1 (List.mem_map_of_mem h)
      simp [hnot, eq_comm]
    · simp [List.lookup_cons, hk, ih hnodup.2, beq_eq_false_iff_ne.mpr hk]

theorem lookup_eq_none_of_notMem (hkey : key ∉ entries.map Prod.fst) :
    entries.lookup key = none := by
  rw [List.lookup_eq_none_iff]
  intro entry hentry
  have hne : key ≠ entry.1 := fun h => hkey (h ▸ List.mem_map_of_mem hentry)
  simpa using hne

theorem lookup_eq_of_perm (hperm : entries.Perm entries') (hnodup : (entries.map Prod.fst).Nodup) :
    entries.lookup key = entries'.lookup key := by
  have hnodup' : (entries'.map Prod.fst).Nodup := (hperm.map Prod.fst).nodup_iff.mp hnodup
  ext value
  rw [lookup_eq_some_iff_mem hnodup, lookup_eq_some_iff_mem hnodup', hperm.mem_iff]

end Lookup

end Lib
