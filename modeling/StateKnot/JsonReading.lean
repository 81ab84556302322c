import Mathlib.Algebra.BigOperators.Group.List.Basic
import Mathlib.Tactic.Abel
import StateKnot.Encoding

/-!
# What the limited reader accepts

The reader of `Json` threads running totals and stops at the first violation.  This
module gives its closed form: a tree is accepted when each part of it fits on its
own and the totals of the whole tree stay within the limits; the value is the tree
with sorted members, and the statistics are the totals.  It follows that a value
read once is read again unchanged wherever it fits.
-/

namespace StateKnot

open Lib

/-! ## Totals -/

namespace JsonStats

/-- The statistics of two parts together. -/
instance : Add JsonStats :=
  ⟨fun a b => ⟨a.compactBytes + b.compactBytes, max a.maxDepth b.maxDepth, a.nodes + b.nodes⟩⟩

instance : Zero JsonStats := ⟨⟨0, 0, 0⟩⟩

@[simp] theorem compactBytes_add (a b : JsonStats) :
    (a + b).compactBytes = a.compactBytes + b.compactBytes := rfl

@[simp] theorem maxDepth_add (a b : JsonStats) :
    (a + b).maxDepth = max a.maxDepth b.maxDepth := rfl

@[simp] theorem nodes_add (a b : JsonStats) : (a + b).nodes = a.nodes + b.nodes := rfl

@[simp] theorem compactBytes_zero : (0 : JsonStats).compactBytes = 0 := rfl

@[simp] theorem maxDepth_zero : (0 : JsonStats).maxDepth = 0 := rfl

@[simp] theorem nodes_zero : (0 : JsonStats).nodes = 0 := rfl

theorem ext_totals {a b : JsonStats} (hbytes : a.compactBytes = b.compactBytes)
    (hdepth : a.maxDepth = b.maxDepth) (hnodes : a.nodes = b.nodes) : a = b := by
  cases a
  cases b
  simp_all

instance : AddCommMonoid JsonStats where
  add_assoc a b c := ext_totals (Nat.add_assoc _ _ _) (Nat.max_assoc _ _ _) (Nat.add_assoc _ _ _)
  add_comm a b := ext_totals (Nat.add_comm _ _) (Nat.max_comm _ _) (Nat.add_comm _ _)
  zero_add a := ext_totals (Nat.zero_add _) (Nat.zero_max _) (Nat.zero_add _)
  add_zero a := ext_totals (Nat.add_zero _) (Nat.max_zero _) (Nat.add_zero _)
  nsmul := nsmulRec

/-- Bytes that are part of no value: separators, brackets and names. -/
def bytes (n : Nat) : JsonStats := ⟨n, 0, 0⟩

@[simp] theorem bytes_zero : bytes 0 = 0 := rfl

theorem bytes_add (m n : Nat) : bytes (m + n) = bytes m + bytes n := rfl

/-- The totals stay within the limits. -/
def Within (limits : JsonLimits) (totals : JsonStats) : Prop :=
  totals.compactBytes ≤ limits.maxBytes ∧ totals.nodes ≤ limits.maxNodes

instance (limits : JsonLimits) (totals : JsonStats) : Decidable (Within limits totals) :=
  inferInstanceAs (Decidable (_ ∧ _))

theorem Within.of_add {limits : JsonLimits} {a b : JsonStats} (h : Within limits (a + b)) :
    Within limits a := by
  simp only [Within, compactBytes_add, nodes_add] at h ⊢
  omega

end JsonStats

namespace Json

mutual
/-- The statistics of a tree whose parent container is at `depth`. -/
def totals (depth : Nat) : Json → JsonStats
  | .null => ⟨4, 0, 1⟩
  | .bool b => ⟨if b then 4 else 5, 0, 1⟩
  | .num n => ⟨n.textLen, 0, 1⟩
  | .str t => ⟨encodedJsonStringLen t, 0, 1⟩
  | .arr xs => ⟨2, depth + 1, 1⟩ + .bytes (xs.length - 1) + totalsItems (depth + 1) xs
  | .obj ms => ⟨2, depth + 1, 1⟩ + .bytes (ms.length - 1) + totalsMembers (depth + 1) ms

def totalsItems (depth : Nat) : List Json → JsonStats
  | [] => 0
  | x :: xs => totals depth x + totalsItems depth xs

def totalsMembers (depth : Nat) : List (String × Json) → JsonStats
  | [] => 0
  | (key, x) :: ms =>
    .bytes (encodedJsonStringLen key + 1) + totals depth x + totalsMembers depth ms
end

mutual
/-- Every part of the tree fits on its own. -/
def Fits (limits : JsonLimits) (depth : Nat) : Json → Prop
  | .null | .bool _ | .num _ => True
  | .str t => t.utf8ByteSize ≤ limits.maxStringBytes
  | .arr xs => depth + 1 ≤ limits.maxDepth ∧ xs.length ≤ limits.maxContainerEntries ∧
    FitsItems limits (depth + 1) xs
  | .obj ms => depth + 1 ≤ limits.maxDepth ∧ ms.length ≤ limits.maxContainerEntries ∧
    (ms.map Prod.fst).Nodup ∧ FitsMembers limits (depth + 1) ms

def FitsItems (limits : JsonLimits) (depth : Nat) : List Json → Prop
  | [] => True
  | x :: xs => Fits limits depth x ∧ FitsItems limits depth xs

def FitsMembers (limits : JsonLimits) (depth : Nat) : List (String × Json) → Prop
  | [] => True
  | (key, x) :: ms => key.utf8ByteSize ≤ limits.maxObjectKeyBytes ∧ Fits limits depth x ∧
    FitsMembers limits depth ms
end

mutual
/-- The tree as it is held after reading. -/
def materialized : Json → Json
  | .null => .null
  | .bool b => .bool b
  | .num n => .num n
  | .str t => .str t
  | .arr xs => .arr (materializedItems xs)
  | .obj ms => .obj (sortMembers (materializedMembers ms))

def materializedItems : List Json → List Json
  | [] => []
  | x :: xs => x.materialized :: materializedItems xs

def materializedMembers : List (String × Json) → List (String × Json)
  | [] => []
  | (key, x) :: ms => (key, x.materialized) :: materializedMembers ms
end

/-! ## The closed form of the reader -/

open Tracker JsonStats

variable {limits : JsonLimits} {depth : Nat}

theorem addNode_eq_ok {s s' : JsonStats} {u : Unit} :
    addNode limits s = .ok (u, s') ↔
      s.nodes + 1 ≤ limits.maxNodes ∧ s' = s + ⟨0, 0, 1⟩ := by
  simp only [addNode, bind_eq_ok, reject_eq_ok, exists_const, pure_eq_ok,
    Prod.mk.injEq, true_and, not_lt]
  refine and_congr_right (fun _ => ?_)
  rw [eq_comm]
  exact Eq.congr_right (ext_totals rfl (Nat.max_zero _).symm rfl)

theorem addCompactBytes_eq_ok {n : Nat} {s s' : JsonStats} {u : Unit} :
    addCompactBytes limits n s = .ok (u, s') ↔
      s.compactBytes + n ≤ limits.maxBytes ∧ s' = s + .bytes n := by
  simp only [addCompactBytes, bind_eq_ok, reject_eq_ok, exists_const, pure_eq_ok, Prod.mk.injEq, true_and, not_lt]
  refine and_congr_right (fun _ => ?_)
  rw [eq_comm]
  exact Eq.congr_right (ext_totals rfl (Nat.max_zero _).symm rfl)

theorem enterContainer_eq_ok {inner : Nat} {s s' : JsonStats} :
    enterContainer limits depth s = .ok (inner, s') ↔
      depth + 1 ≤ limits.maxDepth ∧ inner = depth + 1 ∧ s' = s + ⟨0, depth + 1, 0⟩ := by
  simp only [enterContainer, bind_eq_ok, reject_eq_ok, exists_const, pure_eq_ok, Prod.mk.injEq, not_lt]
  refine and_congr_right (fun _ => ?_)
  rw [eq_comm, eq_comm (b := s')]
  exact and_congr_right (fun _ => Eq.congr_right (ext_totals rfl rfl rfl))

theorem addSeparator_eq_ok {isFirst : Bool} {s s' : JsonStats} {u : Unit}
    (hs : Within limits s) :
    addSeparator limits isFirst s = .ok (u, s') ↔
      Within limits (s + .bytes (if isFirst then 0 else 1)) ∧
        s' = s + .bytes (if isFirst then 0 else 1) := by
  cases isFirst with
  | true =>
    have hzero : s + .bytes 0 = s := add_zero s
    simp only [addSeparator, if_true, Except.ok.injEq, Prod.mk.injEq, true_and, hzero, hs]
    exact eq_comm
  | false =>
    simp only [addSeparator, Bool.false_eq_true, if_false, addCompactBytes_eq_ok, Within,
      compactBytes_add, nodes_add, JsonStats.bytes]
    constructor
    · exact fun ⟨hbytes, heq⟩ => ⟨⟨hbytes, hs.2⟩, heq⟩
    · exact fun ⟨hwithin, heq⟩ => ⟨hwithin.1, heq⟩

/-- Reading a value without parts. -/
private theorem leaf_eq_ok {n : Nat} {value j : Json} {s s' : JsonStats} :
    (do
      let ((), s) ← addNode limits s
      let ((), s) ← addCompactBytes limits n s
      return (value, s)) = Except.ok (j, s') ↔
    Within limits (s + ⟨n, 0, 1⟩) ∧ j = value ∧ s' = s + ⟨n, 0, 1⟩ := by
  have hsum : s + ⟨0, 0, 1⟩ + .bytes n = s + ⟨n, 0, 1⟩ :=
    ext_totals (by simp [JsonStats.bytes]) (by simp [JsonStats.bytes]) (by simp [JsonStats.bytes])
  simp only [bind_eq_ok, Prod.exists, addNode_eq_ok, addCompactBytes_eq_ok, pure_eq_ok, Prod.mk.injEq, exists_const]
  constructor
  · rintro ⟨_, ⟨hnodes, rfl⟩, _, ⟨hbytes, rfl⟩, rfl, rfl⟩
    rw [hsum]
    exact ⟨⟨hbytes, hnodes⟩, rfl, rfl⟩
  · rintro ⟨hwithin, rfl, rfl⟩
    exact ⟨_, ⟨hwithin.2, rfl⟩, _, ⟨hwithin.1, rfl⟩, rfl, hsum⟩

/-- Reading a container whose entries `body` reads. -/
private theorem container_eq_ok {α : Type} {body : Nat → Tracker α} {wrap : α → Json}
    {fits : Prop} {result : α} {others : JsonStats} {j : Json} {s s' : JsonStats}
    (h : ∀ {t}, Within limits t → ∀ {values t'}, body (depth + 1) t = .ok (values, t') ↔
      fits ∧ Within limits (t + others) ∧ values = result ∧ t' = t + others) :
    (do
      let ((), s) ← addNode limits s
      let (inner, s) ← enterContainer limits depth s
      let ((), s) ← addCompactBytes limits 2 s
      let (values, s) ← body inner s
      return (wrap values, s)) = Except.ok (j, s') ↔
    (depth + 1 ≤ limits.maxDepth ∧ fits) ∧ Within limits (s + (⟨2, depth + 1, 1⟩ + others)) ∧
      j = wrap result ∧ s' = s + (⟨2, depth + 1, 1⟩ + others) := by
  have hsum : s + ⟨0, 0, 1⟩ + ⟨0, depth + 1, 0⟩ + .bytes 2 = s + ⟨2, depth + 1, 1⟩ :=
    ext_totals (by simp [JsonStats.bytes]) (by simp [JsonStats.bytes]) (by simp [JsonStats.bytes])
  rw [← add_assoc]
  simp only [bind_eq_ok, Prod.exists, exists_const, pure_eq_ok, Prod.mk.injEq, addNode_eq_ok,
    enterContainer_eq_ok, addCompactBytes_eq_ok]
  constructor
  · rintro ⟨_, ⟨hnodes, rfl⟩, _, _, ⟨hdepth, rfl, rfl⟩, _, ⟨hbytes, rfl⟩, values, _, hbody, rfl,
      rfl⟩
    rw [hsum] at hbody
    obtain ⟨hfits, hwithin, rfl, rfl⟩ := (h ⟨hbytes, hnodes⟩).mp hbody
    exact ⟨⟨hdepth, hfits⟩, hwithin, rfl, rfl⟩
  · rintro ⟨⟨hdepth, hfits⟩, hwithin, rfl, rfl⟩
    have hopen := hwithin.of_add
    exact ⟨_, ⟨hopen.2, rfl⟩, _, _, ⟨hdepth, rfl, rfl⟩, _, ⟨hopen.1, rfl⟩, _, _,
      hsum ▸ (h hopen).mpr ⟨hfits, hwithin, rfl, rfl⟩, rfl, rfl⟩

/-- Separators of the entries from position `count` on. -/
def separators (count length : Nat) : Nat := if count = 0 then length - 1 else length

@[simp] theorem separators_zero (count : Nat) : separators count 0 = 0 := by
  unfold separators
  split <;> rfl

theorem separators_succ (count length : Nat) :
    separators count (length + 1) = (if count = 0 then 0 else 1) + separators (count + 1) length := by
  unfold separators
  split
  · simp
  · simp only [Nat.succ_ne_zero, if_false]
    omega

/-- One entry with its separator and name bytes, then the others. -/
private theorem entry_totals (s entry rest : JsonStats) (count length n : Nat) :
    s + .bytes (separators count (length + 1)) + (.bytes n + entry + rest) =
      s + .bytes (if count = 0 then 0 else 1) + .bytes n + entry +
        .bytes (separators (count + 1) length) + rest := by
  rw [separators_succ, bytes_add]
  abel

private theorem entries_bound {α : Type} {x : α} {xs : List α} {count max : Nat} :
    (x :: xs = [] ∨ count + (x :: xs).length ≤ max) ↔
      ¬ count ≥ max ∧ (xs = [] ∨ count + 1 + xs.length ≤ max) := by
  cases xs with
  | nil =>
    simp only [reduceCtorEq, false_or, List.length_singleton, true_or, and_true]
    omega
  | cons y ys =>
    simp only [reduceCtorEq, false_or, List.length_cons]
    omega

private theorem entries_within {α : Type} {xs : List α} {max : Nat} :
    (xs = [] ∨ 0 + xs.length ≤ max) ↔ xs.length ≤ max := by
  cases xs <;> simp

mutual
/-- A tree is read exactly when its parts fit and its totals stay within the limits. -/
theorem visit_eq_ok {depth : Nat} :
    ∀ {j j' : Json} {s s' : JsonStats}, visit limits depth j s = .ok (j', s') ↔
      j.Fits limits depth ∧ Within limits (s + j.totals depth) ∧ j' = j.materialized ∧
        s' = s + j.totals depth
  | .null, j', s, s' => by
    rw [visit, leaf_eq_ok, Fits, true_and]
    rfl
  | .bool b, j', s, s' => by
    rw [visit, leaf_eq_ok, Fits, true_and]
    rfl
  | .num n, j', s, s' => by
    rw [visit, leaf_eq_ok, Fits, true_and]
    rfl
  | .str t, j', s, s' => by
    have hleaf := @leaf_eq_ok limits (encodedJsonStringLen t) (.str t) j' s s'
    simp only [visit, bind_eq_ok, Prod.exists, Unique.exists_iff, PUnit.default_eq_unit,
      reject_eq_ok, not_lt] at hleaf ⊢
    rw [Fits, totals, materialized, ← hleaf]
    constructor
    · rintro ⟨a, hnode, hsize, hrest⟩
      exact ⟨hsize, a, hnode, hrest⟩
    · rintro ⟨hsize, a, hnode, hrest⟩
      exact ⟨a, hnode, hsize, hrest⟩
  | .arr xs, j', s, s' => by
    rw [visit, Fits, totals, materialized, add_assoc]
    refine @container_eq_ok limits depth _ (visitItems limits · 0 xs) .arr _ _ _ j' s s'
      fun {t} ht {values t'} => ?_
    rw [visitItems_eq_ok ht, entries_within, ← add_assoc, and_assoc]
    rfl
  | .obj ms, j', s, s' => by
    rw [visit, Fits, totals, materialized, add_assoc]
    refine @container_eq_ok limits depth _ (visitMembers limits · [] ms) (.obj <| sortMembers ·)
      _ _ _ j' s s' fun {t} ht {values t'} => ?_
    rw [visitMembers_eq_ok ht, List.length_nil, entries_within, ← add_assoc]
    constructor
    · rintro ⟨hcount, hfits, hnodup, _, hrest⟩
      exact ⟨⟨hcount, hnodup, hfits⟩, hrest⟩
    · rintro ⟨⟨hcount, hnodup, hfits⟩, hrest⟩
      exact ⟨hcount, hfits, hnodup, by simp, hrest⟩

theorem visitItems_eq_ok {depth : Nat} :
    ∀ {xs xs' : List Json} {count : Nat} {s s' : JsonStats}, Within limits s →
      (visitItems limits depth count xs s = .ok (xs', s') ↔
        (xs = [] ∨ count + xs.length ≤ limits.maxContainerEntries) ∧ FitsItems limits depth xs ∧
        Within limits (s + .bytes (separators count xs.length) + totalsItems depth xs) ∧
        xs' = materializedItems xs ∧
        s' = s + .bytes (separators count xs.length) + totalsItems depth xs)
  | [], xs', count, s, s', hs => by
    rw [visitItems, pure_eq_ok, FitsItems, materializedItems, totalsItems, List.length_nil,
      separators_zero, bytes_zero]
    simp only [add_zero, Prod.mk.injEq, true_or, true_and, hs, eq_comm]
  | x :: xs, xs', count, s, s', hs => by
    have hsum := entry_totals s (totals depth x) (totalsItems depth xs) count xs.length 0
    rw [bytes_zero, add_zero, zero_add] at hsum
    rw [FitsItems, materializedItems, totalsItems, List.length_cons, hsum, ← List.length_cons,
      entries_bound]
    simp only [visitItems, bind_eq_ok, reject_eq_ok, Unique.exists_iff, Prod.exists,
      pure_eq_ok, Prod.mk.injEq, addSeparator_eq_ok hs, decide_eq_true_eq]
    constructor
    · rintro ⟨hcount, _, ⟨hsep, rfl⟩, value, _, hvalue, values, _, hvalues, rfl, rfl⟩
      obtain ⟨hfits, hwithin, rfl, rfl⟩ := visit_eq_ok.mp hvalue
      obtain ⟨hbound, hfits', hwithin', rfl, rfl⟩ := (visitItems_eq_ok hwithin).mp hvalues
      exact ⟨⟨hcount, hbound⟩, ⟨hfits, hfits'⟩, hwithin', rfl, rfl⟩
    · rintro ⟨⟨hcount, hbound⟩, ⟨hfits, hfits'⟩, hwithin', rfl, rfl⟩
      have hwithin := hwithin'.of_add.of_add
      exact ⟨hcount, _, ⟨hwithin.of_add, rfl⟩, _, _, visit_eq_ok.mpr ⟨hfits, hwithin, rfl, rfl⟩,
        _, _, (visitItems_eq_ok hwithin).mpr ⟨hbound, hfits', hwithin', rfl, rfl⟩, rfl, rfl⟩

theorem visitMembers_eq_ok {depth : Nat} :
    ∀ {ms ms' : List (String × Json)} {seen : List String} {s s' : JsonStats}, Within limits s →
      (visitMembers limits depth seen ms s = .ok (ms', s') ↔
        (ms = [] ∨ seen.length + ms.length ≤ limits.maxContainerEntries) ∧
        FitsMembers limits depth ms ∧ (ms.map Prod.fst).Nodup ∧
        (∀ key ∈ ms.map Prod.fst, key ∉ seen) ∧
        Within limits (s + .bytes (separators seen.length ms.length) + totalsMembers depth ms) ∧
        ms' = materializedMembers ms ∧
        s' = s + .bytes (separators seen.length ms.length) + totalsMembers depth ms)
  | [], ms', seen, s, s', hs => by
    rw [visitMembers, pure_eq_ok, FitsMembers, materializedMembers, totalsMembers, List.length_nil,
      separators_zero, bytes_zero]
    simp only [add_zero, Prod.mk.injEq, true_or, true_and, hs, eq_comm,
      List.map_nil, List.nodup_nil, List.not_mem_nil, false_implies, implies_true]
  | (key, x) :: ms, ms', seen, s, s', hs => by
    have hsum := entry_totals s (totals depth x) (totalsMembers depth ms) seen.length ms.length
      (encodedJsonStringLen key + 1)
    rw [FitsMembers, materializedMembers, totalsMembers, List.length_cons, hsum,
      ← @List.length_cons _ (key, x), entries_bound]
    have hempty : (if seen.isEmpty = true then 0 else 1) = if seen.length = 0 then 0 else 1 := by
      cases seen <;> rfl
    simp only [visitMembers, bind_eq_ok, reject_eq_ok, Unique.exists_iff, Prod.exists,
      pure_eq_ok, Prod.mk.injEq, addSeparator_eq_ok hs, addCompactBytes_eq_ok,
      hempty, List.map_cons, List.nodup_cons, List.mem_cons, not_lt]
    constructor
    · rintro ⟨hcount, hkey, _, ⟨hsep, rfl⟩, _, ⟨hname, rfl⟩, hfresh, value, _, hvalue, members, _,
        hmembers, rfl, rfl⟩
      obtain ⟨hfits, hwithin, rfl, rfl⟩ := visit_eq_ok.mp hvalue
      obtain ⟨hbound, hfits', hnodup, hunseen, hwithin', rfl, rfl⟩ :=
        (visitMembers_eq_ok hwithin).mp hmembers
      refine ⟨⟨hcount, hbound⟩, ⟨hkey, hfits, hfits'⟩, ⟨?_, hnodup⟩, ?_, hwithin', rfl, rfl⟩
      · exact fun hmem => hunseen key hmem List.mem_cons_self
      · rintro k (rfl | hk)
        · exact hfresh
        · exact fun hseen => hunseen k hk (List.mem_cons_of_mem key hseen)
    · rintro ⟨⟨hcount, hbound⟩, ⟨hkey, hfits, hfits'⟩, ⟨hnew, hnodup⟩, hunseen, hwithin', rfl, rfl⟩
      have hwithin := hwithin'.of_add.of_add
      refine ⟨hcount, hkey, _, ⟨hwithin.of_add.of_add, rfl⟩, _, ⟨hwithin.of_add.1, rfl⟩,
        hunseen key (.inl rfl), _, _, visit_eq_ok.mpr ⟨hfits, hwithin, rfl, rfl⟩, _, _,
        (visitMembers_eq_ok hwithin).mpr ⟨hbound, hfits', hnodup, ?_, hwithin', rfl, rfl⟩, rfl, rfl⟩
      intro k hk hseen
      rcases List.mem_cons.mp hseen with rfl | hseen
      · exact hnew hk
      · exact hunseen k (.inr hk) hseen
end

/-! ## Reading again -/

theorem materializedItems_eq_map (xs : List Json) :
    materializedItems xs = xs.map materialized := by
  induction xs with
  | nil => rfl
  | cons x xs ih => rw [materializedItems, ih, List.map_cons]

theorem materializedMembers_eq_map (ms : List (String × Json)) :
    materializedMembers ms = ms.map (fun m => (m.1, m.2.materialized)) := by
  induction ms with
  | nil => rfl
  | cons m ms ih => rw [materializedMembers, ih, List.map_cons]

/-- The members of an object that was read, up to their order. -/
theorem sortMembers_materialized_perm (ms : List (String × Json)) :
    (sortMembers (materializedMembers ms)).Perm (ms.map (fun m => (m.1, m.2.materialized))) := by
  rw [← materializedMembers_eq_map]
  exact sortByKey_perm _ _

theorem totalsItems_eq_sum (depth : Nat) (xs : List Json) :
    totalsItems depth xs = (xs.map (totals depth)).sum := by
  induction xs with
  | nil => rfl
  | cons x xs ih => rw [totalsItems, ih, List.map_cons, List.sum_cons]

theorem totalsMembers_eq_sum (depth : Nat) (ms : List (String × Json)) :
    totalsMembers depth ms =
      (ms.map (fun m => .bytes (encodedJsonStringLen m.1 + 1) + totals depth m.2)).sum := by
  induction ms with
  | nil => rfl
  | cons m ms ih => rw [totalsMembers, ih, List.map_cons, List.sum_cons]

theorem fitsItems_iff {xs : List Json} :
    FitsItems limits depth xs ↔ ∀ x ∈ xs, Fits limits depth x := by
  induction xs with
  | nil => simp [FitsItems]
  | cons x xs ih => rw [FitsItems, ih, List.forall_mem_cons]

theorem fitsMembers_iff {ms : List (String × Json)} :
    FitsMembers limits depth ms ↔
      ∀ m ∈ ms, m.1.utf8ByteSize ≤ limits.maxObjectKeyBytes ∧ Fits limits depth m.2 := by
  induction ms with
  | nil => simp [FitsMembers]
  | cons m ms ih => rw [FitsMembers, ih, List.forall_mem_cons, and_assoc]

theorem totals_arr_perm {xs ys : List Json} (h : xs.Perm ys) :
    (Json.arr xs).totals depth = (Json.arr ys).totals depth := by
  rw [totals, totals, totalsItems_eq_sum, totalsItems_eq_sum, h.length_eq,
    (h.map (totals (depth + 1))).sum_eq]

theorem fits_arr_perm {xs ys : List Json} (h : xs.Perm ys) :
    (Json.arr xs).Fits limits depth ↔ (Json.arr ys).Fits limits depth := by
  rw [Fits, Fits, fitsItems_iff, fitsItems_iff, h.length_eq]
  simp only [h.mem_iff]

theorem totals_materialized (depth : Nat) (tree : Json) :
    tree.materialized.totals depth = tree.totals depth := by
  induction tree using induct generalizing depth with
  | null | bool | num | str => rfl
  | arr xs ih =>
    have hitems : xs.map (totals (depth + 1) ∘ materialized) = xs.map (totals (depth + 1)) :=
      List.map_congr_left (fun x hx => ih x hx _)
    rw [materialized, totals, totals, materializedItems_eq_map, List.length_map,
      totalsItems_eq_sum, totalsItems_eq_sum, List.map_map, hitems]
  | obj ms ih =>
    have hperm := sortMembers_materialized_perm ms
    rw [materialized, totals, totals, hperm.length_eq, List.length_map, totalsMembers_eq_sum,
      totalsMembers_eq_sum, (hperm.map _).sum_eq, List.map_map]
    congr 2
    exact List.map_congr_left (fun m hm => congrArg (_ + ·) (ih m hm _))

theorem fits_materialized (depth : Nat) (tree : Json) :
    tree.materialized.Fits limits depth ↔ tree.Fits limits depth := by
  induction tree using induct generalizing depth with
  | null | bool | num | str => rfl
  | arr xs ih =>
    rw [materialized, Fits, Fits, materializedItems_eq_map, List.length_map, fitsItems_iff,
      fitsItems_iff, List.forall_mem_map]
    simp +contextual only [ih]
  | obj ms ih =>
    have hperm := sortMembers_materialized_perm ms
    rw [materialized, Fits, Fits, hperm.length_eq, List.length_map, (hperm.map _).nodup_iff,
      List.map_map, fitsMembers_iff, fitsMembers_iff]
    simp +contextual only [hperm.mem_iff, List.forall_mem_map, ih]
    rfl

/-- Reading sorts members, which does not show where they are sorted anyway. -/
theorem map_materialized {f : Json → Json} (harr : ∀ xs, f (.arr xs) = .arr (xs.map f))
    (hobj : ∀ ms, f (.obj ms) = .obj (sortMembers (ms.map (fun m => (m.1, f m.2)))))
    {tree : Json} (h : tree.Fits limits depth) : f tree.materialized = f tree := by
  induction tree using induct generalizing depth with
  | null | bool | num | str => rfl
  | arr xs ih =>
    rw [Fits, fitsItems_iff] at h
    rw [materialized, materializedItems_eq_map, harr, harr, List.map_map]
    exact congrArg Json.arr (List.map_congr_left (fun x hx => ih x hx (h.2.2 x hx)))
  | obj ms ih =>
    rw [Fits, fitsMembers_iff] at h
    have hsame : ms.map (fun m => (m.1, f m.2.materialized)) = ms.map (fun m => (m.1, f m.2)) :=
      List.map_congr_left (fun m hm => by rw [ih m hm (h.2.2.2 m hm).2])
    have hperm := (sortMembers_materialized_perm ms).map (fun m => (m.1, f m.2))
    rw [List.map_map, Function.comp_def, hsame] at hperm
    rw [materialized, hobj, hobj]
    refine congrArg Json.obj (sortByKey_eq_of_perm hperm ((hperm.map Prod.fst).nodup_iff.mpr ?_))
    rw [List.map_map]
    exact h.2.2.1

/-- A tree whose parts fit is read into a value that reading leaves as it is. -/
theorem materialized_materialized {tree : Json} (h : tree.Fits limits depth) :
    tree.materialized.materialized = tree.materialized :=
  map_materialized (fun xs => by rw [materialized, materializedItems_eq_map])
    (fun ms => by rw [materialized, materializedMembers_eq_map]) h

/-- Reading keeps the tree that canonical bytes determine. -/
theorem rfc8785_materialized {tree : Json} (h : tree.Fits limits depth) :
    tree.materialized.rfc8785 = tree.rfc8785 :=
  map_materialized rfc8785_arr rfc8785_obj h

theorem ijsonNumbers_materialized (tree : Json) :
    CanonicalJson.ijsonNumbers tree.materialized = CanonicalJson.ijsonNumbers tree := by
  induction tree using induct with
  | null | bool | num | str => rfl
  | arr xs ih =>
    rw [materialized, CanonicalJson.ijsonNumbers, CanonicalJson.ijsonNumbers, Bool.eq_iff_iff,
      CanonicalJson.ijsonItems_iff, CanonicalJson.ijsonItems_iff, materializedItems_eq_map,
      List.forall_mem_map]
    simp +contextual only [ih]
  | obj ms ih =>
    rw [materialized, CanonicalJson.ijsonNumbers, CanonicalJson.ijsonNumbers, Bool.eq_iff_iff,
      CanonicalJson.ijsonMembers_iff, CanonicalJson.ijsonMembers_iff]
    simp +contextual only [(sortMembers_materialized_perm ms).mem_iff, List.forall_mem_map, ih]

/-- The tree fits the limits as a whole. -/
def FitsLimits (tree : Json) (limits : JsonLimits) : Prop :=
  tree.Fits limits 0 ∧ Within limits (tree.totals 0)

/-- Each of the limits is at most its counterpart. -/
structure Narrower (limits wider : JsonLimits) : Prop where
  bytes : limits.maxBytes ≤ wider.maxBytes
  depth : limits.maxDepth ≤ wider.maxDepth
  entries : limits.maxContainerEntries ≤ wider.maxContainerEntries
  nodes : limits.maxNodes ≤ wider.maxNodes
  strings : limits.maxStringBytes ≤ wider.maxStringBytes
  keys : limits.maxObjectKeyBytes ≤ wider.maxObjectKeyBytes

theorem Fits.mono {wider : JsonLimits} (hle : Narrower limits wider) {tree : Json}
    (h : tree.Fits limits depth) : tree.Fits wider depth := by
  induction tree using Json.induct generalizing depth with
  | null | bool | num => trivial
  | str => exact h.trans hle.strings
  | arr xs ih =>
    rw [Fits, fitsItems_iff] at h ⊢
    exact ⟨h.1.trans hle.depth, h.2.1.trans hle.entries, fun x hx => ih x hx (h.2.2 x hx)⟩
  | obj ms ih =>
    rw [Fits, fitsMembers_iff] at h ⊢
    exact ⟨h.1.trans hle.depth, h.2.1.trans hle.entries, h.2.2.1, fun m hm =>
      ⟨(h.2.2.2 m hm).1.trans hle.keys, ih m hm (h.2.2.2 m hm).2⟩⟩

theorem FitsLimits.mono {wider : JsonLimits} (hle : Narrower limits wider) {tree : Json}
    (h : tree.FitsLimits limits) : tree.FitsLimits wider :=
  ⟨h.1.mono hle, h.2.1.trans hle.bytes, h.2.2.trans hle.nodes⟩

end Json

namespace BoundedJson

open Json

theorem tryFromValueWithLimits_eq_ok {tree : Json} {limits : JsonLimits} {b : BoundedJson} :
    tryFromValueWithLimits tree limits = .ok b ↔
      tree.FitsLimits limits ∧ b = ⟨tree.materialized, tree.totals 0⟩ := by
  have hzero : (⟨0, 0, 0⟩ : JsonStats) = 0 := rfl
  simp only [tryFromValueWithLimits, bind_eq_ok, Prod.exists, visit_eq_ok, hzero, zero_add, pure_eq_ok, FitsLimits]
  constructor
  · rintro ⟨value, stats, ⟨hfits, hwithin, rfl, rfl⟩, rfl⟩
    exact ⟨⟨hfits, hwithin⟩, rfl⟩
  · rintro ⟨⟨hfits, hwithin⟩, rfl⟩
    exact ⟨_, _, ⟨hfits, hwithin, rfl, rfl⟩, rfl⟩

theorem reread_eq_ok {tree : Json} {limits limits' : JsonLimits} {b b' : BoundedJson}
    (h : tryFromValueWithLimits tree limits = .ok b) :
    tryFromValueWithLimits b.value limits' = .ok b' ↔ b.value.FitsLimits limits' ∧ b' = b := by
  obtain ⟨hfits, rfl⟩ := tryFromValueWithLimits_eq_ok.mp h
  rw [tryFromValueWithLimits_eq_ok, materialized_materialized hfits.1, totals_materialized]

theorem fitsLimits_of_read {tree : Json} {limits : JsonLimits} {b : BoundedJson}
    (h : tryFromValueWithLimits tree limits = .ok b) : b.value.FitsLimits limits := by
  obtain ⟨⟨hfits, hwithin⟩, rfl⟩ := tryFromValueWithLimits_eq_ok.mp h
  refine ⟨(fits_materialized 0 tree).mpr hfits, ?_⟩
  rw [totals_materialized]
  exact hwithin

theorem read_wider {tree : Json} {limits wider : JsonLimits} {b : BoundedJson}
    (hle : Narrower limits wider) (h : tryFromValueWithLimits tree limits = .ok b) :
    tryFromValueWithLimits b.value wider = .ok b :=
  (reread_eq_ok h).mpr ⟨(fitsLimits_of_read h).mono hle, rfl⟩

end BoundedJson

end StateKnot
