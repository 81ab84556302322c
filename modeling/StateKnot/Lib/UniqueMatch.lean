import Mathlib.Data.List.Pairwise

/-!
# Searching a list in which at most one entry matches

A search returns the first entry that matches.  Where two matching entries cannot both
stand in the list, the order of the list has no influence on what is found: the search
finds the entries that match, wherever they stand.
-/

namespace Lib

variable {α : Type} {p : α → Bool} {l l' : List α}

theorem forall_zipIdx_iff {P : α → Prop} :
    (∀ entry ∈ l.zipIdx, P entry.1) ↔ ∀ a ∈ l, P a := by
  constructor
  · intro h a ha
    obtain ⟨i, hi, rfl⟩ := List.getElem_of_mem ha
    exact h (l[i], i) (List.mem_zipIdx_iff_getElem?.mpr (List.getElem?_eq_getElem hi))
  · intro h entry hentry
    exact h _ (List.mem_of_getElem? (List.mem_zipIdx_iff_getElem?.mp hentry))

/-- A check of every entry against the entries before it covers every pair. -/
theorem pairwise_iff_earlier {R : α → α → Prop} :
    l.Pairwise R ↔ ∀ entry ∈ l.zipIdx, ∀ old ∈ l.take entry.2, R old entry.1 := by
  rw [List.pairwise_iff_getElem]
  constructor
  · intro h entry hentry old hold
    obtain ⟨i, hi, rfl⟩ := List.mem_take_iff_getElem.mp hold
    obtain ⟨hlt, hget⟩ := List.getElem?_eq_some_iff.mp (List.mem_zipIdx_iff_getElem?.mp hentry)
    rw [← hget]
    exact h i entry.2 (by omega) hlt (by omega)
  · intro h i j hi hj hij
    have hentry : (l[j], j) ∈ l.zipIdx :=
      List.mem_zipIdx_iff_getElem?.mpr (List.getElem?_eq_getElem hj)
    exact h _ hentry l[i] (List.mem_take_iff_getElem.mpr ⟨i, by omega, rfl⟩)

theorem getElem?_of_forall₂ {β : Type} {R : α → β → Prop} {r : List β}
    (h : List.Forall₂ R l r) {index : Nat} {a : α} (ha : l[index]? = some a) :
    ∃ b, r[index]? = some b ∧ R a b := by
  induction h generalizing index with
  | nil => simp at ha
  | cons hhead _ ih =>
    cases index with
    | zero =>
      rw [List.getElem?_cons_zero, Option.some.injEq] at ha
      subst ha
      exact ⟨_, List.getElem?_cons_zero, hhead⟩
    | succ index =>
      rw [List.getElem?_cons_succ] at ha ⊢
      exact ih ha

/-- No two entries of the list match. -/
def MatchesOnce (p : α → Bool) (l : List α) : Prop :=
  l.Pairwise fun a b => ¬(p a = true ∧ p b = true)

namespace MatchesOnce

theorem countP_le_one (h : MatchesOnce p l) : l.countP p ≤ 1 := by
  unfold MatchesOnce at h
  induction h with
  | nil => simp
  | @cons a l ha _ ih =>
    by_cases hp : p a = true
    · -- nothing behind a match matches
      have hrest : l.countP p = 0 := List.countP_eq_zero.mpr fun b hb hpb => ha b hb ⟨hp, hpb⟩
      simp [List.countP_cons_of_pos hp, hrest]
    · rw [List.countP_cons_of_neg hp]
      exact ih

theorem find?_eq_some_iff (h : MatchesOnce p l) {a : α} :
    l.find? p = some a ↔ a ∈ l ∧ p a = true := by
  constructor
  · intro hfind
    exact ⟨List.mem_of_find?_eq_some hfind, List.find?_some hfind⟩
  · intro ⟨hmem, hp⟩
    unfold MatchesOnce at h
    induction h with
    | nil => cases hmem
    | @cons b l hb _ ih =>
      by_cases hpb : p b = true
      · rcases List.mem_cons.mp hmem with rfl | hmem
        · exact List.find?_cons_of_pos hpb
        · exact absurd ⟨hpb, hp⟩ (hb a hmem)
      · rw [List.find?_cons_of_neg hpb]
        rcases List.mem_cons.mp hmem with rfl | hmem
        · exact absurd hp hpb
        · exact ih hmem

theorem find?_congr (h : MatchesOnce p l) (h' : MatchesOnce p l')
    (hmem : ∀ a, p a = true → (a ∈ l ↔ a ∈ l')) : l.find? p = l'.find? p := by
  apply Option.ext
  intro a
  rw [h.find?_eq_some_iff, h'.find?_eq_some_iff]
  constructor
  · intro ⟨ha, hp⟩
    exact ⟨(hmem a hp).mp ha, hp⟩
  · intro ⟨ha, hp⟩
    exact ⟨(hmem a hp).mpr ha, hp⟩

end MatchesOnce

/-! ## Answers -/

section Answers

variable {ε β : Type} {grant : α → Except ε β} {denied : ε}

/-- The answer of the first entry that matches. -/
def firstAnswer (p : α → Bool) (l : List α) (denied : ε) (grant : α → Except ε β) : Except ε β :=
  match l.find? p with
  | none => .error denied
  | some a => grant a

theorem firstAnswer_of_mem (h : MatchesOnce p l) {a : α} (ha : a ∈ l) (hp : p a = true) :
    firstAnswer p l denied grant = grant a := by
  unfold firstAnswer
  rw [h.find?_eq_some_iff.mpr ⟨ha, hp⟩]

theorem firstAnswer_of_none (h : ∀ a ∈ l, ¬ p a = true) :
    firstAnswer p l denied grant = .error denied := by
  unfold firstAnswer
  rw [List.find?_eq_none.mpr h]

theorem firstAnswer_eq_ok (h : MatchesOnce p l) {b : β} :
    firstAnswer p l denied grant = .ok b ↔ ∃ a ∈ l, p a = true ∧ grant a = .ok b := by
  constructor
  · intro hanswer
    unfold firstAnswer at hanswer
    split at hanswer
    · cases hanswer
    · rename_i a hfind
      exact ⟨a, List.mem_of_find?_eq_some hfind, List.find?_some hfind, hanswer⟩
  · intro ⟨a, ha, hp, hgrant⟩
    rw [firstAnswer_of_mem h ha hp, hgrant]

/-- Where every match grants something, a list answers exactly what one of its entries matches. -/
theorem exists_firstAnswer_iff (h : MatchesOnce p l)
    (hgrants : ∀ a ∈ l, ∃ b, grant a = .ok b) :
    (∃ b, firstAnswer p l denied grant = .ok b) ↔ ∃ a ∈ l, p a = true := by
  simp only [firstAnswer_eq_ok h]
  constructor
  · intro ⟨_, a, ha, hp, _⟩
    exact ⟨a, ha, hp⟩
  · intro ⟨a, ha, hp⟩
    obtain ⟨b, hb⟩ := hgrants a ha
    exact ⟨b, a, ha, hp, hb⟩

theorem firstAnswer_congr (h : MatchesOnce p l) (h' : MatchesOnce p l')
    (hmem : ∀ a, p a = true → (a ∈ l ↔ a ∈ l')) :
    firstAnswer p l denied grant = firstAnswer p l' denied grant := by
  unfold firstAnswer
  rw [h.find?_congr h' hmem]

end Answers

end Lib
