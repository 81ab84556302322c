import Mathlib.Algebra.BigOperators.Ring.Finset
import Mathlib.Algebra.Order.BigOperators.Group.Finset
import Mathlib.Data.Nat.Cast.Order.Basic
import Mathlib.Tactic.Linarith
import Mathlib.Tactic.Ring

/-!
# Smooth weighted picks

Candidates with weights are picked one after the other.  Each pick gives every
candidate its weight as credit and takes the total weight from the one picked.  When
the pick always has the most credit, no credit falls to the negative total: a
candidate is never picked more than its share, rounded up, and exactly its share in
a full cycle.
-/

namespace Lib

variable {ι : Type} [DecidableEq ι] {candidates : Finset ι} {weight : ι → ℕ} {picks : List ι}
  {i j : ι}

/-- The credit of a candidate after some picks. -/
def credit (candidates : Finset ι) (weight : ι → ℕ) (picks : List ι) (i : ι) : ℤ :=
  picks.length * weight i - (∑ j ∈ candidates, weight j : ℕ) * picks.count i

/-- Every pick has the most credit once the weights are added. -/
inductive SmoothPicks (candidates : Finset ι) (weight : ι → ℕ) : List ι → Prop where
  | nil : SmoothPicks candidates weight []
  | pick {picks : List ι} {i : ι} (h : SmoothPicks candidates weight picks)
      (hmem : i ∈ candidates)
      (hbest : ∀ j ∈ candidates, credit candidates weight picks j + weight j ≤
        credit candidates weight picks i + weight i) :
      SmoothPicks candidates weight (picks ++ [i])

theorem credit_concat : credit candidates weight (picks ++ [i]) j =
    credit candidates weight picks j + weight j -
      if i = j then ((∑ k ∈ candidates, weight k : ℕ) : ℤ) else 0 := by
  unfold credit
  rw [List.length_append, List.count_append, List.length_singleton, List.count_singleton]
  by_cases h : i = j
  · simp only [h, beq_self_eq_true, if_true]
    push_cast
    ring
  · simp only [beq_eq_false_iff_ne.mpr h, h, if_false]
    push_cast
    ring

theorem sum_count (h : ∀ i ∈ picks, i ∈ candidates) :
    ∑ i ∈ candidates, picks.count i = picks.length := by
  induction picks with
  | nil => simp
  | cons i picks ih =>
    simp only [List.count_cons, Finset.sum_add_distrib]
    rw [ih fun k hk => h k (List.mem_cons_of_mem i hk)]
    have hone : ∑ k ∈ candidates, (if i == k then 1 else 0) = 1 := by
      simp only [beq_iff_eq, Finset.sum_ite_eq, if_pos (h i List.mem_cons_self)]
    rw [hone, List.length_cons]

/-- Credit is neither gained nor lost. -/
theorem sum_credit (h : ∀ i ∈ picks, i ∈ candidates) :
    ∑ i ∈ candidates, credit candidates weight picks i = 0 := by
  unfold credit
  rw [Finset.sum_sub_distrib, ← Finset.mul_sum, ← Finset.mul_sum, ← Nat.cast_sum, ← Nat.cast_sum,
    sum_count h]
  ring

namespace SmoothPicks

theorem mem (h : SmoothPicks candidates weight picks) : ∀ i ∈ picks, i ∈ candidates := by
  induction h with
  | nil => simp
  | pick _ hmem _ ih =>
    intro k hk
    rcases List.mem_append.mp hk with hk | hk
    · exact ih k hk
    · rw [List.mem_singleton.mp hk]
      exact hmem

/-- The best credit is positive before the total is taken from it. -/
theorem best_pos (h : SmoothPicks candidates weight picks)
    (hpos : 0 < ∑ j ∈ candidates, weight j)
    (hbest : ∀ j ∈ candidates, credit candidates weight picks j + weight j ≤
      credit candidates weight picks i + weight i) :
    0 < credit candidates weight picks i + weight i := by
  by_contra hneg
  have hsum : ∑ j ∈ candidates, (credit candidates weight picks j + weight j) ≤ 0 :=
    Finset.sum_nonpos fun j hj => (hbest j hj).trans (not_lt.mp hneg)
  rw [Finset.sum_add_distrib, sum_credit h.mem, zero_add, ← Nat.cast_sum] at hsum
  omega

/-- No credit falls to the negative total. -/
theorem neg_total_lt_credit (h : SmoothPicks candidates weight picks)
    (hpos : 0 < ∑ j ∈ candidates, weight j) (j : ι) :
    -((∑ k ∈ candidates, weight k : ℕ) : ℤ) < credit candidates weight picks j := by
  induction h with
  | nil =>
    simp only [credit, List.length_nil, List.count_nil]
    omega
  | @pick picks i hpicks _ hbest ih =>
    rw [credit_concat]
    by_cases hij : i = j
    · subst hij
      have := hpicks.best_pos hpos hbest
      rw [if_pos rfl]
      omega
    · rw [if_neg hij]
      omega

/-- A candidate is picked less than once more than its share. -/
theorem count_lt (h : SmoothPicks candidates weight picks)
    (hpos : 0 < ∑ j ∈ candidates, weight j) (i : ι) :
    (∑ j ∈ candidates, weight j) * picks.count i <
      picks.length * weight i + ∑ j ∈ candidates, weight j := by
  have hcredit := h.neg_total_lt_credit hpos i
  unfold credit at hcredit
  zify
  push_cast at hcredit
  linarith

/-- In a full cycle every candidate is picked as often as its weight says. -/
theorem count_eq (h : SmoothPicks candidates weight picks)
    (hlength : picks.length = ∑ j ∈ candidates, weight j) (hi : i ∈ candidates) :
    picks.count i = weight i := by
  have hle : ∀ k ∈ candidates, picks.count k ≤ weight k := by
    intro k _
    by_cases hpos : 0 < ∑ j ∈ candidates, weight j
    · have hlt := h.count_lt hpos k
      rw [hlength, ← Nat.mul_succ] at hlt
      exact Nat.lt_succ_iff.mp (Nat.lt_of_mul_lt_mul_left hlt)
    · have hnil : picks = [] := List.length_eq_zero_iff.mp (by omega)
      simp [hnil]
  have hsum : ∑ k ∈ candidates, picks.count k = ∑ k ∈ candidates, weight k := by
    rw [sum_count h.mem, hlength]
  exact (Finset.sum_eq_sum_iff_of_le hle).mp hsum i hi

theorem of_concat (h : SmoothPicks candidates weight (picks ++ [i])) :
    SmoothPicks candidates weight picks := by
  generalize hall : picks ++ [i] = all at h
  cases h with
  | nil => simp at hall
  | pick h _ _ =>
    obtain ⟨rfl, _⟩ := List.append_inj' hall rfl
    exact h

theorem take (h : SmoothPicks candidates weight picks) (count : ℕ) :
    SmoothPicks candidates weight (picks.take count) := by
  induction picks using List.reverseRecOn with
  | nil => rwa [List.take_nil]
  | append_singleton picks i ih =>
    by_cases hcount : count ≤ picks.length
    · rw [List.take_append_of_le_length hcount]
      exact ih h.of_concat
    · rw [List.take_of_length_le]
      · exact h
      · rw [List.length_append, List.length_singleton]
        omega

end SmoothPicks

end Lib
