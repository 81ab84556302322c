import Mathlib.Data.List.Basic
import Mathlib.Order.Nat

/-!
# Gaps of a periodic schedule

Positions within a period, repeated forever, leave gaps between a position and the
next one; the first position follows the last one a period later.  A window as long
as the largest gap meets a position wherever it starts, and a shorter one can miss
them all.
-/

namespace Lib

/-- Every position with the one that follows it. -/
def successors (period : ℕ) (positions : List ℕ) : List (ℕ × ℕ) :=
  positions.zip (positions.tail ++ (positions.head?.map (· + period)).toList)

/-- The distances from the positions to the ones that follow. -/
def gaps (period : ℕ) (positions : List ℕ) : List ℕ :=
  (successors period positions).map fun pair => pair.2 - pair.1

variable {period first last p q m r : ℕ} {rest positions : List ℕ}

theorem successors_cons (period first : ℕ) (rest : List ℕ) :
    successors period (first :: rest) = (first :: rest).zip (rest ++ [first + period]) := rfl

/-- Between the first and the last member of a list some member and its neighbour enclose a given
number. -/
theorem exists_mem_zip_lt_le (hlt : first < r) (hle : r ≤ last) :
    ∃ p q, (p, q) ∈ (first :: rest).zip (rest ++ [last]) ∧ p < r ∧ r ≤ q := by
  induction rest generalizing first with
  | nil => exact ⟨first, last, by simp, hlt, hle⟩
  | cons second rest ih =>
    by_cases hsecond : r ≤ second
    · exact ⟨first, second, by simp, hlt, hsecond⟩
    · obtain ⟨p, q, hpair, hp, hq⟩ := ih (not_le.mp hsecond)
      refine ⟨p, q, ?_, hp, hq⟩
      rw [List.cons_append, List.zip_cons_cons]
      exact List.mem_cons_of_mem _ hpair

/-- No member of an ascending list lies between neighbours. -/
theorem le_or_le_of_mem_zip (hsorted : (first :: (rest ++ [last])).Pairwise (· < ·))
    (hpair : (p, q) ∈ (first :: rest).zip (rest ++ [last]))
    (hm : m ∈ first :: (rest ++ [last])) : m ≤ p ∨ q ≤ m := by
  induction rest generalizing first with
  | nil =>
    simp only [List.nil_append, List.zip_cons_cons, List.zip_nil_right, List.mem_singleton,
      Prod.mk.injEq] at hpair
    simp only [List.nil_append, List.mem_cons, List.not_mem_nil, or_false] at hm
    omega
  | cons second rest ih =>
    rw [List.cons_append, List.zip_cons_cons] at hpair
    rw [List.cons_append, List.pairwise_cons] at hsorted
    rcases List.mem_cons.mp hpair with heq | htail
    · -- the pair is the first one: every other member comes after its right part
      cases heq
      rcases List.mem_cons.mp hm with rfl | hm
      · exact .inl (le_refl _)
      · rcases List.mem_cons.mp hm with rfl | hm
        · exact .inr (le_refl _)
        · exact .inr ((List.pairwise_cons.mp hsorted.2).1 m hm).le
    · rcases List.mem_cons.mp hm with rfl | hm
      · have hp : p ∈ second :: rest := (List.of_mem_zip htail).1
        exact .inl (hsorted.1 p (by
          rw [← List.cons_append]
          exact List.mem_append_left _ hp)).le
      · exact ih hsorted.2 htail hm

/-- The positions of a period: ascending, and within it. -/
structure InPeriod (period : ℕ) (positions : List ℕ) : Prop where
  sorted : positions.Pairwise (· < ·)
  lt : ∀ p ∈ positions, p < period

namespace InPeriod

theorem sorted_concat (h : InPeriod period (first :: rest)) :
    (first :: (rest ++ [first + period])).Pairwise (· < ·) := by
  rw [← List.cons_append, List.pairwise_append]
  refine ⟨h.sorted, List.pairwise_singleton _ _, fun p hp q hq => ?_⟩
  rw [List.mem_singleton.mp hq]
  have := h.lt p hp
  omega

/-- Whatever follows a position is a position of the schedule. -/
theorem mod_mem_of_mem_successors (h : InPeriod period (first :: rest))
    (hpair : (p, q) ∈ successors period (first :: rest)) : q % period ∈ first :: rest := by
  rw [successors_cons] at hpair
  have hq := (List.of_mem_zip hpair).2
  rcases List.mem_append.mp hq with hq | hq
  · have hmem := List.mem_cons_of_mem first hq
    rwa [Nat.mod_eq_of_lt (h.lt q hmem)]
  · rw [List.mem_singleton.mp hq, Nat.add_mod_right, Nat.mod_eq_of_lt (h.lt first List.mem_cons_self)]
    exact List.mem_cons_self

theorem gap_le (h : InPeriod period positions) {gap : ℕ} (hgap : gap ∈ gaps period positions) :
    gap ≤ period := by
  cases positions with
  | nil => cases hgap
  | cons first rest =>
    obtain ⟨⟨p, q⟩, hpair, rfl⟩ := List.mem_map.mp hgap
    rw [successors_cons] at hpair
    obtain ⟨hp, hq⟩ := List.of_mem_zip hpair
    have hfirst : first ≤ p := by
      rcases List.mem_cons.mp hp with rfl | hp
      · exact le_refl _
      · exact ((List.pairwise_cons.mp h.sorted).1 p hp).le
    show q - p ≤ period
    rcases List.mem_append.mp hq with hq | hq
    · have := h.lt q (List.mem_cons_of_mem first hq)
      omega
    · rw [List.mem_singleton.mp hq]
      omega

/-- A window as long as every gap meets a position. -/
theorem exists_hit (h : InPeriod period positions) (hne : positions ≠ []) {bound : ℕ}
    (hbound : ∀ gap ∈ gaps period positions, gap ≤ bound) (start : ℕ) :
    ∃ k, start ≤ k ∧ k < start + bound ∧ k % period ∈ positions := by
  obtain ⟨first, rest, rfl⟩ := List.exists_cons_of_ne_nil hne
  have hfirst := h.lt first List.mem_cons_self
  -- the representative of the start after the first position and up to its repetition
  obtain ⟨r, hlt, hle, hmod⟩ : ∃ r, first < r ∧ r ≤ first + period ∧
      r % period = start % period := by
    have hstart := Nat.mod_lt start (Nat.zero_lt_of_lt hfirst)
    by_cases hafter : first < start % period
    · exact ⟨start % period, hafter, by omega, Nat.mod_mod _ _⟩
    · exact ⟨start % period + period, by omega, by omega, by
        rw [Nat.add_mod_right, Nat.mod_mod]⟩
  obtain ⟨p, q, hpair, hp, hq⟩ : ∃ p q, (p, q) ∈ successors period (first :: rest) ∧ p < r ∧
      r ≤ q := exists_mem_zip_lt_le hlt hle
  have hgap : q - p ≤ bound := hbound (q - p) (List.mem_map.mpr ⟨(p, q), hpair, rfl⟩)
  refine ⟨start + (q - r), by omega, by omega, ?_⟩
  have hcongr : (start + (q - r)) % period = q % period := by
    rw [Nat.add_mod, ← hmod, ← Nat.add_mod, Nat.add_sub_cancel' hq]
  rw [hcongr]
  exact h.mod_mem_of_mem_successors hpair

/-- After the position before a gap a shorter window misses all positions. -/
theorem exists_miss (h : InPeriod period positions) {gap : ℕ}
    (hgap : gap ∈ gaps period positions) :
    ∃ start, ∀ k, start ≤ k → k < start + (gap - 1) → k % period ∉ positions := by
  cases positions with
  | nil => cases hgap
  | cons first rest =>
    obtain ⟨⟨p, q⟩, hpair, rfl⟩ := List.mem_map.mp hgap
    rw [successors_cons] at hpair
    have hmem : ∀ m ∈ first :: rest, m ∈ first :: (rest ++ [first + period]) := by
      intro m hm
      rw [← List.cons_append]
      exact List.mem_append_left _ hm
    refine ⟨p + 1, fun k hstart hend hk => ?_⟩
    have hk' := h.lt _ hk
    dsimp only at hend
    by_cases hperiod : k < period
    · rw [Nat.mod_eq_of_lt hperiod] at hk
      have hbetween := le_or_le_of_mem_zip h.sorted_concat hpair (hmem k hk)
      omega
    · -- the window has passed the period, so the gap ends at the first position
      have hq := (List.of_mem_zip hpair).2
      rcases List.mem_append.mp hq with hq | hq
      · have := h.lt q (List.mem_cons_of_mem first hq)
        omega
      · rw [List.mem_singleton.mp hq] at hend hpair
        have hfirst := h.lt first List.mem_cons_self
        have hmod : k % period = k - period := by
          rw [Nat.mod_eq_sub_mod (not_lt.mp hperiod), Nat.mod_eq_of_lt (by omega)]
        rw [hmod] at hk
        rcases List.mem_cons.mp hk with heq | hrest
        · omega
        · have := (List.pairwise_cons.mp h.sorted).1 _ hrest
          omega

end InPeriod

end Lib
