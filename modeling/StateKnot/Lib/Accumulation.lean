import StateKnot.Lib.Result

/-!
# Checked accumulation

An operation that adds two values or fails is folded over a list.  Where a relation
says exactly what the total of a list is, in terms that ignore order and grouping,
every way to put the list together has the same outcome: the total, or a failure
when there is none.
-/

namespace Lib

variable {α ε : Type}

/-- A way to put items together. -/
inductive Grouping (α : Type) where
  | nothing
  | one (item : α)
  | join (left right : Grouping α)

namespace Grouping

def items : Grouping α → List α
  | .nothing => []
  | .one item => [item]
  | .join left right => left.items ++ right.items

def accumulate (add : α → α → Except ε α) (zero : α) : Grouping α → Except ε α
  | .nothing => .ok zero
  | .one item => .ok item
  | .join left right => do
    let leftTotal ← left.accumulate add zero
    let rightTotal ← right.accumulate add zero
    add leftTotal rightTotal

end Grouping

/-- The relation says what the operation computes: lists with a total are closed under taking
parts, and adding the totals of two parts gives the total of the whole or fails without one. -/
structure ExactTotals (add : α → α → Except ε α) (zero : α) (Total : List α → α → Prop) :
    Prop where
  nil : ∀ {total}, Total [] total ↔ total = zero
  single : ∀ {item total}, Total [item] total ↔ total = item
  append : ∀ {xs ys x y total}, Total xs x → Total ys y →
    (add x y = .ok total ↔ Total (xs ++ ys) total)
  parts : ∀ {xs ys total}, Total (xs ++ ys) total → (∃ x, Total xs x) ∧ ∃ y, Total ys y

namespace ExactTotals

variable {add : α → α → Except ε α} {zero : α} {Total : List α → α → Prop}

variable (h : ExactTotals add zero Total)

include h

/-- A list has one total: adding the empty total to it gives every total. -/
theorem unique {items : List α} {total total' : α}
    (htotal : Total items total) (htotal' : Total items total') : total = total' := by
  have hzero : ∀ {value}, add total zero = .ok value ↔ Total items value := by
    intro value
    rw [h.append htotal (h.nil.mpr rfl), List.append_nil]
  exact Except.ok.inj ((hzero.mpr htotal).symm.trans (hzero.mpr htotal'))

theorem zero_cons {items : List α} {total : α} :
    Total (zero :: items) total ↔ Total items total := by
  constructor
  · intro htotal
    obtain ⟨_, rest, hrest⟩ : (∃ x, Total [zero] x) ∧ ∃ y, Total items y := h.parts htotal
    have hadd := (h.append (h.single.mpr rfl) hrest).mpr htotal
    exact (h.append (h.nil.mpr rfl) hrest).mp hadd
  · intro htotal
    have hadd := (h.append (h.nil.mpr rfl) htotal).mpr htotal
    exact (h.append (h.single.mpr rfl) htotal).mp hadd

/-- Every grouping of the items has their total. -/
theorem accumulate_eq_ok {grouping : Grouping α} {total : α} :
    grouping.accumulate add zero = .ok total ↔ Total grouping.items total := by
  induction grouping generalizing total with
  | nothing =>
    rw [Grouping.accumulate, Grouping.items, h.nil, Except.ok.injEq, eq_comm]
  | one item =>
    rw [Grouping.accumulate, Grouping.items, h.single, Except.ok.injEq, eq_comm]
  | join left right ihl ihr =>
    simp only [Grouping.accumulate, Grouping.items, bind_eq_ok, ihl, ihr]
    constructor
    · rintro ⟨leftTotal, hleft, rightTotal, hright, hadd⟩
      exact (h.append hleft hright).mp hadd
    · intro htotal
      obtain ⟨⟨leftTotal, hleft⟩, rightTotal, hright⟩ := h.parts htotal
      exact ⟨leftTotal, hleft, rightTotal, hright, (h.append hleft hright).mpr htotal⟩

/-- Folding from a total adds the items to it. -/
theorem foldlM_from_eq_ok {seen items : List α} {start total : α} (hstart : Total seen start) :
    items.foldlM add start = .ok total ↔ Total (seen ++ items) total := by
  induction items generalizing seen start with
  | nil =>
    rw [List.foldlM_nil, List.append_nil]
    constructor
    · intro hreturn
      cases hreturn
      exact hstart
    · intro htotal
      rw [h.unique hstart htotal]
      rfl
  | cons item items ih =>
    rw [List.foldlM_cons, bind_eq_ok]
    constructor
    · rintro ⟨middle, hmiddle, hrest⟩
      have htotal := (ih ((h.append hstart (h.single.mpr rfl)).mp hmiddle)).mp hrest
      rwa [List.append_assoc] at htotal
    · intro htotal
      rw [← List.singleton_append, ← List.append_assoc] at htotal
      obtain ⟨⟨middle, hmiddle⟩, _⟩ := h.parts htotal
      exact ⟨middle, (h.append hstart (h.single.mpr rfl)).mpr hmiddle, (ih hmiddle).mpr htotal⟩

theorem foldlM_eq_ok {items : List α} {total : α} :
    items.foldlM add zero = .ok total ↔ Total items total :=
  h.foldlM_from_eq_ok (h.nil.mpr rfl)

end ExactTotals

end Lib
