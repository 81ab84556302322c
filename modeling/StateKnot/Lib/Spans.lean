import Mathlib.Data.List.Chain
import Mathlib.Tactic.Common

/-!
# Spans of a history

Some entries of a history open a span, which lasts until the next opening entry or
the end.  The lemmas say how spans lie to each other and what follows for their
last entries from a fact about adjacent entries.
-/

namespace Lib

variable {α : Type}

/-- The entries from `first` to `last` are a span: the first one opens it, no other one
opens, and what follows, if anything, opens the next span. -/
structure Span (opens : α → Prop) (xs : List α) (first last : Nat) : Prop where
  first_le : first ≤ last
  last_lt : last < xs.length
  opened : ∃ x, xs[first]? = some x ∧ opens x
  unbroken : ∀ k x, first < k → k ≤ last → xs[k]? = some x → ¬ opens x
  closed : ∀ x, xs[last + 1]? = some x → opens x

namespace Span

variable {opens : α → Prop} {xs : List α} {first last first' last' : Nat}

theorem last_lt_of_first_lt (h : Span opens xs first last) (h' : Span opens xs first' last')
    (hlt : first < first') : last < first' := by
  obtain ⟨x, hx, hopens⟩ := h'.opened
  by_contra hle
  exact h.unbroken first' x hlt (by omega) hx hopens

/-- When no entry right before an opening one has `P`, at most one span ends in `P`. -/
theorem first_eq_of_ends {P : α → Prop}
    (hbefore : ∀ k x y, xs[k]? = some x → xs[k + 1]? = some y → opens y → ¬ P x)
    (h : Span opens xs first last) (h' : Span opens xs first' last')
    (hends : ∀ x, xs[last]? = some x → P x) (hends' : ∀ x, xs[last']? = some x → P x) :
    first = first' := by
  have key : ∀ {first last first' last' : Nat}, Span opens xs first last →
      Span opens xs first' last' → (∀ x, xs[last]? = some x → P x) → ¬ first < first' := by
    intro first last first' last' h h' hends hlt
    have hlast := h.last_lt_of_first_lt h' hlt
    have hnext : last + 1 < xs.length := by
      have hfirst := h'.first_le
      have hlength := h'.last_lt
      omega
    have hx : xs[last]? = some (xs.get ⟨last, h.last_lt⟩) := List.getElem?_eq_getElem h.last_lt
    have hy : xs[last + 1]? = some (xs.get ⟨last + 1, hnext⟩) := List.getElem?_eq_getElem hnext
    exact hbefore last _ _ hx hy (h.closed _ hy) (hends _ hx)
  have hnotlt := key h h' hends
  have hnotgt := key h' h hends'
  omega

end Span

variable {xs : List α} {R : α → α → Prop}

theorem rel_of_isChain (h : xs.IsChain R) {k : Nat} {x y : α}
    (hx : xs[k]? = some x) (hy : xs[k + 1]? = some y) : R x y := by
  obtain ⟨hk, rfl⟩ := List.getElem?_eq_some_iff.mp hy
  obtain ⟨_, rfl⟩ := List.getElem?_eq_some_iff.mp hx
  exact List.isChain_iff_getElem.mp h k hk

theorem pairwise_of_isChain {R S : α → α → Prop} (h : xs.IsChain R)
    (hstep : ∀ x y, R x y → S x y) (htrans : ∀ {x y z}, S x y → S y z → S x z) :
    xs.Pairwise S := by
  have : IsTrans α S := ⟨fun _ _ _ => htrans⟩
  exact List.isChain_iff_pairwise.mp (h.imp hstep)

/-- Along a chain a field that stays as it is is the same everywhere. -/
theorem field_eq_of_isChain {β : Type} (h : xs.IsChain R)
    {field : α → β} (hstep : ∀ x y, R x y → field y = field x) :
    ∀ x ∈ xs, ∀ y ∈ xs, field x = field y := by
  cases xs with
  | nil => simp
  | cons first xs =>
    have hpairwise : (first :: xs).Pairwise (fun x y => field x = field y) :=
      pairwise_of_isChain h (fun x y hxy => (hstep x y hxy).symm) Eq.trans
    have hfirst : ∀ x ∈ first :: xs, field x = field first := by
      intro x hx
      rcases List.mem_cons.mp hx with rfl | hx
      · rfl
      · exact ((List.pairwise_cons.mp hpairwise).1 x hx).symm
    intro x hx y hy
    rw [hfirst x hx, hfirst y hy]

/-- Along a chain a field that grows by one counts the entries. -/
theorem map_eq_range_of_isChain (h : xs.IsChain R)
    {field : α → Nat} (hstep : ∀ x y, R x y → field y = field x + 1)
    (hfirst : ∀ x ∈ xs.head?, field x = 0) : xs.map field = List.range xs.length := by
  apply List.ext_getElem?
  intro k
  rw [List.getElem?_map]
  induction k with
  | zero =>
    cases xs with
    | nil => rfl
    | cons x xs => simp [hfirst x rfl]
  | succ k ih =>
    by_cases hk : k + 1 < xs.length
    · have hx : xs[k]? = some (xs.get ⟨k, by omega⟩) := List.getElem?_eq_getElem (by omega)
      have hy : xs[k + 1]? = some (xs.get ⟨k + 1, hk⟩) := List.getElem?_eq_getElem hk
      have hk' : k < xs.length := by omega
      rw [hx, List.getElem?_range hk', Option.map_some, Option.some.injEq] at ih
      rw [hy, List.getElem?_range hk, Option.map_some, Option.some.injEq,
        hstep _ _ (rel_of_isChain h hx hy), ih]
    · rw [List.getElem?_eq_none (by omega), List.getElem?_eq_none (by simp; omega)]
      rfl

end Lib
