import Mathlib.Data.List.Basic
import Mathlib.Tactic.Common

/-!
# Listings in pages

A listing is read page by page: a call without a cursor returns the first page, and every
page but the last comes with the cursor of the next one.  `Walk` is a reader that follows
the cursors to the end.  Where a cursor stands for the position of the next entry and pages
are not empty, the reader gets every entry once and in order.
-/

namespace Lib

variable {α κ ε : Type}

/-- Following the cursors from `cursor` ends, and these are the pages. -/
inductive Walk (page : Option κ → Except ε (List α × Option κ)) :
    Option κ → List (List α) → Prop where
  | last {cursor entries} (h : page cursor = .ok (entries, none)) : Walk page cursor [entries]
  | next {cursor entries following pages} (h : page cursor = .ok (entries, some following))
      (rest : Walk page (some following) pages) : Walk page cursor (entries :: pages)

variable {page : Option κ → Except ε (List α × Option κ)}

/-- A reader has no choice. -/
theorem Walk.unique {cursor : Option κ} {pages pages' : List (List α)}
    (h : Walk page cursor pages) (h' : Walk page cursor pages') : pages = pages' := by
  induction h generalizing pages' with
  | last hpage =>
    cases h' with
    | last hpage' =>
      rw [hpage, Except.ok.injEq, Prod.mk.injEq] at hpage'
      rw [hpage'.1]
    | next hpage' _ =>
      rw [hpage, Except.ok.injEq, Prod.mk.injEq] at hpage'
      cases hpage'.2
  | next hpage _ ih =>
    cases h' with
    | last hpage' =>
      rw [hpage, Except.ok.injEq, Prod.mk.injEq] at hpage'
      cases hpage'.2
    | next hpage' rest' =>
      rw [hpage, Except.ok.injEq, Prod.mk.injEq, Option.some.injEq] at hpage'
      obtain ⟨rfl, rfl⟩ := hpage'
      rw [ih rest']

/-- The page of `size` entries at a position, with the cursor of the next page. -/
def pageAt (print : Nat → κ) (items : List α) (size start : Nat) : List α × Option κ :=
  ((items.drop start).take size,
    if start + size < items.length then some (print (start + size)) else none)

/-- From a position on, a reader gets the entries behind it. -/
theorem exists_walk {print : Nat → κ} {items : List α} {size : Nat} (hsize : 0 < size)
    (hpage : ∀ start ≤ items.length,
      page (some (print start)) = .ok (pageAt print items size start))
    {cursor : Option κ} {start : Nat} (hstart : page cursor = .ok (pageAt print items size start)) :
    ∃ pages, Walk page cursor pages ∧ pages.flatten = items.drop start := by
  -- the entries behind the position become fewer with every page
  induction hleft : items.length - start using Nat.strongRecOn generalizing cursor start with
  | ind left ih =>
    by_cases hmore : start + size < items.length
    · rw [pageAt, if_pos hmore] at hstart
      obtain ⟨pages, hwalk, hpages⟩ := ih (items.length - (start + size)) (by omega)
        (hpage (start + size) (Nat.le_of_lt hmore)) rfl
      refine ⟨_, .next hstart hwalk, ?_⟩
      rw [List.flatten_cons, hpages, ← List.drop_drop, List.take_append_drop]
    · rw [pageAt, if_neg hmore] at hstart
      refine ⟨_, .last hstart, ?_⟩
      rw [List.flatten_singleton, List.take_of_length_le]
      rw [List.length_drop]
      omega

end Lib
