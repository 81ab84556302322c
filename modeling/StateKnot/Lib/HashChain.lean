import Mathlib.Data.List.Forall2

/-!
# Hash-linked sequences

A record of a hash chain carries the digest of its predecessor.  When a digest
determines its record up to a relation `Same` that fixes the predecessor digest,
the digest of the newest record determines the whole chain, record by record.

Chains are listed newest first, so that the argument is an induction from the
shared tip towards the root.
-/

namespace Lib

variable {ρ δ : Type}

/-- The records, newest first, are linked down to a root without predecessor. -/
def LinkedToRoot (digest : ρ → δ) (previous : ρ → Option δ) : List ρ → Prop
  | [] => True
  | record :: older =>
    previous record = older.head?.map digest ∧ LinkedToRoot digest previous older

/-- Two chains of valid records with one tip digest agree record by record. -/
theorem LinkedToRoot.forall₂_of_tip_eq {digest : ρ → δ} {previous : ρ → Option δ}
    {Valid : ρ → Prop} {Same : ρ → ρ → Prop}
    (hdigest : ∀ {a b}, Valid a → Valid b → digest a = digest b → Same a b)
    (hprevious : ∀ {a b}, Same a b → previous a = previous b)
    {xs ys : List ρ} (hxs : LinkedToRoot digest previous xs)
    (hys : LinkedToRoot digest previous ys)
    (hvalidx : ∀ a ∈ xs, Valid a) (hvalidy : ∀ a ∈ ys, Valid a)
    (htip : xs.head?.map digest = ys.head?.map digest) : List.Forall₂ Same xs ys := by
  induction xs generalizing ys with
  | nil =>
    cases ys with
    | nil => exact .nil
    | cons b ys => simp at htip
  | cons a xs ih =>
    cases ys with
    | nil => simp at htip
    | cons b ys =>
      have hsame : Same a b :=
        hdigest (hvalidx a (by simp)) (hvalidy b (by simp)) (by simpa using htip)
      refine .cons hsame (ih hxs.2 hys.2 ?_ ?_ ?_)
      · exact fun c hc => hvalidx c (by simp [hc])
      · exact fun c hc => hvalidy c (by simp [hc])
      · rw [← hxs.1, ← hys.1, hprevious hsame]

end Lib
