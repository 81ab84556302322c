import Mathlib.Order.Lattice

/-!
# Narrowing

Bounds that may be absent.  An absent bound restricts nothing, so of two optional
bounds the tighter one is the smaller of those that are present.  Combining layers
of bounds one after the other gives a result below every layer, for any order in
which "below" is reflexive and transitive.
-/

namespace Lib

variable {α : Type}

/-! ## Optional bounds -/

/-- The tighter of two optional bounds. -/
def minOption [LinearOrder α] : Option α → Option α → Option α
  | some a, some b => some (min a b)
  | some a, none => some a
  | none, some b => some b
  | none, none => none

/-- Whatever `outer` bounds, `inner` bounds at least as tightly. -/
def Restricts (below : α → α → Prop) (inner outer : Option α) : Prop :=
  ∀ b ∈ outer, ∃ a ∈ inner, below a b

namespace Restricts

variable {below : α → α → Prop} {a b c : Option α}

theorem refl (hrefl : ∀ x, below x x) (a : Option α) : Restricts below a a :=
  fun x hx => ⟨x, hx, hrefl x⟩

theorem trans (htrans : ∀ {x y z}, below x y → below y z → below x z)
    (hab : Restricts below a b) (hbc : Restricts below b c) : Restricts below a c := by
  intro z hz
  obtain ⟨y, hy, hyz⟩ := hbc z hz
  obtain ⟨x, hx, hxy⟩ := hab y hy
  exact ⟨x, hx, htrans hxy hyz⟩

theorem antisymm (hantisymm : ∀ {x y}, below x y → below y x → x = y)
    (hab : Restricts below a b) (hba : Restricts below b a) : a = b := by
  cases a with
  | none =>
    cases b with
    | none => rfl
    | some y =>
      obtain ⟨x, hx, _⟩ := hab y rfl
      cases hx
  | some x =>
    cases b with
    | none =>
      obtain ⟨y, hy, _⟩ := hba x rfl
      cases hy
    | some y =>
      obtain ⟨x', hx, hxy⟩ := hab y rfl
      obtain ⟨y', hy, hyx⟩ := hba x rfl
      cases hx
      cases hy
      rw [hantisymm hxy hyx]

end Restricts

section MinOption

variable [LinearOrder α]

theorem restricts_minOption_left (a b : Option α) : Restricts (· ≤ ·) (minOption a b) a := by
  intro x hx
  cases Option.mem_def.mp hx
  cases b with
  | none => exact ⟨x, rfl, le_refl x⟩
  | some y => exact ⟨min x y, rfl, min_le_left x y⟩

theorem restricts_minOption_right (a b : Option α) : Restricts (· ≤ ·) (minOption a b) b := by
  intro y hy
  cases Option.mem_def.mp hy
  cases a with
  | none => exact ⟨y, rfl, le_refl y⟩
  | some x => exact ⟨min x y, rfl, min_le_right x y⟩

/-- Of two bounds the tighter one is the loosest that restricts both. -/
theorem restricts_minOption {a b c : Option α} (ha : Restricts (· ≤ ·) c a)
    (hb : Restricts (· ≤ ·) c b) : Restricts (· ≤ ·) c (minOption a b) := by
  cases a with
  | none =>
    cases b with
    | none => exact ha
    | some y => exact hb
  | some x =>
    cases b with
    | none => exact ha
    | some y =>
      intro z hz
      cases Option.mem_def.mp hz
      obtain ⟨w, hw, hwx⟩ := ha x rfl
      obtain ⟨w', hw', hwy⟩ := hb y rfl
      cases hw.symm.trans hw'
      exact ⟨w, hw, le_min hwx hwy⟩

theorem isSome_minOption (a b : Option α) :
    (minOption a b).isSome = true ↔ a.isSome = true ∨ b.isSome = true := by
  cases a <;> cases b <;> simp [minOption]

end MinOption

/-! ## Layers -/

section Layers

variable {below : α → α → Prop} {combine : α → α → α}
  (hrefl : ∀ x, below x x) (htrans : ∀ {x y z}, below x y → below y z → below x z)
  (hleft : ∀ x y, below (combine x y) x)

include hrefl htrans hleft

theorem foldl_below_init (layers : List α) (init : α) :
    below (layers.foldl combine init) init := by
  induction layers generalizing init with
  | nil => exact hrefl init
  | cons next rest ih => exact htrans (ih (combine init next)) (hleft init next)

theorem foldl_below (hright : ∀ x y, below (combine x y) y) {layers : List α} {init layer : α}
    (h : layer ∈ layers) : below (layers.foldl combine init) layer := by
  induction layers generalizing init with
  | nil => exact absurd h List.not_mem_nil
  | cons next rest ih =>
    rcases List.mem_cons.mp h with rfl | hrest
    · exact htrans (foldl_below_init hrefl htrans hleft rest _) (hright init layer)
    · exact ih hrest

end Layers

theorem below_foldl {below : α → α → Prop} {combine : α → α → α}
    (hcombine : ∀ {x y z}, below z x → below z y → below z (combine x y)) {layers : List α}
    {init z : α} (hinit : below z init) (h : ∀ layer ∈ layers, below z layer) :
    below z (layers.foldl combine init) := by
  induction layers generalizing init with
  | nil => exact hinit
  | cons next rest ih =>
    apply ih
    · exact hcombine hinit (h next List.mem_cons_self)
    · intro layer hlayer
      exact h layer (List.mem_cons_of_mem next hlayer)

/-- A property that a combination has exactly when both parts have it. -/
theorem foldl_combine_iff (P : α → Prop) {combine : α → α → α}
    (hcombine : ∀ x y, P (combine x y) ↔ P x ∧ P y) (layers : List α) (init : α) :
    P (layers.foldl combine init) ↔ P init ∧ ∀ layer ∈ layers, P layer := by
  induction layers generalizing init with
  | nil => simp
  | cons next rest ih =>
    rw [List.foldl_cons, ih, hcombine, List.forall_mem_cons, and_assoc]

end Lib
