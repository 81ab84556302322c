import Mathlib.Data.List.Nodup
import Mathlib.Tactic.Common

/-!
# Early-return computations

The modelled code is written as chains of guards that return at the first
failure.  Such a chain is a `do` block in `Except`; a guard is `reject`, an
absent value is `okOr`.  The lemmas of this module invert a successful chain:
each takes one guard apart, so a proof never unfolds the monad.
-/

namespace Lib

/-- Fail with `error` when `bad` holds: `if bad { return Err(error) }`. -/
def reject {ε : Type} (bad : Prop) [Decidable bad] (error : ε) : Except ε Unit :=
  if bad then .error error else .ok ()

/-- The value of an optional result, or `error` when it is absent. -/
def okOr {ε α : Type} (value : Option α) (error : ε) : Except ε α :=
  match value with
  | some a => .ok a
  | none => .error error

/-- Continue with the value of a result and the fact that it is its value. -/
def attach {ε α β : Type} (x : Except ε α) (next : (a : α) → x = .ok a → Except ε β) :
    Except ε β :=
  match x, next with
  | .error error, _ => .error error
  | .ok a, next => next a rfl

section Inversion

variable {ε δ α β : Type}

variable {xs : List α} {x : Except ε α} {R : α → β → Prop} {ys : List β} {e : ε} {a : α}
  {f : α → Except ε β}

variable {error : ε} {next : (a : α) → x = .ok a → Except ε β}

theorem attach_eq_ok {b : β} : attach x next = .ok b ↔ ∃ a, ∃ h : x = .ok a, next a h = .ok b := by
  cases x <;> simp [attach]

theorem exists_attach_eq_ok :
    (∃ b, attach x next = .ok b) ↔ ∃ a, ∃ h : x = .ok a, ∃ b, next a h = .ok b := by
  cases x <;> simp [attach]

theorem attach_eq_error : attach x next = .error e ↔ x = .error e ∨ ∃ a h, next a h = .error e := by
  unfold attach
  split <;> simp_all

@[simp] theorem reject_eq_ok {bad : Prop} [Decidable bad] {u : Unit} :
    reject bad error = .ok u ↔ ¬ bad := by
  unfold reject
  split <;> simp_all

@[simp] theorem reject_eq_error {bad : Prop} [Decidable bad] :
    reject bad error = .error e ↔ bad ∧ error = e := by
  unfold reject
  split <;> simp_all

@[simp] theorem okOr_eq_ok {value : Option α} : okOr value error = .ok a ↔ value = some a := by
  cases value <;> simp [okOr]

@[simp] theorem okOr_eq_error {value : Option α} :
    okOr value error = .error e ↔ value = none ∧ error = e := by
  cases value <;> simp [okOr]

theorem bind_eq_ok {b : β} :
    (x >>= f) = .ok b ↔ ∃ a, x = .ok a ∧ f a = .ok b := by
  cases x with
  | error e => simp [bind, Except.bind]
  | ok a => simp [bind, Except.bind]

theorem pure_eq_ok {b : α} : (pure a : Except ε α) = .ok b ↔ a = b := by
  simp [pure, Except.pure]

theorem bind_eq_error :
    (x >>= f) = .error e ↔ x = .error e ∨ ∃ a, x = .ok a ∧ f a = .error e := by
  cases x with
  | error e => simp [bind, Except.bind]
  | ok a => simp [bind, Except.bind]

@[simp] theorem mapError_eq_ok {f : ε → δ} :
    x.mapError f = .ok a ↔ x = .ok a := by
  cases x <;> simp [Except.mapError]

theorem forM_eq_ok {check : α → Except ε Unit} {u : Unit} :
    forM xs check = .ok u ↔ ∀ x ∈ xs, check x = .ok () := by
  induction xs with
  | nil => simp [pure, Except.pure]
  | cons x xs ih =>
    rw [List.forM_cons, bind_eq_ok, List.forall_mem_cons, ← ih]
    exact ⟨fun ⟨_, h⟩ => h, fun h => ⟨(), h⟩⟩

theorem exists_of_forM_eq_error {check : α → Except ε Unit}
    (h : forM xs check = .error e) : ∃ x ∈ xs, check x = .error e := by
  induction xs with
  | nil => simp [pure, Except.pure] at h
  | cons x xs ih =>
    rw [List.forM_cons, bind_eq_error] at h
    rcases h with h | ⟨_, _, h⟩
    · exact ⟨x, by simp, h⟩
    · obtain ⟨y, hy, hcheck⟩ := ih h
      exact ⟨y, by simp [hy], hcheck⟩

theorem exists_of_forall₂_left
    (h : List.Forall₂ R xs ys) {x : α} (hx : x ∈ xs) : ∃ y ∈ ys, R x y := by
  induction h with
  | nil => cases hx
  | cons hhead _ ih =>
    rcases List.mem_cons.mp hx with rfl | hx
    · exact ⟨_, by simp, hhead⟩
    · obtain ⟨y, hy, hrel⟩ := ih hx
      exact ⟨y, by simp [hy], hrel⟩

theorem exists_of_forall₂_right
    (h : List.Forall₂ R xs ys) {y : β} (hy : y ∈ ys) : ∃ x ∈ xs, R x y :=
  exists_of_forall₂_left h.flip hy

theorem exists_forall₂ (h : ∀ x ∈ xs, ∃ y, R x y) :
    ∃ ys, List.Forall₂ R xs ys := by
  induction xs with
  | nil => exact ⟨[], .nil⟩
  | cons x xs ih =>
    obtain ⟨y, hy⟩ := h x List.mem_cons_self
    obtain ⟨ys, hys⟩ := ih (fun x' hx' => h x' (List.mem_cons_of_mem x hx'))
    exact ⟨y :: ys, .cons hy hys⟩

theorem exists_append_of_forall₂ {ys : List α} {zs : List β} (h : List.Forall₂ R (xs ++ ys) zs) :
    ∃ as bs, zs = as ++ bs ∧ List.Forall₂ R xs as ∧ List.Forall₂ R ys bs := by
  induction xs generalizing zs with
  | nil => exact ⟨[], zs, rfl, .nil, h⟩
  | cons x xs ih =>
    cases h with
    | cons hx hrest =>
      obtain ⟨as, bs, rfl, has, hbs⟩ := ih hrest
      exact ⟨_ :: as, bs, rfl, .cons hx has, hbs⟩

/-- A part that every item on the right has keeps the lists related. -/
theorem forall₂_filterMap {γ : Type} {S : α → γ → Prop} {f : β → Option γ} (h : List.Forall₂ R xs ys)
    (hstep : ∀ x ∈ xs, ∀ y ∈ ys, R x y → ∃ z, f y = some z ∧ S x z) :
    List.Forall₂ S xs (ys.filterMap f) := by
  induction h with
  | nil => exact .nil
  | cons hxy _ ih =>
    obtain ⟨z, hz, hS⟩ := hstep _ List.mem_cons_self _ List.mem_cons_self hxy
    rw [List.filterMap_cons, hz]
    refine .cons hS (ih fun x hx y hy => ?_)
    exact hstep x (List.mem_cons_of_mem _ hx) y (List.mem_cons_of_mem _ hy)

theorem map_eq_map_of_forall₂ {γ : Type} {f : α → γ} {g : β → γ} (h : List.Forall₂ R xs ys)
    (hfields : ∀ x ∈ xs, ∀ y, R x y → f x = g y) : xs.map f = ys.map g := by
  induction h with
  | nil => rfl
  | @cons x y xs ys hhead _ ih =>
    rw [List.map_cons, List.map_cons, hfields x (by simp) y hhead,
      ih (fun x' hx' => hfields x' (List.mem_cons_of_mem x hx'))]

/-- Mapping a fallible function over a list succeeds when it succeeds on every item. -/
theorem mapM_eq_ok :
    xs.mapM f = .ok ys ↔ List.Forall₂ (fun x y => f x = .ok y) xs ys := by
  induction xs generalizing ys with
  | nil => cases ys <;> simp [pure, Except.pure]
  | cons x xs ih =>
    rw [List.mapM_cons, bind_eq_ok, List.forall₂_cons_left_iff]
    constructor
    · intro ⟨y, hy, hrest⟩
      rw [bind_eq_ok] at hrest
      obtain ⟨rest, hmap, hreturn⟩ := hrest
      cases hreturn
      exact ⟨y, rest, hy, ih.mp hmap, rfl⟩
    · intro ⟨y, rest, hy, hmap, heq⟩
      exact ⟨y, hy, bind_eq_ok.mpr ⟨rest, ih.mpr hmap, by rw [heq]; rfl⟩⟩

theorem mapM_eq_some_map {f : α → Option β} {g : α → β}
    (h : ∀ x ∈ xs, f x = some (g x)) : xs.mapM f = some (xs.map g) := by
  induction xs with
  | nil => rfl
  | cons x xs ih =>
    have hhead := h x List.mem_cons_self
    have htail := ih fun y hy => h y (List.mem_cons_of_mem x hy)
    rw [List.mapM_cons, hhead, htail]
    rfl

theorem mapM_eq_some_self {f : α → Option α} (h : ∀ x ∈ xs, f x = some x) :
    xs.mapM f = some xs := by
  rw [mapM_eq_some_map h, List.map_id']

/-- A map succeeds exactly when it does at every item, and then gives the results in order. -/
theorem mapM_eq_some_iff {f : α → Option β} :
    xs.mapM f = some ys ↔ (∀ x ∈ xs, ∃ y, f x = some y) ∧ ys = xs.filterMap f := by
  induction xs generalizing ys with
  | nil => simp [eq_comm]
  | cons x xs ih =>
    rw [List.mapM_cons, List.forall_mem_cons]
    cases hx : f x with
    | none => simp
    | some y =>
      simp only [Option.bind_eq_bind, Option.bind_some, Option.bind_eq_some_iff, ih, pure,
        Option.some.injEq, List.filterMap_cons_some hx, exists_eq', true_and, and_assoc,
        exists_and_left, exists_eq_left]
      exact and_congr_right fun _ => eq_comm

theorem toOption_eq_some : x.toOption = some a ↔ x = .ok a := by
  cases x <;> simp [Except.toOption]

@[simp] theorem ok_bind (a : α) (f : α → Except ε β) : (Except.ok a >>= f) = f a := rfl

@[simp] theorem error_bind (e : ε) (f : α → Except ε β) :
    ((Except.error e : Except ε α) >>= f) = .error e := rfl

end Inversion

/-! ## Collecting loops -/

section Collect

variable {ε α β : Type}

/-- Collect the items of a list one by one, each admitted against those before it. -/
def collect (accept : List α → α → Except ε Unit) : List α → List α → Except ε (List α)
  | seen, [] => .ok seen
  | seen, x :: xs => do
    accept seen x
    collect accept (seen ++ [x]) xs

variable {accept : List α → α → Except ε Unit}

variable {xs seen out : List α}

/-- A loop whose turns decide a prefix-closed property of what was collected so far
collects a list exactly when the whole list has the property. -/
theorem collect_eq_ok_iff (Inv : List α → Prop)
    (hpre : ∀ {seen rest}, Inv (seen ++ rest) → Inv seen)
    (haccept : ∀ {seen x u}, Inv seen → (accept seen x = .ok u ↔ Inv (seen ++ [x]))) (hseen : Inv seen) :
    collect accept seen xs = .ok out ↔ out = seen ++ xs ∧ Inv (seen ++ xs) := by
  induction xs generalizing seen with
  | nil =>
    rw [collect, Except.ok.injEq, List.append_nil]
    exact ⟨fun h => ⟨h.symm, hseen⟩, fun h => h.1.symm⟩
  | cons x xs ih =>
    have hassoc : seen ++ x :: xs = seen ++ [x] ++ xs := by simp
    rw [collect, bind_eq_ok, hassoc]
    constructor
    · rintro ⟨_, hx, hrest⟩
      exact (ih ((haccept hseen).mp hx)).mp hrest
    · rintro ⟨hout, hinv⟩
      have hx : Inv (seen ++ [x]) := hpre hinv
      exact ⟨(), (haccept hseen).mpr hx, (ih hx).mpr ⟨hout, hinv⟩⟩

/-- What every turn of a loop preserves holds of everything it collected. -/
theorem collect_induct (Inv : List α → Prop) (hnil : Inv [])
    (hstep : ∀ {seen x}, Inv seen → accept seen x = .ok () → Inv (seen ++ [x])) (h : collect accept [] xs = .ok out) : out = xs ∧ Inv xs := by
  have hgeneral : ∀ (rest : List α) {seen out : List α}, Inv seen →
      collect accept seen rest = .ok out → out = seen ++ rest ∧ Inv (seen ++ rest) := by
    intro rest
    induction rest with
    | nil =>
      intro seen out hseen hout
      cases hout
      rw [List.append_nil]
      exact ⟨rfl, hseen⟩
    | cons x rest ih =>
      intro seen out hseen hout
      rw [collect, bind_eq_ok] at hout
      obtain ⟨_, hx, hrest⟩ := hout
      have hassoc : seen ++ x :: rest = seen ++ [x] ++ rest := by simp
      rw [hassoc]
      exact ih (hstep hseen hx) hrest
  exact hgeneral xs hnil h

/-- A failing loop fails on some item, against those before it. -/
theorem exists_of_collect_eq_error {e : ε} (h : collect accept seen xs = .error e) :
    ∃ before x after, xs = before ++ x :: after ∧ accept (seen ++ before) x = .error e := by
  induction xs generalizing seen with
  | nil => cases h
  | cons x xs ih =>
    rw [collect, bind_eq_error] at h
    rcases h with hx | ⟨_, _, hrest⟩
    · exact ⟨[], x, xs, rfl, by rw [List.append_nil]; exact hx⟩
    · obtain ⟨before, y, after, hxs, hy⟩ := ih hrest
      refine ⟨x :: before, y, after, by rw [hxs]; rfl, ?_⟩
      rw [List.append_assoc] at hy
      exact hy

theorem nodup_map_append_singleton {key : α → β} {x : α} :
    ((seen ++ [x]).map key).Nodup ↔ (seen.map key).Nodup ∧ key x ∉ seen.map key := by
  rw [List.map_append, List.map_singleton, List.nodup_append_comm, List.singleton_append,
    List.nodup_cons, and_comm]

/-- A loop that admits an item below a bound and under a fresh key collects a list exactly
when the list is short enough and its keys are distinct. -/
theorem collect_eq_ok {key : α → β} {max : Nat}
    (haccept : ∀ {seen x u}, accept seen x = .ok u ↔ seen.length ≠ max ∧ key x ∉ seen.map key) :
    collect accept [] xs = .ok out ↔ out = xs ∧ xs.length ≤ max ∧ (xs.map key).Nodup := by
  refine collect_eq_ok_iff (fun seen => seen.length ≤ max ∧ (seen.map key).Nodup)
    (fun {seen rest} h => ?_) (fun {seen x _} h => ?_) (by simp)
  · rw [List.length_append, List.map_append] at h
    exact ⟨by omega, h.2.of_append_left⟩
  · rw [haccept, nodup_map_append_singleton, List.length_append, List.length_singleton]
    constructor
    · exact fun ⟨hlength, hkey⟩ => ⟨by omega, h.2, hkey⟩
    · exact fun ⟨hlength, _, hkey⟩ => ⟨by omega, hkey⟩

end Collect

end Lib
