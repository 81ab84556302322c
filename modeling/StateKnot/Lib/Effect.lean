import Mathlib.Tactic.Common

/-!
# Computations with a state that may fail

Code that writes to an object as it goes leaves the object changed also when it returns
an error.  Such code is a `do` block in `Effect`.  The rules of this module prove what a
block guarantees, step by step: `Triple P x Q R` says that `x`, started in a state with
`P`, returns a value and a state with `Q`, or an error and a state with `R`.

A loop runs with a bound on its turns.  `triple_loop` takes an invariant and a measure that
every turn decreases; the bound is then never reached.
-/

namespace Lib

variable {σ ε α β γ : Type}

/-- Computations that change a state and may fail; a failure keeps the changes. -/
abbrev Effect (σ ε α : Type) : Type := ExceptT ε (StateM σ) α

def Effect.exec (x : Effect σ ε α) (s : σ) : Except ε α × σ := StateT.run (ExceptT.run x) s

/-- `if c { x }` -/
def when (c : Prop) [Decidable c] (x : Effect σ ε Unit) : Effect σ ε Unit :=
  if c then x else pure ()

/-- Started with `P`, the computation ends with `Q` or fails with `R`. -/
def Triple (P : σ → Prop) (x : Effect σ ε α) (Q : α → σ → Prop) (R : ε → σ → Prop) : Prop :=
  ∀ s, P s → match x.exec s with
    | (.ok a, s') => Q a s'
    | (.error e, s') => R e s'

section Rules

variable {P P' : σ → Prop} {Q Q' : α → σ → Prop} {R : ε → σ → Prop}

variable {x : Effect σ ε α}

theorem Triple.of_exec_ok {s s' : σ} {a : α} (h : Triple P x Q R) (hs : P s)
    (hexec : x.exec s = (.ok a, s')) : Q a s' := by
  have hresult := h s hs
  rw [hexec] at hresult
  exact hresult

theorem Triple.of_exec_error {s s' : σ} {e : ε} (h : Triple P x Q R) (hs : P s)
    (hexec : x.exec s = (.error e, s')) : R e s' := by
  have hresult := h s hs
  rw [hexec] at hresult
  exact hresult

theorem triple_pure {a : α} (h : ∀ s, P s → Q a s) : Triple P (pure a) Q R := h

theorem triple_throw {e : ε} (h : ∀ s, P s → R e s) :
    Triple P (throw e : Effect σ ε α) Q R := h

theorem triple_modify {f : σ → σ} {Q : Unit → σ → Prop} (h : ∀ s, P s → Q () (f s)) :
    Triple P (modify f) Q R := h

/-- Reading the state: the rest of the block may use what is read. -/
theorem triple_get_bind {f : σ → Effect σ ε α} (h : ∀ s, P s → Triple (· = s) (f s) Q R) :
    Triple P (get >>= f) Q R := fun s hs => h s hs s rfl

theorem triple_bind {f : α → Effect σ ε β} {Q : β → σ → Prop}
    (M : α → σ → Prop) (hx : Triple P x M R) (hf : ∀ a, Triple (M a) (f a) Q R) :
    Triple P (x >>= f) Q R := by
  intro s hs
  have hfirst := hx s hs
  have hexec : (x >>= f).exec s = match x.exec s with
      | (.ok a, s') => (f a).exec s'
      | (.error e, s') => (.error e, s') := by
    simp only [Effect.exec, ExceptT.run_bind, StateT.run_bind]
    cases (StateT.run (ExceptT.run x) s) with
    | mk result s' => cases result <;> rfl
  rw [hexec]
  cases hresult : x.exec s with
  | mk result s' =>
    rw [hresult] at hfirst
    cases result with
    | ok a => exact hf a s' hfirst
    | error e => exact hfirst

theorem triple_when {c : Prop} [Decidable c] {x : Effect σ ε Unit} {Q : Unit → σ → Prop}
    (hx : c → Triple P x Q R) (hskip : ¬ c → ∀ s, P s → Q () s) : Triple P (when c x) Q R := by
  unfold when
  split
  · exact hx ‹c›
  · exact triple_pure (hskip ‹¬ c›)

theorem Triple.weaken (h : Triple P x Q R) (hP : ∀ s, P' s → P s)
    (hQ : ∀ a s, Q a s → Q' a s) : Triple P' x Q' R := by
  intro s hs
  have hresult := h s (hP s hs)
  split
  · rename_i heq
    rw [heq] at hresult
    exact hQ _ _ hresult
  · rename_i heq
    rw [heq] at hresult
    exact hresult

end Rules

/-! ## Loops -/

/-- Repeat `turn` until it returns a result, at most `bound` times. -/
def loop (exhausted : ε) (turn : β → Effect σ ε (β ⊕ γ)) : Nat → β → Effect σ ε γ
  | 0, _ => throw exhausted
  | bound + 1, b => do
    match ← turn b with
    | .inl next => loop exhausted turn bound next
    | .inr result => return result

/-- A loop whose turns keep the invariant and decrease the measure ends within its bound. -/
theorem triple_loop {exhausted : ε} {turn : β → Effect σ ε (β ⊕ γ)} {Q : γ → σ → Prop}
    {R : ε → σ → Prop} (Inv : β → σ → Prop) (measure : β → σ → Nat)
    (hturn : ∀ b n, Triple (fun s => Inv b s ∧ measure b s = n) (turn b)
      (Sum.elim (fun next s => Inv next s ∧ measure next s < n) Q) R)
    (bound : Nat) (b : β) :
    Triple (fun s => Inv b s ∧ measure b s < bound) (loop exhausted turn bound b) Q R := by
  induction bound generalizing b with
  | zero =>
    intro s hs
    exact absurd hs.2 (Nat.not_lt_zero _)
  | succ bound ih =>
    intro s hs
    refine triple_bind _ (hturn b (measure b s)) ?_ s ⟨hs.1, rfl⟩
    intro outcome
    cases outcome with
    | inl next =>
      apply (ih next).weaken
      · intro s' hnext
        obtain ⟨hinv, hlt⟩ : Inv next s' ∧ measure next s' < measure b s := hnext
        exact ⟨hinv, by omega⟩
      · intro result s' hresult
        exact hresult
    | inr result => exact triple_pure fun s' hresult => hresult

end Lib
