import StateKnot.Lib.Result

/-!
# Runs of a fallible step

A step either returns the next state or fails; a failed step leaves the caller with
the state it had.  A run attempts one step after the other.  What every accepted
step preserves is preserved by a run, and what every accepted step counts up by one
counts the accepted steps of a run.
-/

namespace Lib

section Attempts

variable {ε σ α : Type}

/-- One attempted step: the old state stays when the step fails. -/
def attempt (step : σ → α → Except ε σ) (s : σ) (a : α) : σ :=
  match step s a with
  | .ok s' => s'
  | .error _ => s

/-- The state after attempting every step of a list. -/
def attempts (step : σ → α → Except ε σ) (s : σ) (as : List α) : σ := as.foldl (attempt step) s

/-- The number of steps of a run that succeed. -/
def accepted (step : σ → α → Except ε σ) : σ → List α → Nat
  | _, [] => 0
  | s, a :: as => (if (step s a).isOk then 1 else 0) + accepted step (attempt step s a) as

/-- The steps of a run that succeed, in order. -/
def admitted (step : σ → α → Except ε σ) : σ → List α → List α
  | _, [] => []
  | s, a :: as =>
    if (step s a).isOk then a :: admitted step (attempt step s a) as
    else admitted step (attempt step s a) as

variable {step : σ → α → Except ε σ} {s s' : σ} {a : α}

theorem attempt_of_ok (h : step s a = .ok s') : attempt step s a = s' := by
  rw [attempt, h]

theorem attempt_of_error {e : ε} (h : step s a = .error e) : attempt step s a = s := by
  rw [attempt, h]

@[simp] theorem attempts_cons (as : List α) :
    attempts step s (a :: as) = attempts step (attempt step s a) as := rfl

theorem attempts_append (as bs : List α) :
    attempts step s (as ++ bs) = attempts step (attempts step s as) bs := List.foldl_append

theorem attempt_cases (step : σ → α → Except ε σ) (s : σ) (a : α) :
    step s a = .ok (attempt step s a) ∨ attempt step s a = s := by
  cases h : step s a with
  | ok s' => exact .inl (by rw [attempt_of_ok h])
  | error e => exact .inr (attempt_of_error h)

theorem attempts_induct (Inv : σ → Prop)
    (hstep : ∀ {s a s'}, Inv s → step s a = .ok s' → Inv s') (as : List α) :
    ∀ {s}, Inv s → Inv (attempts step s as) := by
  induction as with
  | nil => exact fun h => h
  | cons a as ih =>
    intro s hinv
    rw [attempts_cons]
    apply ih
    rcases attempt_cases step s a with hok | hsame
    · exact hstep hinv hok
    · rw [hsame]
      exact hinv

/-- A preorder between the states before and after accepted steps relates the ends of
every run. -/
theorem attempts_rel (Inv : σ → Prop) (R : σ → σ → Prop) (hrefl : ∀ s, R s s)
    (htrans : ∀ {s t u}, R s t → R t u → R s u)
    (hinv : ∀ {s a s'}, Inv s → step s a = .ok s' → Inv s')
    (hstep : ∀ {s a s'}, Inv s → step s a = .ok s' → R s s') (as : List α) :
    ∀ {s}, Inv s → R s (attempts step s as) := by
  induction as with
  | nil => exact fun _ => hrefl _
  | cons a as ih =>
    intro s hs
    rw [attempts_cons]
    rcases attempt_cases step s a with hok | hsame
    · exact htrans (hstep hs hok) (ih (hinv hs hok))
    · rw [hsame]
      exact ih hs

/-- A measure that accepted steps raise by one counts them. -/
theorem measure_attempts (measure : σ → Nat)
    (hstep : ∀ {s a s'}, step s a = .ok s' → measure s' = measure s + 1) (as : List α) :
    ∀ s, measure (attempts step s as) = measure s + accepted step s as := by
  induction as with
  | nil => exact fun _ => rfl
  | cons a as ih =>
    intro s
    rw [attempts_cons, ih, accepted]
    cases h : step s a with
    | ok s' =>
      rw [attempt_of_ok h, hstep h]
      simp only [Except.isOk, Except.toBool, if_true]
      omega
    | error e =>
      rw [attempt_of_error h]
      simp [Except.isOk, Except.toBool]

/-- A run ends where its admitted steps lead. -/
theorem foldlM_admitted (as : List α) :
    ∀ s, (admitted step s as).foldlM step s = .ok (attempts step s as) := by
  induction as with
  | nil => exact fun _ => rfl
  | cons a as ih =>
    intro s
    rw [attempts_cons, admitted]
    cases h : step s a with
    | ok s' =>
      rw [attempt_of_ok h]
      simp only [Except.isOk, Except.toBool, if_true, List.foldlM_cons, h, ok_bind]
      exact ih s'
    | error e =>
      rw [attempt_of_error h]
      simp only [Except.isOk, Except.toBool, Bool.false_eq_true, if_false]
      exact ih s

end Attempts

/-! ## Runs that stop at the first failure -/

section Fold

variable {ε α β : Type} {f : β → α → Except ε β}

/-- What every turn of a fallible fold establishes from the items before holds of all of
them once the fold succeeds. -/
theorem foldlM_induct (Inv : List α → β → Prop) {init : β} (hinit : Inv [] init)
    (hstep : ∀ {seen b x b'}, Inv seen b → f b x = .ok b' → Inv (seen ++ [x]) b')
    {xs : List α} {out : β} (h : xs.foldlM f init = .ok out) : Inv xs out := by
  have hgeneral : ∀ (rest seen : List α) (b : β), Inv seen b → rest.foldlM f b = .ok out →
      Inv (seen ++ rest) out := by
    intro rest
    induction rest with
    | nil =>
      intro seen b hb hout
      cases hout
      rw [List.append_nil]
      exact hb
    | cons x rest ih =>
      intro seen b hb hout
      rw [List.foldlM_cons, bind_eq_ok] at hout
      obtain ⟨b', hx, hrest⟩ := hout
      have hassoc : seen ++ x :: rest = seen ++ [x] ++ rest := by simp
      rw [hassoc]
      exact ih _ b' (hstep hb hx) hrest
  exact hgeneral xs [] init hinit h

end Fold

end Lib
