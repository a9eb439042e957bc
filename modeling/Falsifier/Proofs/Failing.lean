/-!
# Computations that may fail

A chain of steps succeeds when each of its steps does, and it fails where the first step fails: all
steps before that one have succeeded (`foldlM_eq_error_iff`). Two computations are `Alike` when they
give the same value or fail together.
-/

namespace Falsifier

variable {ε α β : Type}

theorem bind_eq_ok_iff {x : Except ε α} {f : α → Except ε β} {b : β} :
    (x >>= f) = .ok b ↔ ∃ a, x = .ok a ∧ f a = .ok b := by
  cases x with
  | error e =>
    show Except.error e = _ ↔ _
    simp
  | ok a =>
    show f a = _ ↔ _
    simp

theorem bind_eq_error_iff {x : Except ε α} {f : α → Except ε β} {e : ε} :
    (x >>= f) = .error e ↔ x = .error e ∨ ∃ a, x = .ok a ∧ f a = .error e := by
  cases x with
  | error e' =>
    show Except.error e' = _ ↔ _
    simp
  | ok a =>
    show f a = _ ↔ _
    simp

/-- Two continuations need to agree only on the value that a computation gives. -/
theorem bind_congr_ok {x : Except ε α} {f g : α → Except ε β} (h : ∀ a, x = .ok a → f a = g a) :
    (x >>= f) = (x >>= g) := by
  cases x with
  | error e => rfl
  | ok a => exact h a rfl

/-! ### Computations that fail together -/

/-- Both computations give the same value, or both fail, with related errors. -/
inductive Alike (R : ε → ε → Prop) : Except ε α → Except ε α → Prop where
  | ok (a : α) : Alike R (.ok a) (.ok a)
  | error {e e' : ε} (related : R e e') : Alike R (.error e) (.error e')

namespace Alike

variable {R R' : ε → ε → Prop} {x y : Except ε α}

theorem eq_ok_iff (h : Alike R x y) {a : α} : x = .ok a ↔ y = .ok a := by
  cases h with
  | ok b => rfl
  | error related => simp

theorem imp (hR : ∀ e e', R e e' → R' e e') (h : Alike R x y) : Alike R' x y := by
  cases h with
  | ok a => exact .ok a
  | error related => exact .error (hR _ _ related)

theorem bind (h : Alike R x y) {f g : α → Except ε β} (hfg : ∀ a, Alike R (f a) (g a)) :
    Alike R (x >>= f) (y >>= g) := by
  cases h with
  | ok a => exact hfg a
  | error related => exact .error related

end Alike

/-! ### Chains of steps -/

section Chain

variable {step : β → α → Except ε β} {b c : β} {xs : List α}

/-- What every step keeps, a chain of steps keeps. -/
theorem foldlM_preserves {P : β → Prop} (hstep : ∀ b x c, P b → step b x = .ok c → P c) (hb : P b)
    (h : xs.foldlM step b = .ok c) : P c := by
  induction xs generalizing b with
  | nil => cases h; exact hb
  | cons x xs ih =>
    rw [List.foldlM_cons] at h
    obtain ⟨b', hb', h⟩ := bind_eq_ok_iff.1 h
    exact ih (hstep b x b' hb hb') h

/-- A chain of steps fails at the first step that fails. -/
theorem foldlM_eq_error_iff {e : ε} :
    xs.foldlM step b = .error e ↔
      ∃ before x after c, xs = before ++ x :: after ∧ before.foldlM step b = .ok c ∧
        step c x = .error e := by
  constructor
  · intro h
    induction xs generalizing b with
    | nil => cases h
    | cons x xs ih =>
      rw [List.foldlM_cons] at h
      rcases bind_eq_error_iff.1 h with h | ⟨b', hb', h⟩
      · exact ⟨[], x, xs, b, rfl, rfl, h⟩
      · obtain ⟨before, y, after, c, rfl, hbefore, hy⟩ := ih h
        refine ⟨x :: before, y, after, c, rfl, ?_, hy⟩
        rw [List.foldlM_cons, hb']
        exact hbefore
  · rintro ⟨before, x, after, c, rfl, hbefore, hx⟩
    rw [List.foldlM_append, hbefore]
    show (x :: after).foldlM step c = _
    rw [List.foldlM_cons, hx]
    rfl

end Chain

end Falsifier
