import Falsifier.Search.Run

/-!
# Runs and their steps

A run to the end is the repetition of steps up to the first one that ends the search, whatever the
observer makes of them (`Solver.exists_runWith`); so `solve` is known from the steps alone
(`Solver.solve_eq_iff`). A step that ends the search changes nothing. From then on the search is
`Solver.Final`: it always gives the same outcome.
-/

namespace Falsifier.Search.Solver

open Sampling

variable {σ : Type} [Generator σ]

theorem after_step (s : Solver σ) (n : Nat) : s.step.2.after n = s.after (n + 1) := by
  induction n with
  | zero => rfl
  | succ n ih =>
      show (s.step.2.after n).step.2 = (s.after (n + 1)).step.2
      rw [ih]

theorem after_add (s : Solver σ) (m n : Nat) : s.after (m + n) = (s.after m).after n := by
  induction n with
  | zero => rfl
  | succ n ih =>
      show (s.after (m + n)).step.2 = ((s.after m).after n).step.2
      rw [ih]

theorem config_step (s : Solver σ) : s.step.2.config = s.config := by
  have hs := s.stepped
  generalize s.step = r at hs ⊢
  cases hs <;> rfl

/-- The settings are kept. -/
theorem config_after (s : Solver σ) (n : Nat) : (s.after n).config = s.config := by
  induction n with
  | zero => rfl
  | succ n ih => exact (config_step _).trans ih

/-! ### The step that is made -/

/-- Only one step can be made. -/
theorem Stepped.eq {s : Solver σ} {r : Step × Solver σ} (h : Stepped s r) : s.step = r := by
  unfold step
  cases h with
  | spent budget => rw [if_pos budget]
  | falsified budget fitness => rw [if_neg (Nat.not_le.2 budget), if_pos fitness]
  | constant budget fitness vars =>
    rw [if_neg (Nat.not_le.2 budget), if_neg fitness, if_pos vars]
  | stalled budget fitness vars stall =>
    rw [if_neg (Nat.not_le.2 budget), if_neg fitness, if_neg vars, if_pos stall]
  | moved budget fitness vars stall best =>
    rw [if_neg (Nat.not_le.2 budget), if_neg fitness, if_neg vars, if_neg (Nat.not_lt.2 stall),
      best]
  | stuck budget fitness vars stall best =>
    rw [if_neg (Nat.not_le.2 budget), if_neg fitness, if_neg vars, if_neg (Nat.not_lt.2 stall)]
    split
    · next hbest => exact absurd hbest (best _ _ _)
    · rfl

/-- The same state with other settings. -/
def withConfig (s : Solver σ) (c : Config) : Solver σ :=
  { s with config := c }

/-- Limits that are exceeded together make no difference to a step. -/
theorem step_withConfig {s : Solver σ} {c : Config}
    (hbudget : s.config.maxIterations ≤ s.stats.iterations ↔ c.maxIterations ≤ s.stats.iterations)
    (hstall : s.fitness ≠ 0 → (s.config.maxStall < s.stall ↔ c.maxStall < s.stall)) :
    (s.withConfig c).step = (s.step.1, s.step.2.withConfig c) := by
  have hleft : s.stats.iterations < s.config.maxIterations →
      s.stats.iterations < c.maxIterations := by omega
  have hallowed (fitness : s.fitness ≠ 0) : s.stall ≤ s.config.maxStall → s.stall ≤ c.maxStall := by
    have hiff := hstall fitness
    omega
  have h := s.stepped
  generalize s.step = r at h ⊢
  -- The step is possible with the other settings too, and no other step is.
  apply Stepped.eq
  cases h with
  | spent budget => exact .spent (hbudget.1 budget)
  | falsified budget fitness => exact .falsified (hleft budget) fitness
  | constant budget fitness vars => exact .constant (hleft budget) fitness vars
  | stalled budget fitness vars stall =>
    exact .stalled (hleft budget) fitness vars ((hstall fitness).1 stall)
  | moved budget fitness vars stall best =>
    exact .moved (s := s.withConfig c) (hleft budget) fitness vars (hallowed fitness stall) best
  | stuck budget fitness vars stall best =>
    exact .stuck (s := s.withConfig c) (hleft budget) fitness vars (hallowed fitness stall) best

/-! ### Observed runs -/

section Observed

variable {α : Type} (note : α → Solver σ → Step → Solver σ → α)

/-- What an observer makes of the first `n` steps. -/
def observed (a : α) (s : Solver σ) : Nat → α
  | 0 => a
  | n + 1 => note (observed a s n) (s.after n) (s.after n).step.1 (s.after n).step.2

theorem observed_step (a : α) (s : Solver σ) (n : Nat) :
    observed note (note a s s.step.1 s.step.2) s.step.2 n = observed note a s (n + 1) := by
  induction n with
  | zero => rfl
  | succ n ih =>
      simp only [observed] at ih ⊢
      rw [ih, after_step]

/-- The last step of a run is the first that ends the search. -/
theorem exists_runWith (a : α) (s : Solver σ) :
    ∃ n, runWith note a s = (observed note a s (n + 1), (s.after n).step) ∧
      (s.after n).step.1.ends = true ∧ ∀ k < n, (s.after k).step.1.ends = false := by
  fun_induction runWith note a s with
  | case1 a s next a' h => exact ⟨0, rfl, h, fun k hk => absurd hk (Nat.not_lt_zero k)⟩
  | case2 a s next a' h ih =>
      obtain ⟨n, hrun, hends, hbefore⟩ := ih
      refine ⟨n + 1, ?_, ?_, ?_⟩
      · rw [hrun, observed_step, after_step]
      · rw [← after_step]
        exact hends
      · intro k hk
        cases k with
        | zero => exact Bool.eq_false_iff.2 h
        | succ k =>
            rw [← after_step]
            exact hbefore k (Nat.lt_of_succ_lt_succ hk)

end Observed

/-- A run that is observed ends like one that is not. -/
theorem runWith_snd_eq {α β : Type} (note : α → Solver σ → Step → Solver σ → α) (a : α)
    (note' : β → Solver σ → Step → Solver σ → β) (b : β) (s : Solver σ) :
    (runWith note a s).2 = (runWith note' b s).2 := by
  -- The second observer goes on from a different value after each step.
  fun_induction runWith note a s generalizing b with
  | case1 a s next a' h =>
      have h : s.step.1.ends = true := h
      rw [runWith, h]
      rfl
  | case2 a s next a' h ih =>
      have h : s.step.1.ends = false := Bool.eq_false_iff.2 h
      rw [ih (note' b s s.step.1 s.step.2), runWith.eq_def note' b s]
      simp only [h, Bool.false_eq_true, if_false]
      rfl

/-- Keeping a log changes neither the outcome nor the state. -/
theorem solveLogged_snd (messages : Array Message) (s : Solver σ) :
    (s.solveLogged messages).2 = s.solve := by
  have h := runWith_snd_eq log messages (fun _ _ _ _ => ()) () s
  show ((runWith log messages s).2.2.outcome (runWith log messages s).2.1,
    (runWith log messages s).2.2) = _
  rw [h]
  rfl

theorem solve_of_ends {s : Solver σ} (h : s.step.1.ends = true) :
    s.solve = (s.step.2.outcome s.step.1, s.step.2) := by
  unfold solve
  rw [runWith, h]
  rfl

theorem solve_step {s : Solver σ} (h : s.step.1.ends = false) : s.step.2.solve = s.solve := by
  unfold solve
  rw [runWith.eq_def _ _ s]
  simp only [h, Bool.false_eq_true, if_false]

/-! ### The end of a search -/

/-- A step that ends the search leaves everything as it was. -/
theorem step_snd_of_ends {s : Solver σ} (h : s.step.1.ends = true) : s.step.2 = s := by
  have hs := s.stepped
  generalize s.step = r at h hs ⊢
  cases hs with
  | spent | falsified | constant => rfl
  | stalled | moved | stuck => cases h

/-- A search goes on only where some clause is left true. -/
theorem fitness_pos_of_goes_on {s : Solver σ} (h : s.step.1.ends = false) : 0 < s.fitness := by
  have hs := s.stepped
  generalize s.step = r at h hs
  apply Nat.pos_of_ne_zero
  cases hs with
  | spent | falsified | constant => cases h
  | stalled _ fitness | moved _ fitness | stuck _ fitness => exact fitness

/-- Steps that are made before a run are steps of the run. -/
theorem solve_after (s : Solver σ) (n : Nat) : (s.after n).solve = s.solve := by
  induction n with
  | zero => rfl
  | succ n ih =>
    show (s.after n).step.2.solve = _
    rw [← ih]
    cases h : (s.after n).step.1.ends with
    | true => rw [step_snd_of_ends h]
    | false => exact solve_step h

/-- The search is over: steps and runs give this outcome and change nothing, and so they draw nothing
from the source. -/
structure Final (s : Solver σ) (o : Outcome) : Prop where
  ends : s.step.1.ends = true
  outcome_eq : s.outcome s.step.1 = o
  after_eq : ∀ n, s.after n = s
  solve_eq : s.solve = (o, s)

theorem final_of_ends {s : Solver σ} (h : s.step.1.ends = true) :
    s.Final (s.outcome s.step.1) where
  ends := h
  outcome_eq := rfl
  after_eq n := by
    induction n with
    | zero => rfl
    | succ n ih =>
        show (s.after n).step.2 = s
        rw [ih, step_snd_of_ends h]
  solve_eq := by rw [solve_of_ends h, step_snd_of_ends h]

/-- The steps before one that goes on have gone on too. -/
theorem goes_on_of_le {s : Solver σ} {k n : Nat} (hk : k ≤ n)
    (h : (s.after n).step.1.ends = false) : (s.after k).step.1.ends = false := by
  apply Bool.eq_false_iff.2
  intro hends
  obtain ⟨d, rfl⟩ := Nat.exists_eq_add_of_le hk
  rw [after_add, (final_of_ends hends).after_eq, hends] at h
  cases h

/-- The result of a run that goes on up to step `n`. -/
theorem solve_eq_of_after {s : Solver σ} {n : Nat} (hends : (s.after n).step.1.ends = true)
    (hbefore : ∀ k < n, (s.after k).step.1.ends = false) :
    s.solve = ((s.after n).outcome (s.after n).step.1, s.after n) := by
  induction n generalizing s with
  | zero => exact (final_of_ends hends).solve_eq
  | succ n ih =>
      have hfirst : s.step.1.ends = false := hbefore 0 (Nat.zero_lt_succ n)
      rw [← solve_step hfirst, ← after_step]
      apply ih
      · rw [after_step]
        exact hends
      · intro k hk
        rw [after_step]
        exact hbefore (k + 1) (Nat.succ_lt_succ hk)

/-- How many steps a run to the end makes. -/
def calls (s : Solver σ) : Nat :=
  (runWith (fun count _ _ _ => count + 1) 0 s).1

/-- A run makes its steps up to the first that ends the search. -/
theorem exists_calls (s : Solver σ) :
    ∃ n, s.calls = n + 1 ∧ (s.after n).step.1.ends = true ∧
      ∀ k < n, (s.after k).step.1.ends = false := by
  obtain ⟨n, hrun, hends, hbefore⟩ := exists_runWith (fun count _ _ _ => count + 1) 0 s
  have hcount (n : Nat) : observed (fun count _ _ _ => count + 1) 0 s n = n := by
    induction n with
    | zero => rfl
    | succ n ih => exact congrArg (· + 1) ih
  refine ⟨n, ?_, hends, hbefore⟩
  unfold calls
  rw [hrun, hcount]

/-- **What a run gives**: the state at the first step that ends the search, and the outcome that
belongs to this step. -/
theorem solve_eq_iff {s t : Solver σ} {o : Outcome} :
    s.solve = (o, t) ↔ ∃ n, t = s.after n ∧ t.step.1.ends = true ∧ o = t.outcome t.step.1 ∧
      ∀ k < n, (s.after k).step.1.ends = false := by
  constructor
  · intro h
    obtain ⟨n, -, hends, hbefore⟩ := s.exists_calls
    obtain ⟨rfl, rfl⟩ := Prod.mk.inj (h.symm.trans (solve_eq_of_after hends hbefore))
    exact ⟨n, rfl, hends, rfl, hbefore⟩
  · rintro ⟨n, rfl, hends, rfl, hbefore⟩
    exact solve_eq_of_after hends hbefore

/-- After a run the search is over. -/
theorem final_of_solve {s t : Solver σ} {o : Outcome} (h : s.solve = (o, t)) : t.Final o := by
  obtain ⟨n, -, hends, rfl, -⟩ := solve_eq_iff.1 h
  exact final_of_ends hends

/-- A search that gives up has spent its iterations, or there is nothing to vary. -/
theorem of_solve_eq_budgetExhausted {s t : Solver σ} (h : s.solve = (.budgetExhausted, t)) :
    ∃ n, t = s.after n ∧
      (t.config.maxIterations ≤ t.stats.iterations ∨ t.landscape.vars.isEmpty = true) := by
  obtain ⟨n, ht, hends, houtcome, -⟩ := solve_eq_iff.1 h
  refine ⟨n, ht, ?_⟩
  have hs := t.stepped
  generalize t.step = r at hends houtcome hs
  cases hs with
  | spent budget => exact .inl budget
  | constant budget fitness vars => exact .inr vars
  | falsified => cases houtcome
  | stalled | moved | stuck => cases hends

omit [Generator σ] in
theorem outcome_eq_falsified_iff {s : Solver σ} {last : Step} {m : Model} :
    s.outcome last = .falsified m ↔ last = .falsified ∧ s.model = m := by
  unfold outcome
  split <;> simp [*]

/-- A step that reports a success has found fitness zero. -/
theorem fitness_eq_zero_of_falsified {s : Solver σ} (h : s.step.1 = .falsified) : s.fitness = 0 := by
  have hs := s.stepped
  generalize s.step = r at h hs
  cases hs with
  | falsified budget fitness => exact fitness
  | spent | constant | stalled | moved | stuck => cases h

/-- A search that succeeds does so in a state of fitness zero, whose values are the model. -/
theorem of_solve_eq_falsified {s t : Solver σ} {m : Model} (h : s.solve = (.falsified m, t)) :
    ∃ n, t = s.after n ∧ t.fitness = 0 ∧ m = t.model := by
  obtain ⟨n, ht, -, houtcome, -⟩ := solve_eq_iff.1 h
  obtain ⟨hlast, hmodel⟩ := outcome_eq_falsified_iff.1 houtcome.symm
  exact ⟨n, ht, fitness_eq_zero_of_falsified hlast, hmodel.symm⟩

end Falsifier.Search.Solver
