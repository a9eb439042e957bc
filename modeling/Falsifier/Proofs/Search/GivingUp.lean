import Falsifier.Proofs.Search.LargerBudget
import Falsifier.Proofs.Search.Soundness

/-!
# Giving up

A step looks at the budget before it looks at the fitness. A search that gives up has therefore seen
that each of its assignments leaves some clause true, with the exception of one: the assignment that
came with the last iteration is not looked at any more. `Solver.solve_gives_up` says when this
assignment falsifies the formula. It does so just when the same search with one iteration more would
have reported it.
-/

namespace Falsifier.Search.Solver

open Sampling

variable {σ : Type} [Generator σ]

/-! ### The last iteration -/

/-- Fitness zero is overlooked only when the iterations are spent. -/
theorem iterations_of_overlooked {s : Solver σ} (hfitness : s.fitness = 0)
    (h : s.step.1 ≠ .falsified) : s.config.maxIterations ≤ s.stats.iterations := by
  have hs := s.stepped
  generalize s.step = r at h hs
  cases hs with
  | spent budget => exact budget
  | falsified => exact absurd rfl h
  | constant _ fitness | stalled _ fitness | moved _ fitness | stuck _ fitness =>
    exact absurd hfitness fitness

theorem iterations_step_le (s : Solver σ) :
    s.step.2.stats.iterations ≤ s.stats.iterations + 1 := by
  have hs := s.stepped
  generalize s.step = r at hs ⊢
  cases hs with
  | spent | falsified | constant | stalled => exact Nat.le_succ _
  | moved | stuck => exact Nat.le_refl _

/-- It is the last of the steps that go on which spends the last iteration. -/
theorem exists_last_iteration {s : Solver σ} {n : Nat}
    (hstart : s.stats.iterations < s.config.maxIterations)
    (hbefore : ∀ k < n, (s.after k).step.1.ends = false)
    (hspent : s.config.maxIterations ≤ (s.after n).stats.iterations) :
    ∃ k, n = k + 1 ∧ (s.after k).stats.iterations + 1 = s.config.maxIterations ∧
      (s.after n).stats.iterations = s.config.maxIterations := by
  cases n with
  | zero => exact absurd hstart (Nat.not_lt.2 hspent)
  | succ k =>
    have hlt := iterations_lt_of_step (Step.ne_budgetExhausted (hbefore k (Nat.lt_succ_self k)))
    rw [config_after] at hlt
    have hle : (s.after (k + 1)).stats.iterations ≤ (s.after k).stats.iterations + 1 :=
      iterations_step_le (s.after k)
    exact ⟨k, rfl, by omega, by omega⟩

/-! ### What is overlooked -/

/-- A state whose model is found has fitness zero. -/
theorem Sound.fitness_eq_zero_of_finds {f : Dnf} {s t : Solver σ} {stats : Stats}
    {source : Source σ} (hs : s.Sound f) (ht : t.Sound f)
    (h : s.Finds t.model stats source) : t.fitness = 0 := by
  obtain ⟨u, hsolve, -, -⟩ := h
  have hfalse := (hs.genuine_of_solve hsolve).falsifies
  rw [ht.falsifiedBy_model] at hfalse
  exact of_decide_eq_true (Except.ok.inj hfalse)

/-- **What a search holds when it gives up.** Each assignment that it held before leaves some clause
true. So does the last one, unless the step that led to it has spent the last iteration. The last one
falsifies the formula just when the search with one iteration more reports it, with the same counts
and after the same draws. -/
theorem solve_gives_up {f : Dnf} {config : Config} (source : Source σ) (hf : f.clauses ≠ [])
    (hc : config.check = .ok ()) :
    ∃ s s', start f config source = .ok s ∧
      start f ⟨config.maxIterations + 1, config.maxStall⟩ source = .ok s' ∧
      ∀ j t, (s.after j).solve = (.budgetExhausted, t) → ∃ n, t = s.after n ∧
        (∀ k < n, 0 < (s.after k).fitness) ∧
        (0 < t.fitness ∨ ∃ k, n = k + 1 ∧
          (s.after k).stats.iterations + 1 = config.maxIterations ∧
          t.stats.iterations = config.maxIterations) ∧
        f.falsifiedBy t.model.toAssignment = .ok (decide (t.fitness = 0)) ∧
        (t.fitness = 0 ↔ s'.Finds t.model t.stats t.source) := by
  obtain ⟨hbudget, hstall⟩ := Config.check_eq_ok_iff.1 hc
  have hc' : Config.check ⟨config.maxIterations + 1, config.maxStall⟩ = .ok () :=
    Config.check_eq_ok_iff.2 ⟨Nat.succ_pos _, hstall⟩
  refine ⟨_, _, start_eq source hf hc, start_eq source hf hc', ?_⟩
  intro j t hsolve
  rw [solve_after] at hsolve
  obtain ⟨n, rfl, -, houtcome, hbefore⟩ := solve_eq_iff.1 hsolve
  have hsound := (sound_initial f config source).after n
  generalize ht : (initial f config source).after n = t at hsound houtcome ⊢
  -- At fitness zero the search has given up for its budget alone.
  have hspent (hzero : t.fitness = 0) : ∃ k, n = k + 1 ∧
      ((initial f config source).after k).stats.iterations + 1 = config.maxIterations ∧
      t.stats.iterations = config.maxIterations := by
    have hoverlooked : t.step.1 ≠ .falsified := by
      intro hlast
      rw [outcome_eq_falsified_iff.2 ⟨hlast, rfl⟩] at houtcome
      cases houtcome
    have hle := iterations_of_overlooked hzero hoverlooked
    subst ht
    rw [config_after] at hle
    exact exists_last_iteration hbudget hbefore hle
  refine ⟨n, ht.symm, ?_, ?_, hsound.falsifiedBy_model, ?_, ?_⟩
  · intro k hk
    exact fitness_pos_of_goes_on (hbefore k hk)
  · rcases Nat.eq_zero_or_pos t.fitness with hzero | hpos
    · exact .inr (hspent hzero)
    · exact .inl hpos
  · intro hzero
    obtain ⟨k, -, -, heq⟩ := hspent hzero
    subst ht
    exact finds_of_fitness_eq_zero hzero hbefore (heq ▸ Nat.lt_succ_self _)
  · exact (sound_initial f _ source).fitness_eq_zero_of_finds hsound

/-- A fresh start that comes with the last iteration, and whose values are found with one more. -/
theorem found_with_one_more :
    ∃ s s' t, start ⟨[[.pos 1], [.neg 1, .pos 2]]⟩ ⟨1, 80⟩
        (Source.fresh (Listed.ofWords [4294967295, 4294967295, 0, 0])) = .ok s ∧
      start ⟨[[.pos 1], [.neg 1, .pos 2]]⟩ ⟨2, 80⟩
        (Source.fresh (Listed.ofWords [4294967295, 4294967295, 0, 0])) = .ok s' ∧
      s.solve = (.budgetExhausted, t) ∧ s'.Finds ⟨[.neg 1, .neg 2]⟩ t.stats t.source := by
  obtain ⟨s, s', hs, hs', h⟩ := solve_gives_up (f := ⟨[[.pos 1], [.neg 1, .pos 2]]⟩)
    (Source.fresh (Listed.ofWords [4294967295, 4294967295, 0, 0])) (by decide)
    (show Config.check ⟨1, 80⟩ = .ok () from rfl)
  refine ⟨s, s', s.after 1, hs, hs', ?_⟩
  have hsolve : s.solve = (.budgetExhausted, s.after 1) := by
    obtain rfl := Except.ok.inj hs
    exact solve_eq_of_after (n := 1) (by decide) (by decide)
  obtain ⟨n, -, -, -, -, hiff⟩ := h 0 (s.after 1) hsolve
  have hfinds := hiff.1 (by obtain rfl := Except.ok.inj hs; decide)
  have hmodel : (s.after 1).model = ⟨[.neg 1, .neg 2]⟩ := by
    obtain rfl := Except.ok.inj hs
    decide
  exact ⟨hsolve, hmodel ▸ hfinds⟩

/-- A move that comes with the last iteration reaches fitness zero, and the search gives up. -/
theorem gives_up_at_fitness_zero :
    ∃ s t, start ⟨[[.pos 1]]⟩ ⟨1, 80⟩ (Source.fresh (Listed.ofWords [4294967295, 0])) = .ok s ∧
      s.solve = (.budgetExhausted, t) ∧ t.fitness = 0 ∧
      Dnf.falsifiedBy ⟨[[.pos 1]]⟩ t.model.toAssignment = .ok true := by
  refine ⟨_, _, rfl, solve_eq_of_after (n := 1) (by decide) (by decide), by decide, ?_⟩
  exact ((sound_initial _ _ _).after 1).falsifiedBy_model

end Falsifier.Search.Solver
