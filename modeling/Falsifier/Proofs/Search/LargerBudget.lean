import Falsifier.Proofs.Search.Budget

/-!
# Larger budgets

The budget is looked at before everything else in a step, and nothing else in a step depends on it.
So a search with a larger budget makes the same steps until the smaller budget is spent
(`Solver.after_withBudget`), and what the smaller budget finds is what the larger one finds in fewer
iterations than the smaller one has (`Solver.solve_budget_mono`). A state of fitness zero that comes
with the last iteration is not noticed any more, which is why the count has to be strictly smaller.
-/

namespace Falsifier.Search

open Sampling

/-- A step that goes on does not report a spent budget. -/
theorem Step.ne_budgetExhausted {step : Step} (h : step.ends = false) : step ≠ .budgetExhausted := by
  rintro rfl
  cases h

namespace Solver

variable {σ : Type}

/-- The same state with another number of iterations to spend. -/
def withBudget (s : Solver σ) (m : Nat) : Solver σ :=
  { s with config := { s.config with maxIterations := m } }

variable [Generator σ]

/-! ### Iterations -/

/-- While a budget is not reported as spent, it is not. -/
theorem iterations_lt_of_step {s : Solver σ} (h : s.step.1 ≠ .budgetExhausted) :
    s.stats.iterations < s.config.maxIterations := by
  have hs := s.stepped
  generalize s.step = r at h hs
  cases hs with
  | spent | constant => exact absurd rfl h
  | falsified budget | stalled budget | moved budget | stuck budget => exact budget

theorem iterations_le_step (s : Solver σ) : s.stats.iterations ≤ s.step.2.stats.iterations := by
  have hs := s.stepped
  generalize s.step = r at hs ⊢
  cases hs with
  | spent | falsified | constant | stalled => exact Nat.le_refl _
  | moved | stuck => exact Nat.le_succ _

theorem iterations_le_after {s : Solver σ} {k n : Nat} (h : k ≤ n) :
    (s.after k).stats.iterations ≤ (s.after n).stats.iterations := by
  induction h with
  | refl => exact Nat.le_refl _
  | step _ ih => exact Nat.le_trans ih (iterations_le_step _)

/-! ### The same steps -/

/-- While neither budget is spent, they make no difference to a step. -/
theorem step_withBudget {s : Solver σ} {m : Nat}
    (hs : s.stats.iterations < s.config.maxIterations) (hm : s.stats.iterations < m) :
    (s.withBudget m).step = (s.step.1, s.step.2.withBudget m) := by
  have hbudget : s.config.maxIterations ≤ s.stats.iterations ↔ m ≤ s.stats.iterations := by omega
  show _ = (_, s.step.2.withConfig ⟨m, s.step.2.config.maxStall⟩)
  rw [config_step]
  exact step_withConfig hbudget fun _ => Iff.rfl

/-- None of the first `n` steps finds that its budget is spent, and `m` would not be spent either. -/
def Affords (s : Solver σ) (m n : Nat) : Prop :=
  ∀ k < n, (s.after k).step.1 ≠ .budgetExhausted ∧ (s.after k).stats.iterations < m

theorem Affords.mono {s : Solver σ} {m k n : Nat} (h : s.Affords m n) (hk : k ≤ n) :
    s.Affords m k :=
  fun j hj => h j (Nat.lt_of_lt_of_le hj hk)

theorem after_withBudget {s : Solver σ} {m n : Nat} (h : s.Affords m n) :
    (s.withBudget m).after n = (s.after n).withBudget m := by
  induction n with
  | zero => rfl
  | succ n ih =>
    obtain ⟨hne, hm⟩ := h n (Nat.lt_succ_self n)
    show ((s.withBudget m).after n).step.2 = _
    rw [ih (h.mono (Nat.le_succ n)), step_withBudget (iterations_lt_of_step hne) hm]
    rfl

/-- The last of the steps has the same result. -/
theorem step_after_withBudget {s : Solver σ} {m n : Nat} (h : s.Affords m (n + 1)) :
    ((s.withBudget m).after n).step.1 = (s.after n).step.1 := by
  obtain ⟨hne, hm⟩ := h n (Nat.lt_succ_self n)
  rw [after_withBudget (h.mono (Nat.le_succ n)), step_withBudget (iterations_lt_of_step hne) hm]

theorem steps_withBudget {s : Solver σ} {m n : Nat} (h : s.Affords m n) :
    (s.withBudget m).steps n = s.steps n := by
  induction n with
  | zero => rfl
  | succ n ih => rw [steps, steps, ih (h.mono (Nat.le_succ n)), step_after_withBudget h]

/-! ### The same successes -/

/-- The run finds this model, with these counts, and leaves the source like this. -/
def Finds (s : Solver σ) (model : Model) (stats : Stats) (source : Source σ) : Prop :=
  ∃ t, s.solve = (.falsified model, t) ∧ t.stats = stats ∧ t.source = source

/-- What a run finds it finds in the first state that it takes for a success. -/
theorem finds_iff {s : Solver σ} {model : Model} {stats : Stats} {source : Source σ} :
    s.Finds model stats source ↔ ∃ n, (s.after n).step.1 = .falsified ∧
      (s.after n).model = model ∧ (s.after n).stats = stats ∧ (s.after n).source = source ∧
        ∀ k < n, (s.after k).step.1.ends = false := by
  constructor
  · rintro ⟨t, hsolve, rfl, rfl⟩
    obtain ⟨n, rfl, -, houtcome, hbefore⟩ := solve_eq_iff.1 hsolve
    obtain ⟨hlast, hmodel⟩ := outcome_eq_falsified_iff.1 houtcome.symm
    exact ⟨n, hlast, hmodel, rfl, rfl, hbefore⟩
  · rintro ⟨n, hlast, hmodel, rfl, rfl, hbefore⟩
    have hends : (s.after n).step.1.ends = true := by rw [hlast]; rfl
    refine ⟨s.after n, ?_, rfl, rfl⟩
    rw [solve_eq_of_after hends hbefore, outcome_eq_falsified_iff.2 ⟨hlast, hmodel⟩]

/-- A success is noticed while there are iterations left. -/
theorem Finds.iterations_lt {s : Solver σ} {model : Model} {stats : Stats} {source : Source σ}
    (h : s.Finds model stats source) : stats.iterations < s.config.maxIterations := by
  obtain ⟨n, hlast, -, rfl, -⟩ := finds_iff.1 h
  have hne : (s.after n).step.1 ≠ .budgetExhausted := by rw [hlast]; nofun
  exact config_after s n ▸ iterations_lt_of_step hne

/-- Steps that go on spend no budget that is larger than the count of iterations after them. -/
theorem affords_of_goes_on {s : Solver σ} {m n : Nat}
    (hbefore : ∀ k < n, (s.after k).step.1.ends = false) (hm : (s.after n).stats.iterations < m) :
    s.Affords m n := by
  intro k hk
  refine ⟨Step.ne_budgetExhausted (hbefore k hk), ?_⟩
  exact Nat.lt_of_le_of_lt (iterations_le_after (Nat.le_of_lt hk)) hm

/-- A state of fitness zero is reported with every budget that is not spent when the search comes to
it. -/
theorem finds_of_fitness_eq_zero {s : Solver σ} {n m : Nat} (hfitness : (s.after n).fitness = 0)
    (hbefore : ∀ k < n, (s.after k).step.1.ends = false)
    (hm : (s.after n).stats.iterations < m) :
    (s.withBudget m).Finds (s.after n).model (s.after n).stats (s.after n).source := by
  have haffords := affords_of_goes_on hbefore hm
  have hafter := after_withBudget haffords
  have hlast : ((s.after n).withBudget m).step = (.falsified, (s.after n).withBudget m) :=
    Stepped.eq (.falsified hm hfitness)
  refine finds_iff.2 ⟨n, ?_, ?_, ?_, ?_, ?_⟩
  · rw [hafter, hlast]
  · rw [hafter]
    rfl
  · rw [hafter]
    rfl
  · rw [hafter]
    rfl
  · intro k hk
    rw [step_after_withBudget (haffords.mono hk)]
    exact hbefore k hk

/-- A success is found with every budget that is not spent by then. -/
theorem Finds.withBudget {s : Solver σ} {model : Model} {stats : Stats} {source : Source σ} {m : Nat}
    (h : s.Finds model stats source) (hm : stats.iterations < m) :
    (s.withBudget m).Finds model stats source := by
  obtain ⟨n, hlast, rfl, rfl, rfl, hbefore⟩ := finds_iff.1 h
  exact finds_of_fitness_eq_zero (fitness_eq_zero_of_falsified hlast) hbefore hm

/-- **A larger budget changes nothing before the smaller one is spent.** The steps are the same up to
where the smaller budget is reported as spent. A success is found with the smaller budget exactly when
it is found with the larger one in fewer iterations than the smaller budget has, and it is then the
same with the same counts and the same words drawn. Otherwise the search with the smaller budget gives
up, and where there is something to vary it has spent all its iterations. -/
theorem solve_budget_mono {f : Dnf} (source : Source σ) (m m' maxStall : Nat)
    (hf : f.clauses ≠ []) (hstall : 1 ≤ maxStall) (hm : 1 ≤ m) (hle : m ≤ m') :
    ∃ s s', start f ⟨m, maxStall⟩ source = .ok s ∧ start f ⟨m', maxStall⟩ source = .ok s' ∧
      (∀ n, (∀ k < n, (s.after k).step.1 ≠ .budgetExhausted) →
        s'.steps n = s.steps n ∧ s'.after n = (s.after n).withBudget m') ∧
      (∀ model stats last,
        s.Finds model stats last ↔ s'.Finds model stats last ∧ stats.iterations < m) ∧
      ((∀ model stats last, s'.Finds model stats last → m ≤ stats.iterations) →
        ∃ t, s.solve = (.budgetExhausted, t) ∧ (f.vars ≠ [] → t.stats.iterations = m)) := by
  have hc : Config.check ⟨m, maxStall⟩ = .ok () := Config.check_eq_ok_iff.2 ⟨hm, hstall⟩
  have hc' : Config.check ⟨m', maxStall⟩ = .ok () :=
    Config.check_eq_ok_iff.2 ⟨Nat.le_trans hm hle, hstall⟩
  have hiff (model : Model) (stats : Stats) (last : Source σ) :
      (initial f ⟨m, maxStall⟩ source).Finds model stats last ↔
        (initial f ⟨m', maxStall⟩ source).Finds model stats last ∧ stats.iterations < m := by
    -- Each of the two searches is the other one with the other budget.
    constructor
    · intro h
      have hlt : stats.iterations < m := h.iterations_lt
      exact ⟨h.withBudget (Nat.lt_of_lt_of_le hlt hle), hlt⟩
    · rintro ⟨h, hlt⟩
      exact h.withBudget hlt
  refine ⟨_, _, start_eq source hf hc, start_eq source hf hc', ?_, hiff, ?_⟩
  · intro n hne
    have haffords : (initial f ⟨m, maxStall⟩ source).Affords m' n := by
      intro k hk
      have hlt := iterations_lt_of_step (hne k hk)
      rw [config_after] at hlt
      exact ⟨hne k hk, Nat.lt_of_lt_of_le hlt hle⟩
    exact ⟨steps_withBudget haffords, after_withBudget haffords⟩
  · intro hnone
    cases hsolve : (initial f ⟨m, maxStall⟩ source).solve with
    | mk o t =>
      cases o with
      | falsified model =>
        obtain ⟨h, hlt⟩ := (hiff model t.stats t.source).1 ⟨t, hsolve, rfl, rfl⟩
        exact absurd hlt (Nat.not_lt.2 (hnone _ _ _ h))
      | budgetExhausted =>
        refine ⟨t, rfl, ?_⟩
        intro hvars
        rcases iterations_of_gives_up (n := 0) hsolve with hspent | ⟨hnil, -⟩
        · exact hspent
        · exact absurd hnil hvars

/-- A success that comes with the last iteration is found with one iteration more. -/
theorem gives_up_of_last_iteration :
    ∃ s s', start ⟨[[.pos 1, .pos 3], [.neg 1]]⟩ ⟨1, 2⟩
        (Source.fresh (Listed.ofWords [4294967295, 4294967295])) = .ok s ∧
      start ⟨[[.pos 1, .pos 3], [.neg 1]]⟩ ⟨2, 2⟩
        (Source.fresh (Listed.ofWords [4294967295, 4294967295])) = .ok s' ∧
      (∃ last, s'.Finds ⟨[.pos 1, .neg 3]⟩ ⟨1, 0, 1⟩ last) ∧
      ∃ t, s.solve = (.budgetExhausted, t) ∧ t.stats.iterations = 1 := by
  obtain ⟨s, s', hs, hs', -, -, hnone⟩ := solve_budget_mono (f := ⟨[[.pos 1, .pos 3], [.neg 1]]⟩)
    (Source.fresh (Listed.ofWords [4294967295, 4294967295])) 1 2 2
    (by decide) (by decide) (by decide) (by decide)
  have hfinds : ∃ last, s'.Finds ⟨[.pos 1, .neg 3]⟩ ⟨1, 0, 1⟩ last := by
    obtain rfl := Except.ok.inj hs'
    exact ⟨_, finds_iff.2 ⟨1, by decide, by decide, by decide, rfl, by decide⟩⟩
  refine ⟨s, s', hs, hs', hfinds, ?_⟩
  obtain ⟨last, t', hsolve', hstats, -⟩ := hfinds
  have hlast (model : Model) (stats : Stats) (last : Source Listed)
      (h : s'.Finds model stats last) : 1 ≤ stats.iterations := by
    obtain ⟨t, hsolve, rfl, -⟩ := h
    obtain ⟨-, rfl⟩ := Prod.mk.inj (hsolve.symm.trans hsolve')
    exact Nat.le_of_eq (congrArg Stats.iterations hstats).symm
  obtain ⟨t, hsolve, hspent⟩ := hnone hlast
  exact ⟨t, hsolve, hspent (by decide)⟩

end Solver
end Falsifier.Search
