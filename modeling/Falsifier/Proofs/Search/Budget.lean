import Falsifier.Proofs.Search.Invariant
import Falsifier.Proofs.Search.Run
import Falsifier.Sampling.Listed

/-!
# The budget of the local search

A start that is forced after too many moves costs no iteration, so a run makes more steps than it has
iterations. How many more is known from its books (`Solver.Accounts`): every forced start has been
paid for by the moves before it. From this follow the length of a run, that no counter leaves its
word, and that a search gives up only when its iterations are spent (`Solver.solve_within_budget`).
-/

namespace Falsifier.Search

open Sampling

/-! ### Kinds of steps -/

def Step.isMove : Step → Bool
  | moved _ _ _ => true
  | falsified | restarted _ | budgetExhausted => false

/-- A step that goes on is a move or a fresh start. -/
theorem Step.countP_not_ends (made : List Step) :
    made.countP (!·.ends) = made.countP isMove + made.count (.restarted .noImprovingMove) +
      made.count (.restarted .stalled) := by
  induction made with
  | nil => rfl
  | cons step made ih =>
    rw [List.countP_cons, List.countP_cons, List.count_cons, List.count_cons, ih]
    cases step with
    | falsified | budgetExhausted => rfl
    | moved position source target =>
      simp only [ends, isMove]
      grind
    | restarted reason => cases reason <;> grind [ends, isMove]

namespace Solver

variable {σ : Type}

/-! ### The books -/

/-- What the counters of a search amount to after the steps in `made`. -/
structure Accounts (config : Config) (made : List Step) (s : Solver σ) : Prop where
  config_eq : s.config = config
  moves_eq : s.stats.moves = made.countP Step.isMove
  iterations_eq : s.stats.iterations = s.stats.moves + made.count (.restarted .noImprovingMove)
  iterations_le : s.stats.iterations ≤ config.maxIterations
  restarts_eq : s.stats.restarts =
    made.count (.restarted .noImprovingMove) + made.count (.restarted .stalled)
  /-- Every forced start has used up one more move than may follow a start, and the moves since the
  last start have not been used up yet. -/
  stalled_le : made.count (.restarted .stalled) * (config.maxStall + 1) + s.stall ≤ s.stats.moves

variable [Generator σ]

/-- The results of the first `n` steps. -/
def steps (s : Solver σ) : Nat → List Step
  | 0 => []
  | n + 1 => s.steps n ++ [(s.after n).step.1]

theorem accounts_initial (f : Dnf) (config : Config) (source : Source σ) :
    (initial f config source).Accounts config [] where
  config_eq := rfl
  moves_eq := rfl
  iterations_eq := rfl
  iterations_le := Nat.zero_le _
  restarts_eq := rfl
  stalled_le := by simp [initial]

namespace Accounts

variable {config : Config} {made : List Step} {s : Solver σ}

/-! ### What a step does to the books -/

omit [Generator σ] in
/-- A step that ends the search is not entered. -/
theorem idle (h : s.Accounts config made) {last : Step} (hlast : last.ends = true) :
    s.Accounts config (made ++ [last]) := by
  cases last with
  | falsified | budgetExhausted =>
    obtain ⟨hconfig, hmoves, hiterations, hle, hrestarts, hstalled⟩ := h
    constructor <;> grind [Step.isMove]
  | restarted | moved => cases hlast

omit [Generator σ] in
theorem move (h : s.Accounts config made) (budget : s.stats.iterations < config.maxIterations)
    (i before target : Nat) (source : Source σ) :
    (s.move i target source).Accounts config (made ++ [.moved i before target]) where
  config_eq := h.config_eq
  moves_eq := by grind [Solver.move, h.moves_eq, Step.isMove]
  iterations_eq := by grind [Solver.move, h.iterations_eq]
  iterations_le := budget
  restarts_eq := by grind [Solver.move, h.restarts_eq]
  stalled_le := by grind [Solver.move, h.stalled_le]

/-- A forced start uses up the moves since the last start. -/
theorem stalled (h : s.Accounts config made) (stall : config.maxStall < s.stall) :
    s.restart.Accounts config (made ++ [.restarted .stalled]) where
  config_eq := h.config_eq
  moves_eq := by grind [Solver.restart, h.moves_eq, Step.isMove]
  iterations_eq := by grind [Solver.restart, h.iterations_eq]
  iterations_le := h.iterations_le
  restarts_eq := by grind [Solver.restart, h.restarts_eq]
  stalled_le := by
    -- The starts on the left count for `maxStall + 1` moves more, and the present moves, which are
    -- at least as many, are taken away.
    grind [Solver.restart, h.stalled_le, Nat.add_mul]

theorem stuck (h : s.Accounts config made) (budget : s.stats.iterations < config.maxIterations) :
    s.restart.spend.Accounts config (made ++ [.restarted .noImprovingMove]) where
  config_eq := h.config_eq
  moves_eq := by grind [Solver.restart, Solver.spend, h.moves_eq, Step.isMove]
  iterations_eq := by grind [Solver.restart, Solver.spend, h.iterations_eq]
  iterations_le := budget
  restarts_eq := by grind [Solver.restart, Solver.spend, h.restarts_eq]
  stalled_le := by grind [Solver.restart, Solver.spend, h.stalled_le]

theorem step (h : s.Accounts config made) :
    s.step.2.Accounts config (made ++ [s.step.1]) := by
  have hs := s.stepped
  have hconfig := h.config_eq
  generalize s.step = r at hs ⊢
  cases hs with
  | spent | falsified | constant => exact h.idle rfl
  | stalled _ _ _ stall => exact h.stalled (hconfig ▸ stall)
  | moved budget => exact h.move (hconfig ▸ budget) _ _ _ _
  | stuck budget => exact h.stuck (hconfig ▸ budget)

theorem after (h : s.Accounts config made) (n : Nat) :
    (s.after n).Accounts config (made ++ s.steps n) := by
  induction n with
  | zero =>
    rw [steps, List.append_nil]
    exact h
  | succ n ih =>
    rw [steps, ← List.append_assoc]
    exact ih.step

/-! ### What the books show -/

omit [Generator σ] in
/-- The forced starts are no more than the moves that have paid for them. -/
theorem stalled_le_div (h : s.Accounts config made) :
    made.count (.restarted .stalled) ≤ config.maxIterations / (config.maxStall + 1) := by
  rw [Nat.le_div_iff_mul_le (Nat.succ_pos _)]
  calc
    made.count (.restarted .stalled) * (config.maxStall + 1)
      ≤ s.stats.moves := Nat.le_of_add_right_le h.stalled_le
    _ ≤ s.stats.iterations := h.iterations_eq ▸ Nat.le_add_right _ _
    _ ≤ config.maxIterations := h.iterations_le

omit [Generator σ] in
/-- No counter is larger than the budget. -/
theorem counters_le (h : s.Accounts config made) :
    s.stats.iterations ≤ config.maxIterations ∧ s.stats.moves ≤ config.maxIterations ∧
      s.stats.restarts ≤ config.maxIterations ∧ s.stall ≤ config.maxIterations := by
  have hpaid : made.count (.restarted .stalled) ≤
      made.count (.restarted .stalled) * (config.maxStall + 1) :=
    Nat.le_mul_of_pos_right _ (Nat.succ_pos _)
  grind [h.iterations_eq, h.iterations_le, h.restarts_eq, h.stalled_le]

omit [Generator σ] in
theorem countP_not_ends_le (h : s.Accounts config made) :
    made.countP (!·.ends) ≤
      config.maxIterations + config.maxIterations / (config.maxStall + 1) := by
  rw [Step.countP_not_ends]
  grind [h.moves_eq, h.iterations_eq, h.iterations_le, h.stalled_le_div]

end Accounts

/-- Steps that go on are all entered. -/
theorem countP_steps {s : Solver σ} {n : Nat} (h : ∀ k < n, (s.after k).step.1.ends = false) :
    (s.steps n).countP (!·.ends) = n := by
  induction n with
  | zero => rfl
  | succ n ih =>
    have hlast := h n (Nat.lt_succ_self n)
    have hbefore := ih fun k hk => h k (Nat.lt_succ_of_lt hk)
    rw [steps, List.countP_append, hbefore]
    simp [hlast]

/-- A run ends in time, from whatever state of the search. -/
theorem Accounts.calls_le {config : Config} {made : List Step} {s : Solver σ}
    (h : s.Accounts config made) :
    s.calls ≤ config.maxIterations + config.maxIterations / (config.maxStall + 1) + 1 := by
  obtain ⟨n, hcalls, -, hbefore⟩ := s.exists_calls
  -- All steps of the run but the last go on, and the books bound the steps that do.
  have hbound := (h.after n).countP_not_ends_le
  rw [List.countP_append, countP_steps hbefore] at hbound
  omega

/-! ### Counting in words -/

/-- A move whose counters must fit their words. -/
def checkedMove (s : Solver σ) (position target : Nat) (source : Source σ) :
    Except Fault (Solver σ) := do
  return { s with
    current := s.current.modify position (!·)
    fitness := target
    stall := ← checkedAdd s.stall 1
    stats := { s.stats with
      iterations := ← checkedAdd s.stats.iterations 1
      moves := ← checkedAdd s.stats.moves 1 }
    source }

/-- A start whose counter must fit its word. -/
def checkedRestart (s : Solver σ) : Except Fault (Solver σ) := do
  return { s.restart with
    stats := { s.stats with restarts := ← checkedAdd s.stats.restarts 1 } }

def checkedSpend (s : Solver σ) : Except Fault (Solver σ) := do
  return { s with stats := { s.stats with iterations := ← checkedAdd s.stats.iterations 1 } }

/-- A step whose counters must fit their words. -/
def checkedStep (s : Solver σ) : Except Fault (Step × Solver σ) :=
  if s.config.maxIterations ≤ s.stats.iterations then .ok (.budgetExhausted, s)
  else if s.fitness = 0 then .ok (.falsified, s)
  else if s.landscape.vars.isEmpty then .ok (.budgetExhausted, s)
  else if s.config.maxStall < s.stall then
    return (.restarted .stalled, ← s.checkedRestart)
  else match s.landscape.bestFlips? s.values s.fitness with
    | some (target, first :: others) => do
      let (position, source) := s.source.pick first others
      return (.moved position s.fitness target, ← s.checkedMove position target source)
    | _ => return (.restarted .noImprovingMove, ← (← s.checkedRestart).checkedSpend)

/-- All counters fit their words. -/
structure Fits (s : Solver σ) : Prop where
  iterations_lt : s.stats.iterations < wordBound
  moves_lt : s.stats.moves < wordBound
  restarts_lt : s.stats.restarts < wordBound
  stall_lt : s.stall < wordBound

omit [Generator σ] in
theorem checkedMove_eq {s : Solver σ} {i target : Nat} {source : Source σ}
    (h : (s.move i target source).Fits) :
    s.checkedMove i target source = .ok (s.move i target source) := by
  unfold checkedMove
  rw [checkedAdd_eq_ok_iff.2 ⟨h.stall_lt, rfl⟩, checkedAdd_eq_ok_iff.2 ⟨h.iterations_lt, rfl⟩,
    checkedAdd_eq_ok_iff.2 ⟨h.moves_lt, rfl⟩]
  rfl

theorem checkedRestart_eq {s : Solver σ} (h : s.restart.stats.restarts < wordBound) :
    s.checkedRestart = .ok s.restart := by
  unfold checkedRestart
  rw [checkedAdd_eq_ok_iff.2 ⟨h, rfl⟩]
  rfl

omit [Generator σ] in
theorem checkedSpend_eq {s : Solver σ} (h : s.spend.stats.iterations < wordBound) :
    s.checkedSpend = .ok s.spend := by
  unfold checkedSpend
  rw [checkedAdd_eq_ok_iff.2 ⟨h, rfl⟩]
  rfl

/-- A step whose result fits does not fault. -/
theorem checkedStep_eq {s : Solver σ} (h : s.step.2.Fits) : s.checkedStep = .ok s.step := by
  have hs := s.stepped
  generalize s.step = r at h hs ⊢
  unfold checkedStep
  cases hs with
  | spent budget => rw [if_pos budget]
  | falsified budget fitness => rw [if_neg (Nat.not_le.2 budget), if_pos fitness]
  | constant budget fitness vars =>
    rw [if_neg (Nat.not_le.2 budget), if_neg fitness, if_pos vars]
  | stalled budget fitness vars stall =>
    rw [if_neg (Nat.not_le.2 budget), if_neg fitness, if_neg vars, if_pos stall,
      checkedRestart_eq h.restarts_lt]
    rfl
  | moved budget fitness vars stall best =>
    rw [if_neg (Nat.not_le.2 budget), if_neg fitness, if_neg vars, if_neg (Nat.not_lt.2 stall),
      best]
    show (s.checkedMove (s.source.pick _ _).1 _ (s.source.pick _ _).2 >>= _) = _
    rw [checkedMove_eq h]
    rfl
  | stuck budget fitness vars stall best =>
    rw [if_neg (Nat.not_le.2 budget), if_neg fitness, if_neg vars, if_neg (Nat.not_lt.2 stall)]
    split
    · next hbest => exact absurd hbest (best _ _ _)
    · rw [checkedRestart_eq h.restarts_lt]
      show (s.restart.checkedSpend >>= _) = _
      rw [checkedSpend_eq h.iterations_lt]
      rfl

omit [Generator σ] in
/-- Where the budget is a word, all counters are. -/
theorem Accounts.fits {config : Config} {made : List Step} {s : Solver σ}
    (h : s.Accounts config made) (hword : config.maxIterations < wordBound) : s.Fits := by
  obtain ⟨hiterations, hmoves, hrestarts, hstall⟩ := h.counters_le
  constructor <;> grind

/-! ### Giving up -/

theorem ends_of_vars_isEmpty {s : Solver σ} (h : s.landscape.vars.isEmpty = true) :
    s.step.1.ends = true := by
  have hs := s.stepped
  generalize s.step = r at hs ⊢
  cases hs with
  | spent | falsified | constant => rfl
  | stalled _ _ vars | moved _ _ vars | stuck _ _ vars => exact absurd h vars

/-- Where there is nothing to vary, a search stays where it begins. -/
theorem after_initial_of_vars_eq_nil {f : Dnf} (hvars : f.vars = []) (config : Config)
    (source : Source σ) (n : Nat) :
    (initial f config source).after n = initial f config source := by
  have hempty : (initial f config source).landscape.vars.isEmpty = true := by
    show f.vars.toArray.isEmpty = true
    rw [hvars]
    rfl
  exact (final_of_ends (ends_of_vars_isEmpty hempty)).after_eq n

/-- A search gives up only when its iterations are spent, or at once when there is nothing to
vary. -/
theorem iterations_of_gives_up {f : Dnf} {config : Config} {source : Source σ} {n : Nat}
    {t : Solver σ} (h : ((initial f config source).after n).solve = (.budgetExhausted, t)) :
    t.stats.iterations = config.maxIterations ∨ f.vars = [] ∧ t.stats = ⟨0, 0, 0⟩ := by
  obtain ⟨k, rfl, hspent | hempty⟩ := of_solve_eq_budgetExhausted h
  · have haccounts := ((accounts_initial f config source).after n).after k
    left
    rw [haccounts.config_eq] at hspent
    exact Nat.le_antisymm haccounts.iterations_le hspent
  · have hsound := ((sound_initial f config source).after n).after k
    have hvars : f.vars = [] := by
      rw [hsound.landscape_eq] at hempty
      simpa [Landscape.ofDnf] using hempty
    right
    refine ⟨hvars, ?_⟩
    -- The state in which the search gives up is the one in which it began.
    rw [← after_add, after_initial_of_vars_eq_nil hvars]
    rfl

/-! ### Every run -/

/-- **The budget is kept.** In every state that a search comes to, a run ends in time, the books are
right, and no counter overflows in the next step. A step or a run that ends the search puts an end to
all change, and to give up means that the iterations are spent or that there is nothing to vary. -/
theorem solve_within_budget {f : Dnf} {config : Config} (source : Source σ) (hf : f.clauses ≠ [])
    (hc : config.check = .ok ()) :
    ∃ s, start f config source = .ok s ∧ ∀ n,
      (s.after n).calls ≤
        config.maxIterations + config.maxIterations / (config.maxStall + 1) + 1 ∧
      (s.after n).Accounts config (s.steps n) ∧
      (config.maxIterations < wordBound → (s.after n).checkedStep = .ok (s.after n).step) ∧
      ((s.after n).step.1.ends = true →
        (s.after n).Final ((s.after n).outcome (s.after n).step.1)) ∧
      ∀ o t, (s.after n).solve = (o, t) → (∃ k, t = s.after k) ∧ t.Final o ∧
        (o = .budgetExhausted →
          t.stats.iterations = config.maxIterations ∨ f.vars = [] ∧ t.stats = ⟨0, 0, 0⟩) := by
  refine ⟨_, start_eq source hf hc, ?_⟩
  intro n
  have haccounts := (accounts_initial f config source).after n
  refine ⟨haccounts.calls_le, haccounts, ?_, final_of_ends, ?_⟩
  · intro hword
    exact checkedStep_eq (haccounts.step.fits hword)
  · intro o t hsolve
    refine ⟨?_, final_of_solve hsolve, ?_⟩
    · obtain ⟨k, rfl, -⟩ := solve_eq_iff.1 hsolve
      exact ⟨n + k, (after_add _ n k).symm⟩
    · rintro rfl
      exact iterations_of_gives_up hsolve

/-- A search on a tautology starts afresh until its iterations are spent. -/
theorem final_of_excluded_middle :
    ∃ s, start ⟨[[.pos 1], [.neg 1]]⟩ ⟨3, 2⟩ (Source.fresh (Listed.ofWords [0, 4294967295])) =
      .ok s ∧ s.calls ≤ 5 ∧ (s.after 3).stats.restarts = 3 ∧ (s.after 3).Final .budgetExhausted := by
  obtain ⟨s, hs, h⟩ := solve_within_budget (f := ⟨[[.pos 1], [.neg 1]]⟩)
    (Source.fresh (Listed.ofWords [0, 4294967295])) (by decide)
    (show Config.check ⟨3, 2⟩ = .ok () from rfl)
  refine ⟨s, hs, (h 0).1, ?_⟩
  have hstate := (h 3).2
  obtain rfl := Except.ok.inj hs
  exact ⟨hstate.1.restarts_eq, hstate.2.2.1 (by decide)⟩

end Solver
end Falsifier.Search
