import Falsifier.Proofs.Sampling.Position
import Falsifier.Proofs.Search.Budget
import Mathlib.Algebra.BigOperators.Group.List.Basic
import Mathlib.Algebra.GroupWithZero.Nat

/-!
# The draws of the local search

A search draws a value for each variable whenever it starts, and it draws to choose among equally good
neighbours whenever it moves. Nothing else is drawn: not by a search that is refused, and not by a step
that ends a search. So the books of a search tell how far it has gone in its source
(`Solver.Drawn`), and with it where those go on who use the source after it
(`Solver.drawn_by_searches`).
-/

namespace Falsifier.Search.Solver

open Sampling

variable {σ : Type}

/-- The neighbours among which the next move is chosen, by their positions. -/
def tied (s : Solver σ) : List Nat :=
  match s.landscape.bestFlips? s.values s.fitness with
  | some (_, positions) => positions
  | none => []

theorem tied_eq {s : Solver σ} {target : Nat} {positions : List Nat}
    (h : s.landscape.bestFlips? s.values s.fitness = some (target, positions)) :
    s.tied = positions := by
  rw [tied, h]

variable [Generator σ]

/-! ### A step -/

/-- What a step with this result does to the source. -/
def Draws (s : Solver σ) (source : Source σ) : Step → Prop
  | .falsified | .budgetExhausted => source = s.source
  | .restarted _ => source = s.source.skip s.landscape.vars.size
  | .moved position _ _ =>
    s.tied[(s.source.choose s.tied.length).1]? = some position ∧
      source = (s.source.choose s.tied.length).2

theorem source_restart (s : Solver σ) : s.restart.source = s.source.skip s.landscape.vars.size :=
  Source.takes_bools _ _

theorem draws_step (s : Solver σ) : s.Draws s.step.2.source s.step.1 := by
  have hs := s.stepped
  generalize s.step = r at hs ⊢
  cases hs with
  | spent | falsified | constant => rfl
  | stalled | stuck => exact s.source_restart
  | moved _ _ _ _ best =>
    unfold Draws
    rw [tied_eq best]
    exact ⟨List.getElem?_eq_getElem _, rfl⟩

/-- The words that the next step draws to choose its move, if it makes one. -/
def choice (s : Solver σ) : List Nat :=
  match s.step.1 with
  | .moved _ _ _ => [s.source.choiceWords s.tied.length]
  | .falsified | .restarted _ | .budgetExhausted => []

/-- The words drawn for each of the moves among the first `n` steps. -/
def choices (s : Solver σ) : Nat → List Nat
  | 0 => []
  | n + 1 => s.choices n ++ (s.after n).choice

/-! ### The books -/

/-- What a search over the variables has drawn from its source: a value for each of them at every
start, and the words in `choices`, some for each move. -/
structure Drawn (vars : List Var) (source : Source σ) (choices : List Nat) (s : Solver σ) : Prop where
  size_vars : s.landscape.vars.size = vars.length
  source_eq : s.source = source.skip (vars.length * (1 + s.stats.restarts) + choices.sum)
  length_choices : choices.length = s.stats.moves
  one_le : ∀ words ∈ choices, 1 ≤ words

theorem drawn_initial (f : Dnf) (config : Config) (source : Source σ) :
    (initial f config source).Drawn f.vars source [] where
  size_vars := rfl
  source_eq := by
    show (source.bools f.vars.length).2 = source.skip (f.vars.length * (1 + 0) + 0)
    rw [Nat.add_zero, Nat.add_zero, Nat.mul_one]
    exact Source.takes_bools _ _
  length_choices := rfl
  one_le := by simp

namespace Drawn

variable {vars : List Var} {source : Source σ} {choices : List Nat} {s : Solver σ}

theorem spend (h : s.Drawn vars source choices) : s.spend.Drawn vars source choices :=
  ⟨h.size_vars, h.source_eq, h.length_choices, h.one_le⟩

theorem restart (h : s.Drawn vars source choices) : s.restart.Drawn vars source choices where
  size_vars := h.size_vars
  source_eq := by
    rw [source_restart, h.size_vars, h.source_eq, ← Source.skip_add]
    congr 1
    simp only [Solver.restart]
    grind
  length_choices := h.length_choices
  one_le := h.one_le

theorem move (h : s.Drawn vars source choices) (ties position target : Nat) :
    (s.move position target (s.source.choose ties).2).Drawn vars source
      (choices ++ [s.source.choiceWords ties]) where
  size_vars := h.size_vars
  source_eq := by
    show (s.source.choose ties).2 = source.skip (vars.length * (1 + s.stats.restarts) + _)
    rw [(Source.choose_snd ties s.source).2, List.sum_append, List.sum_singleton, ← Nat.add_assoc,
      Source.skip_add, ← h.source_eq]
  length_choices := by
    rw [List.length_append, h.length_choices]
    rfl
  one_le := by
    intro words hwords
    rcases List.mem_append.1 hwords with hwords | hwords
    · exact h.one_le words hwords
    · rw [List.mem_singleton.1 hwords]
      exact (Source.choose_snd ties s.source).1

theorem step (h : s.Drawn vars source choices) :
    s.step.2.Drawn vars source (choices ++ s.choice) := by
  have hs := s.stepped
  unfold choice
  generalize s.step = r at hs ⊢
  cases hs with
  | spent | falsified | constant => simpa using h
  | stalled => simpa using h.restart
  | moved _ _ _ _ best =>
    rw [tied_eq best]
    exact h.move _ _ _
  | stuck => simpa using h.restart.spend

theorem after (h : s.Drawn vars source choices) (n : Nat) :
    (s.after n).Drawn vars source (choices ++ s.choices n) := by
  induction n with
  | zero =>
    rw [Solver.choices, List.append_nil]
    exact h
  | succ n ih =>
    rw [Solver.choices, ← List.append_assoc]
    exact ih.step

theorem drawn_eq (h : s.Drawn vars source choices) :
    s.source.drawn = source.drawn + vars.length * (1 + s.stats.restarts) + choices.sum := by
  rw [h.source_eq, Source.drawn_skip, Nat.add_assoc]

/-- A move takes a word at least. -/
theorem moves_le (h : s.Drawn vars source choices) :
    source.drawn + vars.length * (1 + s.stats.restarts) + s.stats.moves ≤ s.source.drawn := by
  rw [h.drawn_eq, ← h.length_choices]
  apply Nat.add_le_add_left
  exact List.length_le_sum_of_one_le choices h.one_le

end Drawn

/-! ### Searches with a shared source -/

/-- Begin a search with a shared source. -/
def startShared (f : Dnf) (config : Config) : Shared σ SolveError (Solver σ) := do
  if let .error e := config.check then throw (.config e)
  if f.clauses.isEmpty then throw .emptyFormula
  let landscape := Landscape.ofDnf f
  let bits ← Shared.draw (Source.bools landscape.vars.size)
  let current := bits.toArray
  return {
    landscape
    config
    current
    fitness := landscape.fitness (valuesOf current)
    stall := 0
    stats := ⟨0, 0, 0⟩
    source := ← get }

/-- Search with a shared source, which the others get back as the last step leaves it. -/
def falsifyShared (f : Dnf) (config : Config) : Shared σ SolveError (Outcome × Solver σ) := do
  let s ← startShared f config
  let result := s.solve
  set result.2.source
  return result

theorem run_startShared (f : Dnf) (config : Config) (source : Source σ) :
    (startShared f config).run source = match start f config source with
      | .error e => (.error e, source)
      | .ok s => (.ok s, s.source) := by
  unfold startShared start
  cases config.check with
  | error e => rfl
  | ok =>
    cases f.clauses.isEmpty with
    | true => rfl
    | false => rfl

theorem run_falsifyShared (f : Dnf) (config : Config) (source : Source σ) :
    (falsifyShared f config).run source = match start f config source with
      | .error e => (.error e, source)
      | .ok s => (.ok s.solve, s.solve.2.source) := by
  have hstart := run_startShared f config source
  unfold falsifyShared
  cases h : start f config source with
  | error e =>
    rw [h] at hstart
    rw [Shared.run_bind_of_error hstart]
  | ok s =>
    rw [h] at hstart
    rw [Shared.run_bind_of_ok hstart]
    rfl

/-- After its calls a run is at its end. -/
theorem after_calls (s : Solver σ) : s.after s.calls = s.solve.2 := by
  obtain ⟨n, hcalls, hends, hbefore⟩ := s.exists_calls
  rw [hcalls, solve_eq_of_after hends hbefore]
  exact step_snd_of_ends hends

/-- How many words a search draws, by its books. -/
def wordsDrawn (f : Dnf) (config : Config) (source : Source σ) : Nat :=
  match start f config source with
  | .error _ => 0
  | .ok s => f.vars.length * (1 + s.solve.2.stats.restarts) + (s.choices s.calls).sum

/-- A search with a shared source gives what it gives with one of its own, and takes the words that its
books show. -/
theorem run_falsifyShared_eq (f : Dnf) (config : Config) (source : Source σ) :
    (falsifyShared f config).run source =
      (falsify f config source, source.skip (wordsDrawn f config source)) := by
  rw [run_falsifyShared, falsify, wordsDrawn]
  cases h : start f config source with
  | error e => rfl
  | ok s =>
    obtain ⟨-, -, rfl⟩ := eq_initial_of_start h
    have hdrawn := (drawn_initial f config source).after (initial f config source).calls
    rw [after_calls] at hdrawn
    exact Prod.ext rfl hdrawn.source_eq

/-- Searches one after the other with one source. One that is refused does not keep those after it
from their turn. -/
def searches (requests : List (Dnf × Config)) :
    StateM (Source σ) (List (Except SolveError (Outcome × Solver σ))) :=
  requests.mapM fun (f, config) => (falsifyShared f config).run

/-- How many words the searches draw in all. -/
def wordsOf (source : Source σ) : List (Dnf × Config) → Nat
  | [] => 0
  | (f, config) :: requests =>
    let words := wordsDrawn f config source
    words + wordsOf (source.skip words) requests

theorem run_searches (requests : List (Dnf × Config)) (source : Source σ) :
    ∃ results, (searches requests).run source = (results, source.skip (wordsOf source requests)) ∧
      results.length = requests.length ∧
      ∀ k f config, requests[k]? = some (f, config) →
        results[k]? = some (falsify f config (source.skip (wordsOf source (requests.take k)))) := by
  induction requests generalizing source with
  | nil => exact ⟨[], rfl, rfl, by simp⟩
  | cons request requests ih =>
    obtain ⟨f, config⟩ := request
    obtain ⟨results, hrun, hlength, hresults⟩ := ih (source.skip (wordsDrawn f config source))
    refine ⟨falsify f config source :: results, ?_, by simp [hlength], ?_⟩
    · have hfirst : StateT.run (falsifyShared f config).run source =
          pure (falsify f config source, source.skip (wordsDrawn f config source)) :=
        run_falsifyShared_eq f config source
      rw [searches, List.mapM_cons, StateT.run_bind, hfirst, pure_bind, StateT.run_bind]
      rw [searches] at hrun
      rw [hrun, wordsOf, Source.skip_add]
      rfl
    · intro k g config' hk
      cases k with
      | zero =>
        cases hk
        rfl
      | succ k =>
        have hlater := hresults k g config' hk
        rw [← Source.skip_add] at hlater
        exact hlater

/-- **The use of the source.** Settings are refused before formulas, and a search that is refused draws
nothing. In every state of one that is not, the words drawn are those for the values at each start and
for the choice of each move, and every step draws what its result tells. So, where searches share a
source, each begins after the words that the books of those before it show. -/
theorem drawn_by_searches (source : Source σ) :
    (∀ f config,
      (∀ e, config.check = .error e → start f config source = .error (.config e)) ∧
      (config.check = .ok () → f.clauses = [] → start f config source = .error .emptyFormula) ∧
      (∀ e, start f config source = .error e →
        (startShared f config).run source = (.error e, source) ∧
        (falsifyShared f config).run source = (.error e, source)) ∧
      ∀ s, start f config source = .ok s →
        (startShared f config).run source = (.ok s, s.source) ∧
        (falsifyShared f config).run source = (.ok s.solve, s.solve.2.source) ∧
        (∃ k, s.solve.2 = s.after k) ∧
        ∀ n,
          (s.after n).Drawn f.vars source (s.choices n) ∧
          (s.after n).source.drawn = source.drawn +
            f.vars.length * (1 + (s.after n).stats.restarts) + (s.choices n).sum ∧
          source.drawn + f.vars.length * (1 + (s.after n).stats.restarts) + (s.after n).stats.moves ≤
            (s.after n).source.drawn ∧
          (s.after n).Draws (s.after n).step.2.source (s.after n).step.1) ∧
    ∀ requests, ∃ results,
      (searches requests).run source = (results, source.skip (wordsOf source requests)) ∧
      results.length = requests.length ∧
      ∀ k f config, requests[k]? = some (f, config) →
        results[k]? = some (falsify f config (source.skip (wordsOf source (requests.take k)))) := by
  refine ⟨fun f config => ⟨?_, ?_, ?_, ?_⟩, fun requests => run_searches requests source⟩
  · intro e he
    rw [start, he]
  · intro hc hf
    rw [start, hc, hf]
    rfl
  · intro e he
    constructor
    · rw [run_startShared, he]
    · rw [run_falsifyShared, he]
  · intro s hs
    refine ⟨?_, ?_, ⟨s.calls, s.after_calls.symm⟩, ?_⟩
    · rw [run_startShared, hs]
    · rw [run_falsifyShared, hs]
    · intro n
      obtain ⟨-, -, rfl⟩ := eq_initial_of_start hs
      have hdrawn := (drawn_initial f config source).after n
      exact ⟨hdrawn, hdrawn.drawn_eq, hdrawn.moves_le, draws_step _⟩

/-- Two words for the first values, and two for the choice of the only move, of which the first is
refused. -/
theorem drawn_after_refused_word :
    ∃ s, start ⟨[[.pos 1, .pos 3], [.neg 1]]⟩ ⟨3, 2⟩
        (Source.fresh (Listed.ofWords [4294967295, 4294967295, 4294967295, 0])) = .ok s ∧
      s.choices 1 = [2] ∧
      (s.after 1).source =
        (Source.fresh (Listed.ofWords [4294967295, 4294967295, 4294967295, 0])).skip 4 := by
  refine ⟨_, rfl, by decide, ?_⟩
  obtain ⟨-, -, -, hafter⟩ := ((drawn_by_searches (Source.fresh (Listed.ofWords
    [4294967295, 4294967295, 4294967295, 0]))).1 ⟨[[.pos 1, .pos 3], [.neg 1]]⟩ ⟨3, 2⟩).2.2.2 _ rfl
  rw [(hafter 1).1.source_eq]
  congr 1

end Falsifier.Search.Solver
