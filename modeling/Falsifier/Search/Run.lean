import Falsifier.Search.Solver

/-!
# Running a search

A search is run to its end with `solve`, or for a number of steps with `advance`. Both come in a
form that shows every step to an observer, from which logs and traces are made.

A run ends because of its `allowance`: every step that goes on either spends an iteration, or is a
start forced by too many moves, which sets the count of moves back to zero.
-/

namespace Falsifier.Search

open Sampling

inductive Outcome where
  | falsified (model : Model)
  | budgetExhausted
deriving DecidableEq

namespace Solver

variable {σ : Type}

/-- One while the next start is forced, and zero otherwise. -/
def forced (s : Solver σ) : Nat :=
  if s.config.maxStall < s.stall then 1 else 0

theorem forced_le_one (s : Solver σ) : s.forced ≤ 1 := by
  unfold forced
  split <;> omega

/-- An upper bound on the steps that are left: two for each iteration that may still be spent, and
one more while a start is forced. -/
def allowance (s : Solver σ) : Nat :=
  2 * (s.config.maxIterations - s.stats.iterations) + s.forced

variable [Generator σ]

/-- A step that does not end the search uses up some of the allowance. -/
theorem allowance_step_lt {s : Solver σ} (h : s.step.1.ends = false) :
    s.step.2.allowance < s.allowance := by
  have hs := s.stepped
  generalize s.step = r at h hs ⊢
  cases hs with
  | spent => cases h
  | falsified => cases h
  | constant => cases h
  | stalled budget fitness vars stall =>
      simp [allowance, forced, restart, stall]
  | @moved budget _ _ _ target first others _ =>
      have := forced_le_one (s.move (s.source.pick first others).1 target
        (s.source.pick first others).2)
      simp only [allowance, move] at this ⊢
      omega
  | stuck budget =>
      have := forced_le_one s.restart.spend
      simp only [allowance, restart, spend] at this ⊢
      omega

/-- Run a search to its end, and show the observer every step with the states before and after. The
result is what the observer made of it, the last step and the last state. -/
def runWith {α : Type} (note : α → Solver σ → Step → Solver σ → α) (a : α) (s : Solver σ) :
    α × Step × Solver σ :=
  let next := s.step
  let a := note a s next.1 next.2
  if next.1.ends then (a, next) else runWith note a next.2
termination_by s.allowance
decreasing_by exact allowance_step_lt (Bool.eq_false_iff.2 ‹¬_›)

/-- Make at most `n` steps, fewer if the search ends before, and show them to the observer. -/
def advanceWith {α : Type} (note : α → Solver σ → Step → Solver σ → α) (a : α) :
    Nat → Solver σ → α × Solver σ
  | 0, s => (a, s)
  | n + 1, s =>
    let next := s.step
    let a := note a s next.1 next.2
    if next.1.ends then (a, next.2) else advanceWith note a n next.2

/-- Make at most `n` steps, fewer if the search ends before. -/
def advance (n : Nat) (s : Solver σ) : Solver σ :=
  (advanceWith (fun _ _ _ _ => ()) () n s).2

/-- The outcome of a search whose last step and state are given. -/
def outcome (last : Step) (s : Solver σ) : Outcome :=
  if last = .falsified then .falsified s.model else .budgetExhausted

def solve (s : Solver σ) : Outcome × Solver σ :=
  let (_, last, s) := runWith (fun _ _ _ _ => ()) () s
  (s.outcome last, s)

/-! ### Logs -/

/-- Add the message about a step to a log. -/
def log (messages : Array Message) (before : Solver σ) (step : Step) (_ : Solver σ) :
    Array Message :=
  match step.message? before with
  | some m => messages.push m
  | none => messages

/-- The message that reports the end of a search. -/
def endMessage (s : Solver σ) : Outcome → Message
  | .falsified _ =>
    ⟨.debug, s!"falsified after {s.stats.iterations} iterations and {s.stats.restarts} restarts"⟩
  | .budgetExhausted =>
    ⟨.debug, s!"gave up after {s.stats.iterations} iterations and {s.stats.restarts} restarts"⟩

/-- Run a search to its end, and add what is reported about it to a log. -/
def solveLogged (messages : Array Message) (s : Solver σ) : Array Message × Outcome × Solver σ :=
  let (messages, last, s) := runWith log messages s
  let outcome := s.outcome last
  (messages.push (s.endMessage outcome), outcome, s)

end Solver

def falsify {σ : Type} [Generator σ] (f : Dnf) (config : Config) (source : Source σ) :
    Except SolveError (Outcome × Solver σ) :=
  (Solver.start f config source).map Solver.solve

end Falsifier.Search
