import Falsifier.Message
import Falsifier.Model
import Falsifier.Sampling.Source
import Falsifier.Search.Config
import Falsifier.Search.Landscape

/-!
# Local search

The search climbs towards an assignment that falsifies every clause. It starts from random values
and moves, as long as some neighbour is strictly better, to a best neighbour, chosen at random
among those that are equally good. Where no neighbour is better, and after more moves than the
settings allow, it starts afresh from new random values.

One iteration is spent on every move and on every fresh start for want of a better neighbour. A
start that is forced after too many moves is free, since the moves before it have been paid for.
-/

namespace Falsifier.Search

open Sampling

inductive Reason where
  /-- More moves were made since the last start than are allowed. -/
  | stalled
  /-- No neighbour is better. -/
  | noImprovingMove
deriving DecidableEq

inductive Step where
  | falsified
  | restarted (reason : Reason)
  /-- The value at a position was changed, which took the fitness from `source` to `target`. -/
  | moved (position source target : Nat)
  /-- The iterations are spent, or there is nothing to vary. -/
  | budgetExhausted
deriving DecidableEq

namespace Step

def ends : Step → Bool
  | falsified | budgetExhausted => true
  | restarted _ | moved _ _ _ => false

end Step

/-- What a search has done so far. -/
structure Stats where
  iterations : Nat
  restarts : Nat
  moves : Nat
deriving DecidableEq

/-- A local search in progress. -/
structure Solver (σ : Type) where
  landscape : Landscape
  config : Config
  /-- The present values by position. -/
  current : Array Bool
  /-- How many clauses the present values leave true. -/
  fitness : Nat
  /-- How many moves were made since the last start. -/
  stall : Nat
  stats : Stats
  source : Source σ

/-- Read values off an array. -/
def valuesOf (current : Array Bool) (i : Nat) : Bool :=
  current.getD i false

namespace Solver

variable {σ : Type}

/-- The present values by position. -/
def values (s : Solver σ) : Nat → Bool :=
  valuesOf s.current

def model (s : Solver σ) : Model :=
  ⟨s.landscape.vars.toList.zipWith Literal.ofValue s.current.toList⟩

/-- Change the value at a position, for the given fitness; this is one move and one iteration. -/
def move (s : Solver σ) (position target : Nat) (source : Source σ) : Solver σ :=
  { s with
    current := s.current.modify position (!·)
    fitness := target
    stall := s.stall + 1
    stats := { s.stats with
      iterations := s.stats.iterations + 1
      moves := s.stats.moves + 1 }
    source }

variable [Generator σ]

def restart (s : Solver σ) : Solver σ :=
  let (bits, source) := s.source.bools s.landscape.vars.size
  let current := bits.toArray
  { s with
    current
    fitness := s.landscape.fitness (valuesOf current)
    stall := 0
    stats := { s.stats with restarts := s.stats.restarts + 1 }
    source }

def spend (s : Solver σ) : Solver σ :=
  { s with stats := { s.stats with iterations := s.stats.iterations + 1 } }

/-- The state in which a search begins: random values, and nothing done so far. -/
def initial (f : Dnf) (config : Config) (source : Source σ) : Solver σ :=
  let landscape := Landscape.ofDnf f
  let (bits, source) := source.bools landscape.vars.size
  let current := bits.toArray
  { landscape
    config
    current
    fitness := landscape.fitness (valuesOf current)
    stall := 0
    stats := ⟨0, 0, 0⟩
    source }

/-- Begin a search. The settings are checked first, then the formula; nothing is drawn when either
is refused. -/
def start (f : Dnf) (config : Config) (source : Source σ) : Except SolveError (Solver σ) :=
  match config.check with
  | .error e => .error (.config e)
  | .ok () =>
    if f.clauses.isEmpty then .error .emptyFormula else .ok (initial f config source)

/-- Make one step. The budget is looked at first, then the fitness, then whether there is anything
to vary, then the moves since the last start. -/
def step (s : Solver σ) : Step × Solver σ :=
  if s.config.maxIterations ≤ s.stats.iterations then (.budgetExhausted, s)
  else if s.fitness = 0 then (.falsified, s)
  else if s.landscape.vars.isEmpty then (.budgetExhausted, s)
  else if s.config.maxStall < s.stall then (.restarted .stalled, s.restart)
  else match s.landscape.bestFlips? s.values s.fitness with
    | some (target, first :: others) =>
      let (position, source) := s.source.pick first others
      (.moved position s.fitness target, s.move position target source)
    | _ => (.restarted .noImprovingMove, s.restart.spend)

/-- The state after `n` steps, whatever their results. -/
def after (s : Solver σ) : Nat → Solver σ
  | 0 => s
  | n + 1 => (s.after n).step.2

/-! ### What a step can do -/

/-- The possible results of a step with the states after them, each under the condition that leads
to it. A condition comes after the failure of all those before it. -/
inductive Stepped (s : Solver σ) : Step × Solver σ → Prop where
  | spent (budget : s.config.maxIterations ≤ s.stats.iterations) :
      Stepped s (.budgetExhausted, s)
  | falsified (budget : s.stats.iterations < s.config.maxIterations) (fitness : s.fitness = 0) :
      Stepped s (.falsified, s)
  | constant (budget : s.stats.iterations < s.config.maxIterations) (fitness : s.fitness ≠ 0)
      (vars : s.landscape.vars.isEmpty) : Stepped s (.budgetExhausted, s)
  | stalled (budget : s.stats.iterations < s.config.maxIterations) (fitness : s.fitness ≠ 0)
      (vars : ¬ s.landscape.vars.isEmpty) (stall : s.config.maxStall < s.stall) :
      Stepped s (.restarted .stalled, s.restart)
  | moved (budget : s.stats.iterations < s.config.maxIterations) (fitness : s.fitness ≠ 0)
      (vars : ¬ s.landscape.vars.isEmpty) (stall : s.stall ≤ s.config.maxStall)
      {target first : Nat} {others : List Nat}
      (best : s.landscape.bestFlips? s.values s.fitness = some (target, first :: others)) :
      Stepped s (.moved (s.source.pick first others).1 s.fitness target,
        s.move (s.source.pick first others).1 target (s.source.pick first others).2)
  | stuck (budget : s.stats.iterations < s.config.maxIterations) (fitness : s.fitness ≠ 0)
      (vars : ¬ s.landscape.vars.isEmpty) (stall : s.stall ≤ s.config.maxStall)
      (best : ∀ target first others,
        s.landscape.bestFlips? s.values s.fitness ≠ some (target, first :: others)) :
      Stepped s (.restarted .noImprovingMove, s.restart.spend)

theorem stepped (s : Solver σ) : Stepped s s.step := by
  unfold step
  by_cases budget : s.config.maxIterations ≤ s.stats.iterations
  · rw [if_pos budget]
    exact .spent budget
  rw [if_neg budget]
  rw [Nat.not_le] at budget
  by_cases fitness : s.fitness = 0
  · rw [if_pos fitness]
    exact .falsified budget fitness
  rw [if_neg fitness]
  by_cases vars : s.landscape.vars.isEmpty
  · rw [if_pos vars]
    exact .constant budget fitness vars
  rw [if_neg vars]
  by_cases stall : s.config.maxStall < s.stall
  · rw [if_pos stall]
    exact .stalled budget fitness vars stall
  rw [if_neg stall]
  rw [Nat.not_lt] at stall
  split
  · next best => exact .moved budget fitness vars stall best
  · next best => exact .stuck budget fitness vars stall best

end Solver

/-! ### Messages -/

namespace Reason

def name : Reason → String
  | stalled => "Stalled"
  | noImprovingMove => "NoImprovingMove"

end Reason

/-- What is reported about a step that goes on, given the state it was made from. -/
def Step.message? {σ : Type} (s : Solver σ) : Step → Option Message
  | restarted reason => some ⟨.debug,
      s!"restart ({reason.name}) at iteration {s.stats.iterations} with {s.fitness} surviving clauses"⟩
  | moved position source target => some ⟨.trace,
      s!"flip {s.landscape.vars.getD position 0} ({source} -> {target} surviving clauses)"⟩
  | falsified | budgetExhausted => none

end Falsifier.Search
