import Falsifier.Formula.Basic
import Falsifier.Sampling.Weights

/-!
# Random formulas

A random clause lets each of the variables 1 to `n` fall into a slot, in order. A random formula is
made of a fixed number of random clauses, of which the empty ones are dropped. One 64-bit draw is
made for each clause and variable, whatever is dropped.
-/

namespace Falsifier.Sampling

variable {σ : Type} [Generator σ]

namespace Slot

/-- The literal of a variable that falls into the slot, if it occurs. -/
def literal? (v : Var) : Slot → Option Literal
  | positive => some (.pos v)
  | negative => some (.neg v)
  | absent => none

end Slot

/-- The clause in which the variables from 1 on fall into the given slots. -/
def clauseOfSlots (slots : List Slot) : Clause :=
  slots.zipIdx.filterMap fun (slot, i) => slot.literal? (i + 1)

/-- Draw a clause over the variables 1 to `n`. -/
def drawClause (d : Sampler) (n : Nat) (s : Source σ) : Clause × Source σ :=
  let (slots, s) := s.collect d.draw n
  (clauseOfSlots slots, s)

/-- Draw a formula of at most `count` clauses over the variables 1 to `n`. -/
def drawDnf (d : Sampler) (n count : Nat) (s : Source σ) : Dnf × Source σ :=
  let (clauses, s) := s.collect (drawClause d n) count
  (⟨clauses.filter (!·.isEmpty)⟩, s)

/-- Draw a formula with the given weights. Nothing is drawn when these cannot be made ready. -/
def dnfWithWeights (w : Weights) (n count : Nat) (s : Source σ) :
    Except WeightFailure (Dnf × Source σ) :=
  (Sampler.ofWeights w).map fun d => drawDnf d n count s

/-- Draw a formula with weights chosen from the table, of which it is expected that they are
accepted. -/
def dnf (n count : Nat) (s : Source σ) : Except Fault (Dnf × Source σ) :=
  let choice := s.choose Weights.table.length
  let w := Weights.table.get ⟨choice.1, Source.choose_lt (by decide) s⟩
  (dnfWithWeights w n count choice.2).mapError (·.unexpected "weight table entries are positive")

end Falsifier.Sampling
