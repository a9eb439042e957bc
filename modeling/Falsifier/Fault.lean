/-!
# Faults

A *fault* is a failure inside a computation whose input was not rejected: a literal is evaluated
under an assignment that leaves its variable unbound, a number leaves the range of its machine word,
a row of entries has no room in any memory or is read beyond its end, a variable is looked up in a
list that does not have it, a range of doubles has no numbers or no end, or a computation ends with
an error that was ruled out. Rejected inputs are not faults; they have error types of their own, next
to the functions that reject them.
-/

namespace Falsifier

/-- The arithmetic operations whose result may leave its 64-bit word. A word is shifted by less than its width. -/
inductive Operation where
  | negate
  | add
  | subtract
  | multiply
  | shiftLeft
deriving DecidableEq

namespace Operation

def name : Operation → String
  | negate => "negate"
  | add => "add"
  | subtract => "subtract"
  | multiply => "multiply"
  | shiftLeft => "shift left"

end Operation

/-- A failure inside a computation. -/
inductive Fault where
  /-- The literal with this signed number was evaluated, but its variable has no value. -/
  | unbound (literal : Int)
  /-- The result of this operation does not fit its word. -/
  | overflow (operation : Operation)
  /-- A row of entries takes more bytes than a memory can have. -/
  | capacity
  /-- A row of this length has no entry at this index. -/
  | outOfBounds (index length : Nat)
  /-- The variable is not in the list of variables. -/
  | missing (v : Nat)
  /-- The upper end of a range of doubles is not above its lower end. One of them may be no number. -/
  | emptyRange
  /-- An end of a range of doubles is not finite. -/
  | endlessRange
  /-- The result is the error of this name, although something else was expected of it. -/
  | unexpected (expectation error : String)
deriving DecidableEq

namespace Fault

def message : Fault → String
  | unbound x => s!"cannot evaluate literal {x} under a partial assignment"
  | overflow op => s!"attempt to {op.name} with overflow"
  | capacity => "capacity overflow"
  | outOfBounds index length =>
    s!"index out of bounds: the len is {length} but the index is {index}"
  | missing v => s!"variable {v} missing from the variable set"
  | emptyRange => "Uniform::new called with `low >= high`"
  | endlessRange => "Uniform::new called with non-finite boundaries"
  | unexpected expectation error => s!"{expectation}: {error}"

end Fault

end Falsifier
