import Falsifier.Hard.Ordering
import Falsifier.Hard.Parity
import Falsifier.Hard.Pigeonhole

/-!
# Hard families

Three families of formulas that cannot be satisfied, although no small part of them shows it. Their
negations are tautologies that take a search long to recognise. The catalogue lists members that are
small enough to be checked by trying every assignment.
-/

namespace Falsifier

/-- A member of one of the families. -/
inductive HardFamily where
  /-- One pigeon too many for `holes` holes with room for `k` pigeons each. -/
  | pigeonhole (holes k : Nat)
  /-- A perfect matching of `2 * size + 1` nodes. -/
  | parity (size : Nat)
  /-- A strict order on `size` elements without a minimal one. -/
  | ordering (size : Nat)
deriving DecidableEq

namespace HardFamily

/-- The short name of the family. -/
def name : HardFamily → String
  | pigeonhole _ _ => "PHP"
  | parity _ => "PAR"
  | ordering _ => "GT"

/-- The name with the parameters. -/
def display : HardFamily → String
  | f@(pigeonhole holes k) => s!"{f.name}({holes}, {k})"
  | f@(parity size) | f@(ordering size) => s!"{f.name}({size})"

/-- A variable number must fit its word. -/
def numbered (largest : Nat) : Except Fault Unit :=
  if largest < wordBound then .ok () else .error (.overflow .add)

/-- How many bytes a literal takes: a word for its variable and one for its sign. -/
def literalWidth : Nat := 16

/-- How many bytes a variable number takes in a table. -/
def numberWidth : Nat := 8

/-- Whether the sizes that a member needs fit: how many pigeons or nodes there are and the number one
past the last node or element, then the longest clause or the rows of the table that numbers the
pairs (with an unused place for 0), then the largest variable. -/
def checkSizes : HardFamily → Except Fault Unit
  | pigeonhole holes k => do
    let pigeons ← checkedAdd (← checkedMul holes k) 1
    checkedRow holes literalWidth
    numbered (pigeons * holes)
  | parity size => do
    let nodes ← checkedAdd (← checkedMul 2 size) 1
    checkedRow (← checkedAdd nodes 1) numberWidth
    numbered (size * nodes)
  | ordering size => do
    checkedRow (← checkedAdd size 1) numberWidth
    numbered (size * (size - 1))

/-- The formula of a member. -/
def formula : HardFamily → Cnf
  | pigeonhole holes k => Hard.Pigeonhole.formula holes k
  | parity size => Hard.Parity.formula size
  | ordering size => Hard.Ordering.formula size

/-- The formula of a member whose sizes fit. -/
def build (f : HardFamily) : Except Fault Cnf := do
  f.checkSizes
  return f.formula

/-- Members that are small enough for exhaustive search. -/
def catalogue : List HardFamily :=
  [pigeonhole 1 0, pigeonhole 1 1, pigeonhole 2 1, pigeonhole 1 2, pigeonhole 2 2, pigeonhole 2 3,
   parity 1, parity 2, ordering 2, ordering 3, ordering 4]

end HardFamily
end Falsifier
