import Falsifier.Formula.Basic
import Falsifier.Hard.Subsets

/-!
# Ordering formulas

The variables say which of two different elements precedes the other. The formula demands a strict
order in which every element has a predecessor; a finite order on at least one element has a minimal
one, so this cannot be satisfied.
-/

namespace Falsifier.Hard.Ordering

/-- The variable that says that `i` precedes `j`, for two different elements out of `n`. The
variables go through the other elements for one element after the other. -/
def precedes (n i j : Nat) : Var :=
  (i - 1) * (n - 1) + if j < i then j else j - 1

/-- No two elements precede each other. -/
def antisymmetric (n : Nat) : List Clause :=
  (pairs n).map fun (i, j) => [.neg (precedes n i j), .neg (precedes n j i)]

/-- Three different elements, in every order. -/
def triples (n : Nat) : List (Nat × Nat × Nat) :=
  (numbers n).flatMap fun i => (numbers n).flatMap fun j => (numbers n).filterMap fun k =>
    if i ≠ j ∧ j ≠ k ∧ i ≠ k then some (i, j, k) else none

/-- What precedes a predecessor precedes. -/
def transitive (n : Nat) : List Clause :=
  (triples n).map fun (i, j, k) =>
    [.neg (precedes n i j), .neg (precedes n j k), .pos (precedes n i k)]

/-- Some element precedes `j`. -/
def preceded (n j : Nat) : Clause :=
  ((numbers n).filter (· ≠ j)).map fun i => .pos (precedes n i j)

/-- A strict order without minimal element. -/
def formula (size : Nat) : Cnf :=
  ⟨antisymmetric size ++ transitive size ++ (numbers size).map (preceded size)⟩

end Falsifier.Hard.Ordering
