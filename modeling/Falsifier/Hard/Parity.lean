import Falsifier.Formula.Basic
import Falsifier.Hard.Subsets

/-!
# Parity formulas

The variables are the edges of a complete graph with an odd number of nodes, and a set of edges is
chosen. The formula demands a chosen edge at every node and forbids two at the same node. The
chosen edges would match the nodes in pairs, which an odd number of nodes does not allow.
-/

namespace Falsifier.Hard.Parity

/-- How many nodes there are. -/
def nodes (size : Nat) : Nat :=
  2 * size + 1

/-- How many of the edges between `n` nodes have a smaller end of at most `i`. -/
def edgesUpTo (n : Nat) : Nat → Nat
  | 0 => 0
  | i + 1 => edgesUpTo n i + (n - (i + 1))

/-- The variable of the edge between two different nodes, in either order. The edges are numbered by
their smaller end, then by their larger one. -/
def edge (n i j : Nat) : Var :=
  edgesUpTo n (min i j - 1) + (max i j - min i j)

/-- Some edge at the node is chosen. -/
def matched (n i : Nat) : Clause :=
  ((numbers n).filter (· ≠ i)).map fun j => .pos (edge n i j)

/-- No two edges at the node are both chosen. -/
def unshared (n i : Nat) : List Clause :=
  ((pairs n).filter fun (j, k) => j ≠ i && k ≠ i).map fun (j, k) =>
    [.neg (edge n i j), .neg (edge n i k)]

/-- Every node is matched, and no node twice. -/
def formula (size : Nat) : Cnf :=
  let n := nodes size
  ⟨(numbers n).map (matched n) ++ (numbers n).flatMap (unshared n)⟩

end Falsifier.Hard.Parity
