import Falsifier.Formula.Basic

/-!
# The landscape of a formula

The local search moves through the assignments to the variables that occur in a formula. It knows a
variable by its *position* in the increasing list of them, and an assignment by the values at the
positions. The *fitness* of an assignment is the number of clauses it leaves true; at fitness zero
the formula is falsified.

Neighbours differ in the value at one position. Only the clauses that mention the position can
change, so the fitness of a neighbour is found by looking at these clauses alone.
-/

namespace Falsifier.Search

/-- A literal whose variable is given by its position. -/
structure Spot where
  position : Nat
  positive : Bool
deriving DecidableEq

namespace Spot

/-- The literal `l`, when the variables are listed in `vars`. -/
def ofLiteral (vars : List Var) (l : Literal) : Spot :=
  ⟨vars.idxOf l.var, l.positive⟩

/-- Whether the literal is true under the values at the positions. -/
def holds (s : Spot) (values : Nat → Bool) : Bool :=
  values s.position == s.positive

end Spot

/-- A conjunction of literals stays true as long as all of them are. -/
def survives (c : List Spot) (values : Nat → Bool) : Bool :=
  c.all (·.holds values)

/-- The values after a change at position `i`. -/
def flipped (values : Nat → Bool) (i : Nat) : Nat → Bool :=
  fun j => if j = i then !values j else values j

/-- A formula prepared for local search. -/
structure Landscape where
  /-- The variables that occur, in increasing order. -/
  vars : Array Var
  /-- The clauses, in terms of positions. -/
  clauses : Array (List Spot)
  /-- For each position, the indices of the clauses that mention it. -/
  occurrences : Array (Array Nat)

namespace Landscape

/-! ### Preparation

The occurrences are collected in one pass over the literals. A clause may mention a position more
than once, but its mentions come together in the pass, so it is enough to compare with the index
that was entered last. -/

/-- Enter an index at the end of a row, unless it is the last one already. -/
def enter (k : Nat) (row : Array Nat) : Array Nat :=
  if row.back? = some k then row else row.push k

/-- Enter the index `k` of a clause at every position that the clause mentions. -/
def enterClause (rows : Array (Array Nat)) (k : Nat) (c : List Spot) : Array (Array Nat) :=
  c.foldl (fun rows s => rows.modify s.position (enter k)) rows

/-- The indices of the clauses that mention a position, for each of the positions below `n`. -/
def occurrencesOf (n : Nat) (clauses : List (List Spot)) : Array (Array Nat) :=
  clauses.zipIdx.foldl (fun rows (c, k) => enterClause rows k c) (Array.replicate n #[])

def ofDnf (f : Dnf) : Landscape :=
  let vars := f.vars
  let clauses := f.clauses.map (·.map (Spot.ofLiteral vars))
  ⟨vars.toArray, clauses.toArray, occurrencesOf vars.length clauses⟩

/-! ### Fitness -/

/-- How many clauses stay true. -/
def fitness (L : Landscape) (values : Nat → Bool) : Nat :=
  L.clauses.toList.countP (survives · values)

/-- How many of the clauses with the given indices stay true. -/
def fitnessAmong (L : Landscape) (indices : Array Nat) (values : Nat → Bool) : Nat :=
  indices.countP fun k => survives (L.clauses.getD k []) values

/-- The fitness after a change at position `i`, found from the fitness `current` before it. -/
def neighbourFitness (L : Landscape) (values : Nat → Bool) (current i : Nat) : Nat :=
  let touched := L.occurrences.getD i #[]
  current - L.fitnessAmong touched values + L.fitnessAmong touched (flipped values i)

end Landscape

/-! ### The best neighbours -/

/-- The least score found so far and the positions that reach it, after position `i` with the given
score. Nothing has been found before the first position. -/
def consider (best : Option (Nat × Array Nat)) (i score : Nat) : Option (Nat × Array Nat) :=
  match best with
  | none => some (score, #[i])
  | some (least, ties) =>
    if score < least then some (score, #[i])
    else if score = least then some (least, ties.push i)
    else some (least, ties)

/-- The least of the scores of the positions below `n` and the positions that reach it. -/
def leaders (score : Nat → Nat) (n : Nat) : Option (Nat × Array Nat) :=
  (List.range n).foldl (fun best i => consider best i (score i)) none

/-- The least fitness among the neighbours and the positions that reach it, provided that it is
below the present fitness. -/
def Landscape.bestFlips? (L : Landscape) (values : Nat → Bool) (current : Nat) :
    Option (Nat × List Nat) :=
  (leaders (L.neighbourFitness values current) L.vars.size).bind fun (least, ties) =>
    if least < current then some (least, ties.toList) else none

end Falsifier.Search
