import Falsifier.Formula.Basic
import Falsifier.Hard.Subsets

/-!
# Pigeonhole formulas

There are `holes` holes for at most `k` pigeons each, and one pigeon more than fits. The variable of
a pigeon and a hole says that the pigeon sits in the hole. The formula demands a place for every
pigeon and forbids every crowd of `k + 1` pigeons in a hole, so it cannot be satisfied.
-/

namespace Falsifier.Hard.Pigeonhole

/-- How many pigeons there are. -/
def pigeons (holes k : Nat) : Nat :=
  holes * k + 1

/-- The variable that says that a pigeon sits in a hole. Pigeons and holes are numbered from 1, and
the variables go through the holes of one pigeon after the other. -/
def sits (holes pigeon hole : Nat) : Var :=
  (pigeon - 1) * holes + hole

/-- A pigeon sits in some hole. -/
def placed (holes pigeon : Nat) : Clause :=
  (numbers holes).map fun hole => .pos (sits holes pigeon hole)

/-- Not all pigeons of a crowd sit in the hole. -/
def uncrowded (holes hole : Nat) (crowd : List Nat) : Clause :=
  crowd.map fun pigeon => .neg (sits holes pigeon hole)

/-- All pigeons are placed, and no hole holds more than `k` of them. -/
def formula (holes k : Nat) : Cnf :=
  ⟨(numbers (pigeons holes k)).map (placed holes) ++
    (numbers holes).flatMap fun hole =>
      (combinations (pigeons holes k) (k + 1)).map (uncrowded holes hole)⟩

end Falsifier.Hard.Pigeonhole
