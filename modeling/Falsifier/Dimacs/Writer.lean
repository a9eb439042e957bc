import Falsifier.Dimacs.Problem
import Falsifier.Script

/-!
# Writing problems

A problem is written as a header line `p KIND VARIABLES CLAUSES`, where `VARIABLES` is the largest
variable (0 when there is none), and one line per clause: each literal followed by a blank, then 0.
-/

namespace Falsifier.Dimacs

/-- The first line of a file. -/
def headerLine (k : Kind) (cs : List Clause) : String :=
  s!"p {k.name} {(Clause.maxVar? cs).getD 0} {cs.length}\n"

/-- The line of a clause. -/
def clauseScript (c : Clause) : Script :=
  (c.map fun l => (toString · ++ " ") <$> l.dimacs) ++ [.ok "0\n"]

/-- The lines of a problem. -/
def Problem.script (p : Problem) : Script :=
  .ok (headerLine p.kind p.clauses) :: p.clauses.flatMap clauseScript

/-- A problem as text. -/
def Problem.text (p : Problem) : Except Fault String :=
  p.script.text

end Falsifier.Dimacs
