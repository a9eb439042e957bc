import Falsifier.Formula.Basic

/-!
# Formulas as text

A formula is shown with `!` for negation, `&` between the literals of a clause and `|` between
clauses. A clause of several literals stands in parentheses and a single literal does not. The
empty conjunction is `true`, and the empty disjunction is `false`.

    (1 & !2) | !3 | true
-/

namespace Falsifier

/-- A literal as its unsigned variable number, after `!` when it is negative. -/
def Literal.display : Literal → String
  | .pos v => toString v
  | .neg v => "!" ++ toString v

/-- A conjunction of literals. -/
def Clause.display : Clause → String
  | [] => "true"
  | [l] => l.display
  | ls => "(" ++ " & ".intercalate (ls.map Literal.display) ++ ")"

def Dnf.display (f : Dnf) : String :=
  match f.clauses with
  | [] => "false"
  | cs => " | ".intercalate (cs.map Clause.display)

end Falsifier
