import Falsifier.Assignment
import Falsifier.Script

/-!
# Models

A search that succeeds reports a *model*: one literal for each variable it decided, in increasing
order, whose sign is the value of the variable. Shown as text, the literals are signed numbers with
a blank between them.
-/

namespace Falsifier

/-- The values that a search found, as the literals they make true. -/
structure Model where
  literals : List Literal
deriving DecidableEq

namespace Model

/-- The assignment that makes the literals true. -/
def toAssignment (m : Model) : Assignment :=
  .ofLiterals m.literals

/-- The signed numbers of the literals. -/
def dimacs (m : Model) : Except Fault (List Int) :=
  m.literals.mapM Literal.dimacs

/-- The signed numbers in order, with a blank between each two. -/
def script (m : Model) : Script :=
  (m.literals.map fun l => toString <$> l.dimacs).intersperse (.ok " ")

/-- The model as text. -/
def display (m : Model) : Except Fault String :=
  m.script.text

end Model
end Falsifier
