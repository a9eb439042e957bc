import Falsifier.Word

/-!
# Literals

A literal is a variable or its negation. In the DIMACS notation a literal is one nonzero signed
64-bit number: `ofDimacs` reads such a number and `dimacs` writes it. Variables are numbered from 1
in a file, but a literal may name any variable, so writing wraps large numbers to the signed range
and faults in the single case where the sign cannot be changed.

Literals are ordered with all positive ones first, and by variable within each sign.
-/

namespace Falsifier

/-- A propositional variable, known by its number. -/
abbrev Var := Nat

/-- A variable or its negation. -/
inductive Literal where
  | pos (v : Var)
  | neg (v : Var)
deriving DecidableEq, Ord

/-- Why a number is not a literal. -/
inductive LiteralError where
  /-- Zero ends a clause and stands for no literal. -/
  | zero
deriving DecidableEq

namespace LiteralError

def message : LiteralError → String
  | zero => "0 is not a literal"

end LiteralError

namespace Literal

/-- The literal of `v` that holds exactly when `v` has the given value. -/
def ofValue (v : Var) (value : Bool) : Literal :=
  if value then pos v else neg v

/-- The variable that a literal is about. -/
def var : Literal → Var
  | pos v => v
  | neg v => v

/-- Whether the literal is a plain variable. -/
def positive : Literal → Bool
  | pos _ => true
  | neg _ => false

/-- The literal of the same variable with the other sign. -/
def negated : Literal → Literal
  | pos v => neg v
  | neg v => pos v

/-- Whether the literal is true when its variable has the given value. -/
def holds (l : Literal) (value : Bool) : Bool :=
  value == l.positive

/-! ### Signed numbers -/

/-- The literal that a nonzero number stands for: its size is the variable, its sign the sign. -/
def ofInt (x : Int) : Literal :=
  if 0 < x then pos x.natAbs else neg x.natAbs

/-- Read a number of the DIMACS notation. -/
def ofDimacs (x : Int) : Except LiteralError Literal :=
  if x = 0 then .error .zero else .ok (ofInt x)

/-- Write a literal as a signed 64-bit number. The bits of the variable number are read as a signed
number, and a negative literal is that number with its sign changed, which is impossible for the
least number of the range. -/
def dimacs : Literal → Except Fault Int
  | pos v => .ok (signed v)
  | neg v => checkedNeg (signed v)

/-! ### Order -/

/-- Whether `a` comes before `b` or equals it. -/
def before (a b : Literal) : Bool :=
  (compare a b).isLE

/-- The literals in increasing order, repetitions kept. -/
def sorted (ls : List Literal) : List Literal :=
  ls.mergeSort before

/-! ### Basic facts -/

@[simp] theorem var_ofValue (v : Var) (b : Bool) : (ofValue v b).var = v := by
  cases b <;> rfl

@[simp] theorem positive_ofValue (v : Var) (b : Bool) : (ofValue v b).positive = b := by
  cases b <;> rfl

@[simp] theorem ofValue_var_positive (l : Literal) : ofValue l.var l.positive = l := by
  cases l <;> rfl

@[simp] theorem negated_negated (l : Literal) : l.negated.negated = l := by
  cases l <;> rfl

@[simp] theorem var_negated (l : Literal) : l.negated.var = l.var := by
  cases l <;> rfl

@[simp] theorem holds_negated (l : Literal) (b : Bool) : l.negated.holds b = !l.holds b := by
  cases l <;> cases b <;> rfl

@[simp] theorem var_ofInt (x : Int) : (ofInt x).var = x.natAbs := by
  unfold ofInt
  split <;> rfl

end Literal
end Falsifier
