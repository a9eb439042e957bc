import Falsifier.Formula.Basic
import Std.Data.TreeMap

/-!
# Assignments and evaluation

An assignment gives values to finitely many variables and may leave others unbound. A formula is
evaluated from the left and no further than needed: a clause stops at the first literal that
settles it, a formula at the first clause that settles it. Reading an unbound variable is a fault,
so whether an evaluation faults depends on the order of clauses and literals.
-/

namespace Falsifier

/-- Values for finitely many variables. -/
structure Assignment where
  bindings : Std.TreeMap Var Bool

namespace Assignment

def empty : Assignment := ⟨∅⟩

/-- Give a variable a value, in place of any earlier one. -/
def bind (a : Assignment) (v : Var) (value : Bool) : Assignment :=
  ⟨a.bindings.insert v value⟩

/-- The value of a variable, if it is bound. -/
def value? (a : Assignment) (v : Var) : Option Bool :=
  a.bindings[v]?

def size (a : Assignment) : Nat :=
  a.bindings.size

/-- Each literal binds its variable to the value that makes it true; later literals win. -/
def ofLiterals (ls : List Literal) : Assignment :=
  ls.foldl (fun a l => a.bind l.var l.positive) empty

/-- Values for the variables 1, 2, … in turn. -/
def ofBits (bits : List Bool) : Assignment :=
  ofLiterals (bits.zipIdx.map fun (b, i) => Literal.ofValue (i + 1) b)

/-- Two assignments are equal when they bind the same variables to the same values. -/
instance : BEq Assignment where
  beq a b := a.bindings.toList == b.bindings.toList

def evaluate (a : Assignment) (l : Literal) : Except Fault Bool :=
  match a.value? l.var with
  | some value => .ok (l.holds value)
  | none => do throw (.unbound (← l.dimacs))

def refutes (a : Assignment) (l : Literal) : Except Fault Bool :=
  return !(← a.evaluate l)

end Assignment

/-- A conjunction is falsified by its first false literal. -/
def Clause.falsifiedBy (c : Clause) (a : Assignment) : Except Fault Bool :=
  c.anyM a.refutes

/-- A disjunction is satisfied by its first true literal. -/
def Clause.satisfiedBy (c : Clause) (a : Assignment) : Except Fault Bool :=
  c.anyM a.evaluate

/-- A disjunction of conjunctions is falsified when each of its clauses is. -/
def Dnf.falsifiedBy (f : Dnf) (a : Assignment) : Except Fault Bool :=
  f.clauses.allM (Clause.falsifiedBy · a)

/-- A conjunction of disjunctions is satisfied when each of its clauses is. -/
def Cnf.satisfiedBy (c : Cnf) (a : Assignment) : Except Fault Bool :=
  c.clauses.allM (Clause.satisfiedBy · a)

/-! ### What binding does to values -/

namespace Assignment

@[simp] theorem value?_empty (v : Var) : empty.value? v = none := by
  simp [empty, value?]

theorem value?_bind (a : Assignment) (v w : Var) (b : Bool) :
    (a.bind v b).value? w = if v = w then some b else a.value? w := by
  simp [bind, value?, Std.TreeMap.getElem?_insert]

end Assignment
end Falsifier
