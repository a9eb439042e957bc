import Falsifier.Formula.Basic

/-!
# Problems

A DIMACS file holds a formula of one of two kinds, named in its header. Either kind becomes a
disjunction of conjunctions: a CNF is negated, so that an assignment that falsifies the result
satisfies the CNF.
-/

namespace Falsifier.Dimacs

inductive Kind where
  | dnf
  | cnf
deriving DecidableEq

namespace Kind

/-- The word in the header that names the kind. -/
def name : Kind → String
  | dnf => "dnf"
  | cnf => "cnf"

/-- The kind that a word names. -/
def ofName? : String → Option Kind
  | "dnf" => some dnf
  | "cnf" => some cnf
  | _ => none

@[simp] theorem ofName?_name (k : Kind) : ofName? k.name = some k := by
  cases k <;> rfl

end Kind

inductive Problem where
  | dnf (f : Dnf)
  | cnf (c : Cnf)
deriving DecidableEq

namespace Problem

/-- The problem of a kind with these clauses. -/
def ofClauses : Kind → List Clause → Problem
  | .dnf, cs => dnf ⟨cs⟩
  | .cnf, cs => cnf ⟨cs⟩

def kind : Problem → Kind
  | dnf _ => .dnf
  | cnf _ => .cnf

def clauses : Problem → List Clause
  | dnf f => f.clauses
  | cnf c => c.clauses

/-- The formula to falsify. -/
def toDnf : Problem → Dnf
  | dnf f => f
  | cnf c => c.negate

@[simp] theorem kind_ofClauses (k : Kind) (cs : List Clause) : (ofClauses k cs).kind = k := by
  cases k <;> rfl

@[simp] theorem clauses_ofClauses (k : Kind) (cs : List Clause) :
    (ofClauses k cs).clauses = cs := by
  cases k <;> rfl

end Problem
end Falsifier.Dimacs
