import Falsifier.Literal
import Std.Data.TreeSet

/-!
# Formulas in normal form

A clause is an ordered list of literals, and a formula an ordered list of clauses. In a `Dnf` the
clauses are conjunctions and the formula is their disjunction; in a `Cnf` the clauses are
disjunctions and the formula is their conjunction. Nothing is normalised: order, repeated literals,
contradictory clauses and empty clauses are kept, and two formulas are equal when they agree in all
of these.
-/

namespace Falsifier

/-- An ordered list of literals, read as a conjunction or a disjunction by the formula it is in. -/
abbrev Clause := List Literal

structure Dnf where
  clauses : List Clause
deriving DecidableEq

structure Cnf where
  clauses : List Clause
deriving DecidableEq

namespace Clause

/-- The variables of a list of clauses, one entry per literal. -/
def mentioned (cs : List Clause) : List Var :=
  cs.flatten.map Literal.var

/-- The largest variable that the clauses mention. -/
def maxVar? (cs : List Clause) : Option Var :=
  (mentioned cs).max?

/-- The variables that the clauses mention, each once, in increasing order. -/
def vars (cs : List Clause) : List Var :=
  (Std.TreeSet.ofList (mentioned cs)).toList

/-- Write clauses as signed numbers. -/
def dimacs (cs : List Clause) : Except Fault (List (List Int)) :=
  cs.mapM (·.mapM Literal.dimacs)

end Clause

namespace Dnf

/-- The largest variable of the formula. -/
def maxVar? (f : Dnf) : Option Var := Clause.maxVar? f.clauses

/-- The variables of the formula, each once, in increasing order. -/
def vars (f : Dnf) : List Var := Clause.vars f.clauses

end Dnf

namespace Cnf

/-- The largest variable of the formula. -/
def maxVar? (c : Cnf) : Option Var := Clause.maxVar? c.clauses

/-- De Morgan's law: the negation of a conjunction of disjunctions is the disjunction of the
conjunctions of the opposite literals, clause by clause and literal by literal. -/
def negate (c : Cnf) : Dnf :=
  ⟨c.clauses.map (·.map Literal.negated)⟩

end Cnf

/-! ### Which variables a formula has -/

theorem Clause.mem_mentioned {cs : List Clause} {v : Var} :
    v ∈ Clause.mentioned cs ↔ ∃ c ∈ cs, ∃ l ∈ c, l.var = v := by
  simp only [Clause.mentioned, List.mem_map, List.mem_flatten]
  constructor
  · rintro ⟨l, ⟨c, hc, hl⟩, rfl⟩
    exact ⟨c, hc, l, hl, rfl⟩
  · rintro ⟨c, hc, l, hl, rfl⟩
    exact ⟨l, ⟨c, hc, hl⟩, rfl⟩

theorem Clause.mem_vars {cs : List Clause} {v : Var} :
    v ∈ Clause.vars cs ↔ v ∈ Clause.mentioned cs := by
  simp [Clause.vars, Std.TreeSet.mem_toList, Std.TreeSet.mem_ofList]

theorem Clause.pairwise_vars (cs : List Clause) : (Clause.vars cs).Pairwise (· < ·) := by
  have h := Std.TreeSet.ordered_toList (t := Std.TreeSet.ofList (Clause.mentioned cs))
  exact h.imp fun h => Nat.compare_eq_lt.1 h

namespace Dnf

theorem mem_vars {f : Dnf} {v : Var} :
    v ∈ f.vars ↔ ∃ c ∈ f.clauses, ∃ l ∈ c, l.var = v :=
  Clause.mem_vars.trans Clause.mem_mentioned

theorem var_mem_vars {f : Dnf} {c : Clause} {l : Literal} (hc : c ∈ f.clauses) (hl : l ∈ c) :
    l.var ∈ f.vars :=
  mem_vars.2 ⟨c, hc, l, hl, rfl⟩

/-- No variable is above the largest. -/
theorem le_maxVar {f : Dnf} {v : Var} (h : v ∈ f.vars) : v ≤ f.maxVar?.getD 0 :=
  List.le_max?_getD_of_mem (Clause.mem_vars.1 h)

theorem maxVar_le {f : Dnf} {n : Nat} (h : ∀ v ∈ f.vars, v ≤ n) : f.maxVar?.getD 0 ≤ n := by
  cases hmax : f.maxVar? with
  | none => exact Nat.zero_le n
  | some m => exact h m (Clause.mem_vars.2 (List.max?_mem hmax))

theorem pairwise_vars (f : Dnf) : f.vars.Pairwise (· < ·) :=
  Clause.pairwise_vars f.clauses

theorem nodup_vars (f : Dnf) : f.vars.Nodup :=
  f.pairwise_vars.imp Nat.ne_of_lt

/-- There is only one increasing list of the variables. -/
theorem eq_vars {f : Dnf} {vs : List Var} (hlt : vs.Pairwise (· < ·))
    (hmem : ∀ v, v ∈ vs ↔ v ∈ f.vars) : vs = f.vars := by
  have hperm : vs.Perm f.vars :=
    (List.perm_ext_iff_of_nodup (hlt.imp Nat.ne_of_lt) f.nodup_vars).2 hmem
  apply hperm.eq_of_pairwise _ hlt f.pairwise_vars
  intro v w _ _ hvw hwv
  exact absurd hvw (Nat.lt_asymm hwv)

end Dnf
end Falsifier
