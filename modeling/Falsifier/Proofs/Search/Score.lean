import Falsifier.Proofs.Search.Landscape
import Falsifier.Search.Solver

/-!
# Scores

The *score* of an assignment is the number of clauses that the evaluator finds not falsified. It is
what the fitness of a prepared formula stands for: `score_assign` says that both agree, without a
fault, on the assignment that gives the variables their values by position.
-/

namespace Falsifier

/-- Whether the evaluator finds that a clause is not falsified. -/
def Clause.unfalsifiedBy (a : Assignment) (c : Clause) : Bool :=
  match c.falsifiedBy a with
  | .ok falsified => !falsified
  | .error _ => false

/-- The number of clauses that are not falsified. -/
def Dnf.score (f : Dnf) (a : Assignment) : Nat :=
  f.clauses.countP (Clause.unfalsifiedBy a)

/-- The assignment that gives the variables of a formula, in increasing order, these values. -/
def Dnf.assign (f : Dnf) (values : List Bool) : Assignment :=
  .ofLiterals (f.vars.zipWith Literal.ofValue values)

theorem map_var_zipWith {vars : List Var} {values : List Bool} (h : values.length = vars.length) :
    (vars.zipWith Literal.ofValue values).map Literal.var = vars := by
  induction vars generalizing values with
  | nil => rfl
  | cons v vars ih =>
      cases values with
      | nil => cases h
      | cons b values =>
          rw [List.zipWith_cons_cons, List.map_cons, Literal.var_ofValue, ih (Nat.succ.inj h)]

namespace Search

/-- Read values off a list. -/
def listed (values : List Bool) (i : Nat) : Bool :=
  values.getD i false

theorem valuesOf_eq_listed (current : Array Bool) : valuesOf current = listed current.toList := by
  funext i
  unfold valuesOf listed
  rw [Array.getD_eq_getD_getElem?, List.getD_eq_getElem?_getD, Array.getElem?_toList]

/-- A change at a position within the list. -/
theorem listed_modify {values : List Bool} {i : Nat} (hi : i < values.length) :
    listed (values.modify i (!·)) = flipped (listed values) i := by
  funext j
  unfold listed flipped
  simp only [List.getD_eq_getElem?_getD, List.getElem?_modify]
  by_cases hj : i = j
  · subst hj
    simp [hi]
  · rw [if_neg (Ne.symm hj)]
    simp [hj]

section

variable {f : Dnf} {values : List Bool} (h : values.length = f.vars.length)
include h

theorem value?_assign {v : Var} (hv : v ∈ f.vars) :
    (f.assign values).value? v = some (valuation f.vars (listed values) v) := by
  have hi : f.vars.idxOf v < f.vars.length := List.idxOf_lt_length_of_mem hv
  have hi' : f.vars.idxOf v < values.length := h ▸ hi
  have hmem : Literal.ofValue v (listed values (f.vars.idxOf v)) ∈
      f.vars.zipWith Literal.ofValue values := by
    rw [List.mem_iff_getElem?]
    refine ⟨f.vars.idxOf v, ?_⟩
    rw [List.getElem?_zipWith, List.getElem?_eq_getElem hi, List.getElem?_eq_getElem hi',
      List.getElem_idxOf]
    simp [listed, hi']
  have hvars : ((f.vars.zipWith Literal.ofValue values).map Literal.var).Nodup := by
    rw [map_var_zipWith h]
    exact f.nodup_vars
  have hvalue := Assignment.value?_ofLiterals hvars hmem
  rw [Literal.var_ofValue, Literal.positive_ofValue] at hvalue
  exact hvalue

theorem value?_assign_of_mem {c : Clause} (hc : c ∈ f.clauses) {l : Literal} (hl : l ∈ c) :
    (f.assign values).value? l.var = some (valuation f.vars (listed values) l.var) :=
  value?_assign h (Dnf.var_mem_vars hc hl)

theorem falsifiedBy_assign {c : Clause} (hc : c ∈ f.clauses) :
    c.falsifiedBy (f.assign values) =
      .ok (c.falseUnder (valuation f.vars (listed values))) :=
  Clause.falsifiedBy_eq fun _ hl => value?_assign_of_mem h hc hl

theorem score_assign : f.score (f.assign values) = (Landscape.ofDnf f).fitness (listed values) := by
  rw [Landscape.fitness_ofDnf]
  apply List.countP_congr
  intro c hc
  unfold Clause.unfalsifiedBy
  rw [falsifiedBy_assign h hc]

/-- The formula is falsified just when its score is zero. -/
theorem falsifiedBy_eq_score :
    f.falsifiedBy (f.assign values) = .ok (decide (f.score (f.assign values) = 0)) := by
  rw [Dnf.falsifiedBy_of_vars fun _ hv => value?_assign h hv, score_assign h,
    Landscape.fitness_ofDnf]
  congr 1
  rw [Bool.eq_iff_iff, decide_eq_true_iff, List.countP_eq_zero]
  simp [Dnf.falseUnder]

end

end Search
end Falsifier
