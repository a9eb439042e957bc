import Falsifier.Proofs.Exhaustive.Exact
import Falsifier.Proofs.Negation

/-!
# Satisfiable formulas and tautologies

A CNF is satisfiable when some valuation makes a literal of every clause true. This is so just when
the evaluator finds it satisfied under some assignment (`Cnf.satisfiable_iff_satisfiedBy`), and its
negation is a tautology just when it is not so (`Cnf.tautology_negate_iff`). For clauses that are
made from a list of indices, satisfaction is a statement about the indices
(`Clause.holds_map_pos`, `Clause.holds_map_neg`).
-/

namespace Falsifier

/-- The evaluator finds the formula true whenever its variables have values. -/
def Dnf.Tautology (f : Dnf) : Prop :=
  ∀ a : Assignment, (∀ v ∈ f.vars, (a.value? v).isSome) → f.falsifiedBy a = .ok false

/-- Some literal of the clause is true. -/
def Clause.Holds (g : Valuation) (d : Clause) : Prop :=
  ∃ l ∈ d, l.holds (g l.var) = true

/-- The formula without the clause at a position. -/
def Cnf.without (c : Cnf) (i : Nat) : Cnf :=
  ⟨c.clauses.eraseIdx i⟩

/-! ### Clauses -/

section Clauses

variable {g : Valuation}

@[simp] theorem Literal.holds_pos (v : Var) (b : Bool) : (pos v).holds b = b := by
  cases b <;> rfl

@[simp] theorem Literal.holds_neg (v : Var) (b : Bool) : (neg v).holds b = !b := by
  cases b <;> rfl

@[simp] theorem Clause.not_holds_nil : ¬ Clause.Holds g [] := by
  rintro ⟨l, hl, -⟩
  cases hl

@[simp] theorem Clause.holds_cons {l : Literal} {d : Clause} :
    Clause.Holds g (l :: d) ↔ l.holds (g l.var) = true ∨ Clause.Holds g d := by
  simp [Clause.Holds]

variable {α : Type} {xs : List α} {number : α → Var}

theorem Clause.holds_map_pos :
    Clause.Holds g (xs.map fun x => .pos (number x)) ↔ ∃ x ∈ xs, g (number x) = true := by
  simp [Clause.Holds, Literal.var]

theorem Clause.holds_map_neg :
    Clause.Holds g (xs.map fun x => .neg (number x)) ↔ ∃ x ∈ xs, g (number x) = false := by
  simp [Clause.Holds, Literal.var]

end Clauses

/-! ### Formulas -/

theorem Cnf.satisfiable_iff_holds {c : Cnf} :
    c.Satisfiable ↔ ∃ g : Valuation, ∀ d ∈ c.clauses, Clause.Holds g d :=
  Iff.rfl

/-- Some assignment gives the variables of the formula the values that a valuation has for them. -/
theorem Dnf.exists_assignment (f : Dnf) (g : Valuation) :
    ∃ a : Assignment, ∀ v ∈ f.vars, a.value? v = some (g v) :=
  ⟨_, fun _ hv => Assignment.value?_ofValue f.nodup_vars g hv⟩

theorem Dnf.exists_falsifiedBy_iff {f : Dnf} :
    (∃ a : Assignment, f.falsifiedBy a = .ok true) ↔ ∃ g : Valuation, f.falseUnder g = true := by
  constructor
  · rintro ⟨a, ha⟩
    exact ⟨_, Dnf.falseUnder_of_falsifiedBy (fun _ _ => Exhaustive.completion_eq) ha⟩
  · rintro ⟨g, hg⟩
    obtain ⟨a, ha⟩ := f.exists_assignment g
    refine ⟨a, ?_⟩
    rw [Dnf.falsifiedBy_of_vars ha, hg]

theorem Dnf.tautology_iff {f : Dnf} : f.Tautology ↔ ∀ g : Valuation, f.falseUnder g = false := by
  constructor
  · intro h g
    obtain ⟨a, ha⟩ := f.exists_assignment g
    have hfalse := h a fun v hv => by rw [ha v hv]; rfl
    rw [Dnf.falsifiedBy_of_vars ha] at hfalse
    exact Except.ok.inj hfalse
  · intro h a ha
    have hvalues : ∀ v ∈ f.vars, a.value? v = some (Exhaustive.completion a v) := by
      intro v hv
      obtain ⟨b, hb⟩ := Option.isSome_iff_exists.1 (ha v hv)
      rw [Exhaustive.completion_eq hb, hb]
    rw [Dnf.falsifiedBy_of_vars hvalues, h]

/-- The evaluator recognises satisfiable formulas, although it may read unbound variables. -/
theorem Cnf.satisfiable_iff_satisfiedBy {c : Cnf} :
    c.Satisfiable ↔ ∃ a : Assignment, c.satisfiedBy a = .ok true := by
  rw [Cnf.satisfiable_iff, ← Dnf.exists_falsifiedBy_iff]
  exact exists_congr fun a => Cnf.falsifiedBy_negate

theorem Cnf.not_satisfiable_iff {c : Cnf} :
    ¬ c.Satisfiable ↔ ∀ a : Assignment, c.satisfiedBy a ≠ .ok true := by
  rw [Cnf.satisfiable_iff_satisfiedBy, not_exists]

/-- The negation of a formula that cannot be satisfied is a tautology, and only of such a one. -/
theorem Cnf.tautology_negate_iff {c : Cnf} : c.negate.Tautology ↔ ¬ c.Satisfiable := by
  rw [Dnf.tautology_iff, Cnf.satisfiable_iff, not_exists]
  exact forall_congr' fun g => Bool.eq_false_iff

end Falsifier
