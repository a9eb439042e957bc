import Falsifier.Proofs.Evaluation
import Falsifier.Proofs.Failing

/-!
# De Morgan's law with faults

The negation of a CNF is evaluated with the opposite quantifiers over the opposite literals, and it
stops at the same places (`Cnf.alike_negate`). So the two evaluations give the same value, or both
fault at the same literal, whose variable has no value. In particular an assignment falsifies the
negation just when it satisfies the CNF (`Cnf.falsifiedBy_negate`), and the CNF is satisfiable just
when some valuation makes the negation false (`Cnf.satisfiable_iff`).
-/

namespace Falsifier

/-! ### Searches that stop at the same place -/

section Quantifiers

variable {ε α β : Type} {R : ε → ε → Prop} {p : β → Except ε Bool} {q : α → Except ε Bool}
  {f : α → β} {xs : List α}

/-- If two tests are alike, so are the searches for the first element that passes. -/
theorem Alike.anyM_map (h : ∀ x ∈ xs, Alike R (p (f x)) (q x)) :
    Alike R ((xs.map f).anyM p) (xs.anyM q) := by
  induction xs with
  | nil => exact .ok false
  | cons x xs ih =>
    rw [List.map_cons, List.anyM_cons, List.anyM_cons]
    apply (h x (by simp)).bind
    intro first
    cases first with
    | true => exact .ok true
    | false => exact ih fun y hy => h y (by simp [hy])

/-- If two tests are alike, so are the searches for the first element that fails. -/
theorem Alike.allM_map (h : ∀ x ∈ xs, Alike R (p (f x)) (q x)) :
    Alike R ((xs.map f).allM p) (xs.allM q) := by
  induction xs with
  | nil => exact .ok true
  | cons x xs ih =>
    rw [List.map_cons, List.allM_cons, List.allM_cons]
    apply (h x (by simp)).bind
    intro first
    cases first with
    | true => exact ih fun y hy => h y (by simp [hy])
    | false => exact .ok false

end Quantifiers

/-! ### Literals -/

/-- The faults of reading one of the literals and of reading its opposite, where the variable of the
literal has no value. -/
inductive Unread (a : Assignment) (ls : List Literal) : Fault → Fault → Prop where
  | intro {l : Literal} (mem : l ∈ ls) (unbound : a.value? l.var = none) :
      Unread a ls l.negated.unread l.unread

theorem Unread.mono {a : Assignment} {ls ls' : List Literal} (h : ∀ l ∈ ls, l ∈ ls')
    {e e' : Fault} (he : Unread a ls e e') : Unread a ls' e e' := by
  cases he with
  | intro mem unbound => exact .intro (h _ mem) unbound

/-- The opposite of a literal is refuted when the literal is true. -/
theorem Assignment.alike_refutes_negated {a : Assignment} {ls : List Literal} {l : Literal}
    (hl : l ∈ ls) : Alike (Unread a ls) (a.refutes l.negated) (a.evaluate l) := by
  cases hvalue : a.value? l.var with
  | some value =>
    have hnegated : a.value? l.negated.var = some value := by rw [Literal.var_negated, hvalue]
    rw [refutes_eq hnegated, evaluate_eq hvalue, Literal.holds_negated, Bool.not_not]
    exact .ok _
  | none =>
    have hnegated : a.value? l.negated.var = none := by rw [Literal.var_negated, hvalue]
    rw [refutes_eq_error hnegated, evaluate_eq_error hvalue]
    exact .error (.intro hl hvalue)

/-! ### Clauses and formulas -/

theorem Clause.alike_map_negated (c : Clause) (a : Assignment) :
    Alike (Unread a c) (Clause.falsifiedBy (c.map Literal.negated) a) (c.satisfiedBy a) := by
  apply Alike.anyM_map
  intro l hl
  exact Assignment.alike_refutes_negated hl

/-- **De Morgan's law**, for assignments that may leave variables without a value. -/
theorem Cnf.alike_negate (c : Cnf) (a : Assignment) :
    Alike (Unread a c.clauses.flatten) (c.negate.falsifiedBy a) (c.satisfiedBy a) := by
  apply Alike.allM_map
  intro d hd
  apply (Clause.alike_map_negated d a).imp
  intro e e' he
  exact he.mono fun l hl => List.mem_flatten_of_mem hd hl

theorem Cnf.falsifiedBy_negate {c : Cnf} {a : Assignment} {b : Bool} :
    c.negate.falsifiedBy a = .ok b ↔ c.satisfiedBy a = .ok b :=
  (c.alike_negate a).eq_ok_iff

/-! ### Variables -/

/-- Negation changes neither the variables nor their order. -/
theorem Cnf.mentioned_negate (c : Cnf) :
    Clause.mentioned c.negate.clauses = Clause.mentioned c.clauses := by
  simp only [Clause.mentioned, Cnf.negate, ← List.map_flatten, List.map_map]
  apply List.map_congr_left
  intro l _
  exact Literal.var_negated l

theorem Cnf.maxVar?_negate (c : Cnf) : c.negate.maxVar? = c.maxVar? :=
  congrArg List.max? c.mentioned_negate

theorem Cnf.mem_vars_negate {c : Cnf} {v : Var} :
    v ∈ c.negate.vars ↔ ∃ d ∈ c.clauses, ∃ l ∈ d, l.var = v := by
  rw [← Clause.mem_mentioned, ← c.mentioned_negate]
  exact Clause.mem_vars

/-! ### Satisfiability -/

/-- Some values of the variables make a literal of every clause true. -/
def Cnf.Satisfiable (c : Cnf) : Prop :=
  ∃ g : Valuation, ∀ d ∈ c.clauses, ∃ l ∈ d, l.holds (g l.var) = true

theorem Cnf.satisfiable_iff {c : Cnf} :
    c.Satisfiable ↔ ∃ g : Valuation, c.negate.falseUnder g = true := by
  apply exists_congr
  intro g
  rw [Dnf.falseUnder_eq_true_iff]
  simp only [Cnf.negate, List.forall_mem_map]
  apply forall₂_congr
  intro d _
  constructor
  · rintro ⟨l, hl, htrue⟩
    exact ⟨l.negated, List.mem_map_of_mem hl, by simp [htrue]⟩
  · rintro ⟨_, hnegated, hfalse⟩
    obtain ⟨l, hl, rfl⟩ := List.mem_map.1 hnegated
    exact ⟨l, hl, by simpa using hfalse⟩

end Falsifier
