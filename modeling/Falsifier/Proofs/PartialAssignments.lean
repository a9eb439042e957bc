import Falsifier.Proofs.Evaluation
import Falsifier.Proofs.Failing

/-!
# Partial assignments

Evaluation stops where its result is settled, so it may give a value although some variables have
none, and whether it does depends on the order of the clauses and the literals. What it gives is right
all the same: giving values to more variables does not change it. Moreover an evaluation looks at the
variables of its formula only, and it faults only if one of them has no value.

These three facts make up `Reads`. They hold of a single literal, they are kept when one evaluation
follows another (`Reads.bind`), and from there they are carried over to clauses and to formulas of
both kinds (`reads_formulas`).
-/

namespace Falsifier

namespace Assignment

/-- The assignment has every value that `a` has, and it may have more. -/
def Extends (b a : Assignment) : Prop :=
  ∀ v value, a.value? v = some value → b.value? v = some value

/-- Each of the variables has a value. -/
def Binds (a : Assignment) (vs : List Var) : Prop :=
  ∀ v ∈ vs, ∃ value, a.value? v = some value

/-- Each of the variables has the same value under both assignments, or none under both. -/
def SameOn (a b : Assignment) (vs : List Var) : Prop :=
  ∀ v ∈ vs, a.value? v = b.value? v

end Assignment

/-- What an evaluation gives depends on the values of these variables, and it faults only for want of
one of them. -/
structure Reads {α : Type} (vs : List Var) (eval : Assignment → Except Fault α) : Prop where
  /-- More values do not change a result. -/
  keeps : ∀ a b r, b.Extends a → eval a = .ok r → eval b = .ok r
  /-- There is a result where all the variables have values. -/
  total : ∀ a, a.Binds vs → ∃ r, eval a = .ok r
  /-- Other variables change neither a result nor a fault. -/
  congr : ∀ a b, a.SameOn b vs → eval a = eval b

/-! ### Evaluations made of evaluations -/

namespace Reads

variable {α β : Type} {vs : List Var}

theorem pure (r : α) : Reads vs fun _ => .ok r where
  keeps _ _ _ _ h := h
  total _ _ := ⟨r, rfl⟩
  congr _ _ _ := rfl

theorem bind {eval : Assignment → Except Fault α} {next : Assignment → α → Except Fault β}
    (heval : Reads vs eval) (hnext : ∀ r, Reads vs (next · r)) :
    Reads vs fun a => eval a >>= next a where
  keeps a b r hba h := by
    obtain ⟨first, hfirst, hlast⟩ := bind_eq_ok_iff.1 h
    apply bind_eq_ok_iff.2
    exact ⟨first, heval.keeps a b first hba hfirst, (hnext first).keeps a b r hba hlast⟩
  total a ha := by
    obtain ⟨first, hfirst⟩ := heval.total a ha
    obtain ⟨last, hlast⟩ := (hnext first).total a ha
    exact ⟨last, bind_eq_ok_iff.2 ⟨first, hfirst, hlast⟩⟩
  congr a b hab := by
    rw [heval.congr a b hab]
    apply bind_congr_ok
    intro first _
    exact (hnext first).congr a b hab

variable {test : Assignment → α → Except Fault Bool} {xs : List α}

/-- The search for an element that passes. -/
theorem anyM (h : ∀ x ∈ xs, Reads vs (test · x)) : Reads vs fun a => xs.anyM (test a) := by
  induction xs with
  | nil => exact pure false
  | cons x xs ih =>
    simp only [List.anyM_cons]
    apply bind (h x (by simp))
    intro passes
    cases passes with
    | true => exact pure true
    | false => exact ih fun y hy => h y (by simp [hy])

/-- The search for an element that fails. -/
theorem allM (h : ∀ x ∈ xs, Reads vs (test · x)) : Reads vs fun a => xs.allM (test a) := by
  induction xs with
  | nil => exact pure true
  | cons x xs ih =>
    simp only [List.allM_cons]
    apply bind (h x (by simp))
    intro passes
    cases passes with
    | true => exact ih fun y hy => h y (by simp [hy])
    | false => exact pure false

end Reads

/-! ### Literals, clauses and formulas -/

namespace Assignment

variable {vs : List Var} {l : Literal} (hl : l.var ∈ vs)
include hl

theorem reads_evaluate : Reads vs (evaluate · l) where
  keeps a b r hba h := by
    cases hvalue : a.value? l.var with
    | none =>
      rw [evaluate_eq_error hvalue] at h
      cases h
    | some value =>
      rw [evaluate_eq (hba _ _ hvalue), ← h, evaluate_eq hvalue]
  total a ha := by
    obtain ⟨value, hvalue⟩ := ha l.var hl
    exact ⟨_, evaluate_eq hvalue⟩
  congr a b hab := by
    unfold evaluate
    rw [hab l.var hl]

theorem reads_refutes : Reads vs (refutes · l) :=
  (reads_evaluate hl).bind fun value => .pure !value

end Assignment

theorem Clause.reads_falsifiedBy {c : Clause} {vs : List Var} (h : ∀ l ∈ c, l.var ∈ vs) :
    Reads vs c.falsifiedBy :=
  .anyM fun l hl => Assignment.reads_refutes (h l hl)

theorem Clause.reads_satisfiedBy {c : Clause} {vs : List Var} (h : ∀ l ∈ c, l.var ∈ vs) :
    Reads vs c.satisfiedBy :=
  .anyM fun l hl => Assignment.reads_evaluate (h l hl)

theorem Clause.var_mem_vars {cs : List Clause} {c : Clause} {l : Literal} (hc : c ∈ cs)
    (hl : l ∈ c) : l.var ∈ Clause.vars cs :=
  Clause.mem_vars.2 (Clause.mem_mentioned.2 ⟨c, hc, l, hl, rfl⟩)

/-- **Evaluation of formulas under partial assignments.** A DNF that is or is not falsified under an
assignment, and a CNF that is or is not satisfied, stays so when more variables get values. There is a
result if the variables of the formula have values, and the result, or the fault, depends on the values
of these variables alone. -/
theorem reads_formulas :
    (∀ f : Dnf, Reads f.vars f.falsifiedBy) ∧
    ∀ c : Cnf, Reads (Clause.vars c.clauses) c.satisfiedBy := by
  constructor
  · intro f
    apply Reads.allM
    intro c hc
    exact Clause.reads_falsifiedBy fun l hl => Dnf.var_mem_vars hc hl
  · intro c
    apply Reads.allM
    intro d hd
    exact Clause.reads_satisfiedBy fun l hl => Clause.var_mem_vars hd hl

/-- A clause whose second literal is not read at first, and is true later. -/
theorem falsified_of_one_value :
    (Dnf.mk [[.pos 1, .pos 2]]).falsifiedBy (.ofLiterals [.neg 1, .pos 2]) = .ok true := by
  have hpartial : (Dnf.mk [[.pos 1, .pos 2]]).falsifiedBy (.ofLiterals [.neg 1]) = .ok true := rfl
  refine (reads_formulas.1 _).keeps _ _ true ?_ hpartial
  intro v value hvalue
  simp only [Assignment.ofLiterals, List.foldl_cons, List.foldl_nil, Assignment.value?_bind] at hvalue ⊢
  grind [Literal.var, Assignment.value?_empty]

/-- With its literals in the other order the clause cannot be judged at first. -/
example :
    (Dnf.mk [[.pos 2, .pos 1]]).falsifiedBy (.ofLiterals [.neg 1]) = .error (.unbound 2) := rfl

end Falsifier
