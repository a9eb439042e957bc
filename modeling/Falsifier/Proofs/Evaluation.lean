import Falsifier.Assignment

/-!
# Evaluation under total valuations

Evaluation stops early and faults on unbound variables. Where it gives a value, this is the plain
truth value under any valuation of all variables that agrees with the assignment
(`Dnf.falseUnder_of_falsifiedBy`), and it gives one whenever the variables of the formula are bound
(`Dnf.falsifiedBy_eq`). So facts about formulas are proved for valuations, where clauses and
literals can be taken in any order, and carried over to the evaluator.
-/

namespace Falsifier

/-- A value for every variable. -/
abbrev Valuation := Var → Bool

def Clause.falseUnder (g : Valuation) (c : Clause) : Bool :=
  c.any fun l => !l.holds (g l.var)

def Dnf.falseUnder (g : Valuation) (f : Dnf) : Bool :=
  f.clauses.all (Clause.falseUnder g)

theorem Dnf.falseUnder_eq_true_iff {f : Dnf} {g : Valuation} :
    f.falseUnder g = true ↔ ∀ c ∈ f.clauses, ∃ l ∈ c, l.holds (g l.var) = false := by
  simp [Dnf.falseUnder, Clause.falseUnder]

/-- Only the values of the variables of the formula matter. -/
theorem Dnf.falseUnder_of_agree {f : Dnf} {g g' : Valuation} (h : ∀ v ∈ f.vars, g v = g' v)
    (hg : f.falseUnder g = true) : f.falseUnder g' = true := by
  rw [Dnf.falseUnder_eq_true_iff] at hg ⊢
  intro c hc
  obtain ⟨l, hl, hfalse⟩ := hg c hc
  refine ⟨l, hl, ?_⟩
  rw [← h l.var (Dnf.var_mem_vars hc hl)]
  exact hfalse

/-! ### Tests that do not fault -/

section Tests

variable {ε α : Type} {p : α → Except ε Bool} {q : α → Bool}

theorem anyM_eq_ok {xs : List α} (h : ∀ x ∈ xs, p x = .ok (q x)) :
    xs.anyM p = .ok (xs.any q) := by
  induction xs with
  | nil => rfl
  | cons x xs ih =>
      have hx : p x = .ok (q x) := h x (by simp)
      have hxs : xs.anyM p = .ok (xs.any q) := ih fun y hy => h y (by simp [hy])
      rw [List.anyM_cons, hx, hxs, List.any_cons]
      cases q x <;> rfl

theorem allM_eq_ok {xs : List α} (h : ∀ x ∈ xs, p x = .ok (q x)) :
    xs.allM p = .ok (xs.all q) := by
  induction xs with
  | nil => rfl
  | cons x xs ih =>
      have hx : p x = .ok (q x) := h x (by simp)
      have hxs : xs.allM p = .ok (xs.all q) := ih fun y hy => h y (by simp [hy])
      rw [List.allM_cons, hx, hxs, List.all_cons]
      cases q x <;> rfl

/-- An answer is right although the tests after the deciding one may fault. -/
theorem any_eq_of_anyM {xs : List α} {b : Bool} (h : ∀ x ∈ xs, ∀ b, p x = .ok b → q x = b)
    (hb : xs.anyM p = .ok b) : xs.any q = b := by
  induction xs with
  | nil => cases hb; rfl
  | cons x xs ih =>
      rw [List.anyM_cons] at hb
      cases hx : p x with
      | error e => rw [hx] at hb; cases hb
      | ok b' =>
          rw [hx] at hb
          rw [List.any_cons, h x (by simp) b' hx]
          -- A test that passes decides; what follows it is not looked at.
          cases b' with
          | true => cases hb; rfl
          | false => exact ih (fun y hy => h y (by simp [hy])) hb

theorem all_eq_of_allM {xs : List α} {b : Bool} (h : ∀ x ∈ xs, ∀ b, p x = .ok b → q x = b)
    (hb : xs.allM p = .ok b) : xs.all q = b := by
  induction xs with
  | nil => cases hb; rfl
  | cons x xs ih =>
      rw [List.allM_cons] at hb
      cases hx : p x with
      | error e => rw [hx] at hb; cases hb
      | ok b' =>
          rw [hx] at hb
          rw [List.all_cons, h x (by simp) b' hx]
          cases b' with
          | true => exact ih (fun y hy => h y (by simp [hy])) hb
          | false => cases hb; rfl

end Tests

theorem mapM_eq_ok {ε α β : Type} {g : α → Except ε β} {h : α → β} {xs : List α}
    (hg : ∀ x ∈ xs, g x = .ok (h x)) : xs.mapM g = .ok (xs.map h) := by
  induction xs with
  | nil => rfl
  | cons x xs ih =>
      rw [List.mapM_cons, hg x (by simp), ih fun y hy => hg y (by simp [hy])]
      rfl

/-! ### Single literals -/

/-- The fault of reading the literal while its variable has no value. The number of the literal is
part of the message, and it may be impossible to write it. -/
def Literal.unread (l : Literal) : Fault :=
  match l.dimacs with
  | .ok x => .unbound x
  | .error e => e

namespace Assignment

variable {a : Assignment} {l : Literal}

theorem evaluate_eq {b : Bool} (h : a.value? l.var = some b) : a.evaluate l = .ok (l.holds b) := by
  simp only [evaluate, h]

theorem evaluate_eq_error (h : a.value? l.var = none) : a.evaluate l = .error l.unread := by
  simp only [evaluate, h, Literal.unread]
  cases l.dimacs <;> rfl

theorem refutes_eq {b : Bool} (h : a.value? l.var = some b) : a.refutes l = .ok (!l.holds b) := by
  simp only [refutes, evaluate_eq h]
  rfl

theorem refutes_eq_error (h : a.value? l.var = none) : a.refutes l = .error l.unread := by
  simp only [refutes, evaluate_eq_error h]
  rfl

/-- A literal that evaluates is bound. -/
theorem bound_of_refutes {b : Bool} (h : a.refutes l = .ok b) :
    ∃ value, a.value? l.var = some value := by
  cases hv : a.value? l.var with
  | some value => exact ⟨value, rfl⟩
  | none =>
      rw [refutes_eq_error hv] at h
      cases h

end Assignment

/-! ### Formulas whose variables are bound -/

section Bound

variable {a : Assignment} {g : Valuation}

theorem Clause.falsifiedBy_eq {c : Clause} (h : ∀ l ∈ c, a.value? l.var = some (g l.var)) :
    c.falsifiedBy a = .ok (c.falseUnder g) :=
  anyM_eq_ok fun l hl => Assignment.refutes_eq (h l hl)

theorem Dnf.falsifiedBy_eq {f : Dnf}
    (h : ∀ c ∈ f.clauses, ∀ l ∈ c, a.value? l.var = some (g l.var)) :
    f.falsifiedBy a = .ok (f.falseUnder g) :=
  allM_eq_ok fun c hc => Clause.falsifiedBy_eq (h c hc)

theorem Dnf.falsifiedBy_of_vars {f : Dnf} (h : ∀ v ∈ f.vars, a.value? v = some (g v)) :
    f.falsifiedBy a = .ok (f.falseUnder g) :=
  Dnf.falsifiedBy_eq fun _ hc _ hl => h _ (Dnf.var_mem_vars hc hl)

end Bound

/-! ### Partial assignments -/

section Partial

variable {a : Assignment} {g : Valuation} (hg : ∀ v b, a.value? v = some b → g v = b)
include hg

theorem Clause.falseUnder_of_falsifiedBy {c : Clause} {b : Bool} (h : c.falsifiedBy a = .ok b) :
    c.falseUnder g = b := by
  refine any_eq_of_anyM ?_ h
  intro l _ b hb
  obtain ⟨value, hv⟩ := Assignment.bound_of_refutes hb
  rw [Assignment.refutes_eq hv] at hb
  rw [hg _ _ hv]
  exact Except.ok.inj hb

theorem Dnf.falseUnder_of_falsifiedBy {f : Dnf} {b : Bool} (h : f.falsifiedBy a = .ok b) :
    f.falseUnder g = b :=
  all_eq_of_allM (fun _ _ _ hb => Clause.falseUnder_of_falsifiedBy hg hb) h

end Partial

/-! ### Assignments made of literals -/

/-- Literals after the ones about `v` do not change the value of `v`. -/
theorem Assignment.value?_foldl_bind {ls : List Literal} {a : Assignment} {v : Var}
    (h : ∀ l ∈ ls, l.var ≠ v) :
    (ls.foldl (fun a l => a.bind l.var l.positive) a).value? v = a.value? v := by
  induction ls generalizing a with
  | nil => rfl
  | cons l ls ih =>
      rw [List.foldl_cons, ih fun m hm => h m (by simp [hm]), Assignment.value?_bind,
        if_neg (h l (by simp))]

/-- When the literals are about different variables, each of them is true. -/
theorem Assignment.value?_ofLiterals {ls : List Literal} (hls : (ls.map Literal.var).Nodup)
    {l : Literal} (hl : l ∈ ls) : (Assignment.ofLiterals ls).value? l.var = some l.positive := by
  unfold Assignment.ofLiterals
  generalize Assignment.empty = a
  induction ls generalizing a with
  | nil => cases hl
  | cons m ls ih =>
      rw [List.map_cons, List.nodup_cons] at hls
      rw [List.foldl_cons]
      rcases List.mem_cons.1 hl with rfl | hl
      · rw [Assignment.value?_foldl_bind, Assignment.value?_bind, if_pos rfl]
        intro m hm hv
        exact hls.1 (List.mem_map.2 ⟨m, hm, hv⟩)
      · exact ih hls.2 hl _

theorem Literal.map_var_ofValue (vs : List Var) (g : Valuation) :
    (vs.map fun v => ofValue v (g v)).map var = vs := by
  rw [List.map_map]
  exact (List.map_congr_left fun v _ => var_ofValue v _).trans (List.map_id vs)

/-- Literals made from a valuation give their variables its values. -/
theorem Assignment.value?_ofValue {vs : List Var} (hvs : vs.Nodup) (g : Valuation) {v : Var}
    (hv : v ∈ vs) :
    (Assignment.ofLiterals (vs.map fun v => .ofValue v (g v))).value? v = some (g v) := by
  have hnodup : ((vs.map fun v => Literal.ofValue v (g v)).map Literal.var).Nodup := by
    rw [Literal.map_var_ofValue]
    exact hvs
  have hvalue := Assignment.value?_ofLiterals hnodup (List.mem_map_of_mem hv)
  rw [Literal.var_ofValue, Literal.positive_ofValue] at hvalue
  exact hvalue

end Falsifier
