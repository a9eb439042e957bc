import Falsifier.Proofs.Exhaustive.Exact
import Falsifier.Proofs.Negation

/-!
# Searching for a model of a CNF

By De Morgan's law the assignments that falsify the negation of a CNF are those that satisfy the CNF.
So the exhaustive search on the negation decides whether the CNF is satisfiable, and the model that
it reports is the first assignment that satisfies the CNF (`search_negate`).
-/

namespace Falsifier.Exhaustive

/-- The model is the first assignment to the variables 1 to `n` that satisfies the CNF. -/
structure FirstModel (c : Cnf) (n : Nat) (m : Model) : Prop where
  /-- There is one literal for each of the variables, in order. -/
  vars_eq : m.literals.map Literal.var = List.range' 1 n
  satisfies : c.satisfiedBy m.toAssignment = .ok true
  first : ∀ a : Assignment, a.Covers n → c.satisfiedBy a = .ok true →
    (∀ v, a.value? v = m.toAssignment.value? v) ∨ m.toAssignment.Precedes a

theorem First.firstModel {c : Cnf} {n : Nat} {m : Model} (h : First c.negate n m) :
    FirstModel c n m where
  vars_eq := h.vars_eq
  satisfies := Cnf.falsifiedBy_negate.1 h.falsifies
  first a ha hsatisfied := h.first a ha (Cnf.falsifiedBy_negate.2 hsatisfied)

theorem First.satisfiable {c : Cnf} {n : Nat} {m : Model} (h : First c.negate n m) :
    c.Satisfiable :=
  Cnf.satisfiable_iff.2 ⟨_, Dnf.falseUnder_of_falsifiedBy (fun _ _ => completion_eq) h.falsifies⟩

/-- **Searching the negation.** The negation of a CNF evaluates as the CNF does, and where a variable
has no value, both fault at the same literal. The search on the negation finds a tautology just when
the CNF is unsatisfiable, and else the first assignment that satisfies the CNF. -/
theorem search_negate (c : Cnf) :
    (∀ a : Assignment,
      Alike (Unread a c.clauses.flatten) (c.negate.falsifiedBy a) (c.satisfiedBy a)) ∧
    (c.clauses ≠ [] → (∀ d ∈ c.clauses, ∀ l ∈ d, 1 ≤ l.var ∧ l.var ≤ 24) →
      (search c.negate = .ok (.tautology (c.maxVar?.getD 0)) ↔ ¬ c.Satisfiable) ∧
      (c.Satisfiable → ∃ m tried, search c.negate = .ok (.falsified m tried) ∧
        FirstModel c (c.maxVar?.getD 0) m)) := by
  refine ⟨c.alike_negate, fun hc hlimit => ?_⟩
  have hbounds : ∀ v ∈ c.negate.vars, 1 ≤ v ∧ v ≤ 24 := by
    intro v hv
    obtain ⟨d, hd, l, hl, rfl⟩ := Cnf.mem_vars_negate.1 hv
    exact hlimit d hd l hl
  have hpos : ∀ v ∈ c.negate.vars, 1 ≤ v := fun v hv => (hbounds v hv).1
  have hn : c.negate.maxVar?.getD 0 ≤ limit := Dnf.maxVar_le fun v hv => (hbounds v hv).2
  have hempty : c.negate.clauses ≠ [] := by simpa [Cnf.negate] using hc
  rw [← c.maxVar?_negate]
  rcases exists_verdict hempty hn with htautology | ⟨m, tried, hfalsified⟩
  · have hunsat : ¬ c.Satisfiable := by
      intro hsat
      obtain ⟨g, hg⟩ := Cnf.satisfiable_iff.1 hsat
      have ha := falsifiedBy_literalsTo (vars_bounds_of_pos hpos) g
      rw [hg] at ha
      exact falsifiedBy_ne_of_search hpos htautology _ ha
    exact ⟨⟨fun _ => hunsat, fun _ => htautology⟩, fun hsat => absurd hsat hunsat⟩
  · have hfirst := first_of_search hpos hfalsified
    refine ⟨⟨fun h => ?_, fun hunsat => ?_⟩, fun _ => ⟨m, tried, hfalsified, hfirst.firstModel⟩⟩
    · rw [hfalsified] at h
      cases h
    · exact absurd hfirst.satisfiable hunsat

/-- Of the variables, only the first has to be false. -/
theorem firstModel_of_two_clauses :
    FirstModel ⟨[[.pos 1, .pos 3], [.neg 1]]⟩ 3 ⟨[.neg 1, .pos 2, .pos 3]⟩ := by
  have hsat : Cnf.Satisfiable ⟨[[.pos 1, .pos 3], [.neg 1]]⟩ := ⟨(· ≠ 1), by decide⟩
  have hrun : search (Cnf.negate ⟨[[.pos 1, .pos 3], [.neg 1]]⟩) =
      .ok (.falsified ⟨[.neg 1, .pos 2, .pos 3]⟩ 5) := rfl
  obtain ⟨-, hmodel⟩ := (search_negate ⟨[[.pos 1, .pos 3], [.neg 1]]⟩).2 (by decide) (by decide)
  obtain ⟨m, tried, hsearch, hfirst⟩ := hmodel hsat
  cases hrun.symm.trans hsearch
  exact hfirst

end Falsifier.Exhaustive
