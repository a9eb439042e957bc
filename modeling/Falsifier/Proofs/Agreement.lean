import Falsifier.Proofs.Exhaustive.Exact
import Falsifier.Proofs.Search.Soundness

/-!
# Agreement of the two searches

The local search knows an assignment by the values of the variables that occur, and the exhaustive
search by a number whose bits are the values of all variables up to the largest. They agree
nevertheless (`falsify_agrees`): a tautology is never falsified at random, and where a random model is
found, the exhaustive search finds one that comes no later, once the random model is completed by
true for the variables that do not occur.
-/

namespace Falsifier

/-- The lexicographic order of assignments, not strict. -/
def Assignment.AtOrBefore (a b : Assignment) : Prop :=
  (∀ v, a.value? v = b.value? v) ∨ a.Precedes b

/-- Up to the largest variable of the formula, the assignment has the values of the model for the
variables that occur and is true for the others. -/
structure Completes (f : Dnf) (m : Model) (a : Assignment) : Prop where
  covers : a.Covers (f.maxVar?.getD 0)
  keeps : ∀ v ∈ f.vars, a.value? v = m.toAssignment.value? v
  unmentioned : ∀ v : Nat, 1 ≤ v → v ≤ f.maxVar?.getD 0 → v ∉ f.vars → a.value? v = some true

namespace Search.Genuine

open Exhaustive

variable {f : Dnf} {m : Model} (h : Genuine f m)
include h

theorem mem_vars_iff {v : Var} : v ∈ m.literals.map Literal.var ↔ v ∈ f.vars :=
  (h.mem_vars v).trans Dnf.mem_vars.symm

theorem nodup_vars : (m.literals.map Literal.var).Nodup :=
  h.increasing.imp Nat.ne_of_lt

theorem value?_of_mem_vars {v : Var} (hv : v ∈ f.vars) :
    m.toAssignment.value? v = some (completion m.toAssignment v) := by
  obtain ⟨l, hl, rfl⟩ := List.mem_map.1 (h.mem_vars_iff.2 hv)
  have hvalue : m.toAssignment.value? l.var = some l.positive :=
    Assignment.value?_ofLiterals h.nodup_vars hl
  rw [hvalue, completion_eq hvalue]

theorem value?_eq_none {v : Var} (hv : v ∉ f.vars) : m.toAssignment.value? v = none := by
  refine (Assignment.value?_foldl_bind ?_).trans (Assignment.value?_empty v)
  intro l hl hvar
  exact hv (h.mem_vars_iff.1 (List.mem_map.2 ⟨l, hl, hvar⟩))

/-- The valuation of a genuine model makes the formula false. -/
theorem falseUnder : f.falseUnder (completion m.toAssignment) = true :=
  Dnf.falseUnder_of_falsifiedBy (fun _ _ => completion_eq) h.falsifies

/-- Completing a model gives an assignment that falsifies the formula as well. -/
theorem exists_completes (hf : ∀ v ∈ f.vars, 1 ≤ v) :
    ∃ a, Completes f m a ∧ f.falsifiedBy a = .ok true := by
  have hvars := vars_bounds_of_pos hf
  refine ⟨.ofLiterals (literalsTo (f.maxVar?.getD 0) (completion m.toAssignment)), ⟨?_, ?_, ?_⟩, ?_⟩
  · exact covers_literalsTo
  · intro v hv
    rw [value?_literalsTo (hvars v hv).1 (hvars v hv).2, h.value?_of_mem_vars hv]
  · intro v hv hn hmem
    rw [value?_literalsTo hv hn, completion, h.value?_eq_none hmem]
    rfl
  · rw [falsifiedBy_literalsTo hvars, h.falseUnder]

end Search.Genuine

/-- No assignment that falsifies the formula comes before the first one. -/
theorem Exhaustive.First.atOrBefore {f : Dnf} {n : Nat} {m : Model} (h : First f n m)
    {a : Assignment} (ha : a.Covers n) (hfalse : f.falsifiedBy a = .ok true) :
    m.toAssignment.AtOrBefore a := by
  rcases h.first a ha hfalse with heq | hprecedes
  · exact .inl fun v => (heq v).symm
  · exact .inr hprecedes

namespace Search

open Sampling Exhaustive

/-- **The searches agree.** Where the exhaustive search finds a tautology, the local search spends
its budget. Where the local search finds a model, the exhaustive search finds one that is, in the
lexicographic order, at or before the completion of that model. -/
theorem falsify_agrees {σ : Type} [Generator σ] {f : Dnf} {config : Config} (source : Source σ)
    (hf : f.clauses ≠ []) (hlimit : ∀ v ∈ f.vars, 1 ≤ v ∧ v ≤ 24) (hc : config.check = .ok ()) :
    (∀ top, search f = .ok (.tautology top) →
      ∃ t, falsify f config source = .ok (.budgetExhausted, t)) ∧
    (∀ m t, falsify f config source = .ok (.falsified m, t) →
      ∃ m' tried a, search f = .ok (.falsified m' tried) ∧ Completes f m a ∧
        m'.toAssignment.AtOrBefore a) := by
  have hpos : ∀ v ∈ f.vars, 1 ≤ v := fun v hv => (hlimit v hv).1
  have hn : f.maxVar?.getD 0 ≤ limit := Dnf.maxVar_le fun v hv => (hlimit v hv).2
  constructor
  · intro top htautology
    obtain ⟨outcome, t, hfalsify⟩ : ∃ outcome t, falsify f config source = .ok (outcome, t) :=
      ⟨_, _, Solver.falsify_eq source hf hc⟩
    cases outcome with
    | budgetExhausted => exact ⟨t, hfalsify⟩
    | falsified m =>
      have hfalse := (Solver.genuine_of_falsify hfalsify).falsifies
      exact absurd hfalse (falsifiedBy_ne_of_search hpos htautology _)
  · intro m t hfalsify
    have hgenuine := Solver.genuine_of_falsify hfalsify
    obtain ⟨a, hcompletes, ha⟩ := hgenuine.exists_completes hpos
    rcases exists_verdict hf hn with htautology | ⟨m', tried, hfalsified⟩
    · exact absurd hgenuine.falsifies (falsifiedBy_ne_of_search hpos htautology _)
    · have hfirst := first_of_search hpos hfalsified
      exact ⟨m', tried, a, hfalsified, hcompletes, hfirst.atOrBefore hcompletes.covers ha⟩

/-- A tautology, and a formula for which the random model is later than the first one. -/
theorem falsify_of_two_formulas :
    (∃ t, falsify ⟨[[.pos 1], [.neg 1]]⟩ ⟨3, 2⟩ (Source.fresh (Listed.ofWords [0])) =
      .ok (.budgetExhausted, t)) ∧
    ∃ a, Completes ⟨[[.pos 1, .pos 3]]⟩ ⟨[.neg 1, .pos 3]⟩ a ∧
      (Model.mk [.pos 1, .pos 2, .neg 3]).toAssignment.AtOrBefore a := by
  constructor
  · have hrun : search ⟨[[.pos 1], [.neg 1]]⟩ = .ok (.tautology 1) := rfl
    exact (falsify_agrees _ (by decide) (by decide) rfl).1 1 hrun
  · let f : Dnf := ⟨[[.pos 1, .pos 3]]⟩
    let source := Source.fresh (Listed.ofWords [0, 4294967295])
    let s := Solver.initial f ⟨3, 2⟩ source
    have hrun : search ⟨[[.pos 1, .pos 3]]⟩ =
        .ok (.falsified ⟨[.pos 1, .pos 2, .neg 3]⟩ 2) := rfl
    have hsolve : s.solve = (.falsified ⟨[.neg 1, .pos 3]⟩, s) :=
      (Solver.solve_of_ends (by decide)).trans (Prod.ext (by decide) rfl)
    have hfalsify : falsify f ⟨3, 2⟩ source = .ok (.falsified ⟨[.neg 1, .pos 3]⟩, s) :=
      congrArg Except.ok hsolve
    obtain ⟨m', tried, a, hsearch, hcompletes, hle⟩ :=
      (falsify_agrees source (by decide) (by decide) rfl).2 _ s hfalsify
    cases hrun.symm.trans hsearch
    exact ⟨a, hcompletes, hle⟩

end Search
end Falsifier
