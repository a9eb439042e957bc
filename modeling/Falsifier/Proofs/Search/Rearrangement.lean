import Falsifier.Proofs.Search.Lockstep
import Mathlib.Logic.Relation

/-!
# Rearranged formulas

The order of the clauses, and the order and the repetitions of the literals in them, decide what the
prepared formula looks like. A search sees nothing of this, since it counts only how many clauses are
left true; and a clause with both literals of a variable is never counted. So formulas with the same
variables that are rearrangements of each other are searched in the same way
(`Search.Solver.solve_rearranged`).
-/

namespace Falsifier

/-! ### Clauses -/

/-- The clause has both literals of some variable. -/
def Clause.Contradictory (c : Clause) : Prop :=
  ∃ v, .pos v ∈ c ∧ .neg v ∈ c

/-- Clauses with the same literals are false under the same valuations. -/
theorem Clause.falseUnder_congr {c d : Clause} (h : ∀ l, l ∈ c ↔ l ∈ d) (a : Valuation) :
    c.falseUnder a = d.falseUnder a := by
  rw [Bool.eq_iff_iff]
  simp only [Clause.falseUnder, List.any_eq_true, h]

/-- One of two opposite literals is false. -/
theorem Clause.Contradictory.falseUnder {c : Clause} (h : c.Contradictory) (a : Valuation) :
    c.falseUnder a = true := by
  obtain ⟨v, hpos, hneg⟩ := h
  simp only [Clause.falseUnder, List.any_eq_true]
  cases hv : a v with
  | true => exact ⟨.neg v, hneg, by simp [Literal.holds, Literal.positive, Literal.var, hv]⟩
  | false => exact ⟨.pos v, hpos, by simp [Literal.holds, Literal.positive, Literal.var, hv]⟩

/-! ### Lists of clauses -/

/-- A single change that does not touch the meaning of the clauses. -/
inductive Rearranged : List Clause → List Clause → Prop where
  | clauses {cs ds : List Clause} : cs.Perm ds → Rearranged cs ds
  | literals {c d : Clause} {cs : List Clause} : c.Perm d → Rearranged (c :: cs) (d :: cs)
  | repetition {l : Literal} {c : Clause} {cs : List Clause} :
    l ∈ c → Rearranged (c :: cs) ((l :: c) :: cs)
  | contradiction {c : Clause} {cs : List Clause} : c.Contradictory → Rearranged cs (c :: cs)

/-- A change leaves equally many clauses true. -/
theorem Rearranged.countP_eq {cs ds : List Clause} (h : Rearranged cs ds) (a : Valuation) :
    cs.countP (fun c => !c.falseUnder a) = ds.countP fun c => !c.falseUnder a := by
  cases h with
  | clauses h => exact h.countP_eq _
  | literals h => rw [List.countP_cons, List.countP_cons, Clause.falseUnder_congr fun _ => h.mem_iff]
  | @repetition l c cs h =>
    have hcongr : Clause.falseUnder a c = Clause.falseUnder a (l :: c) := by
      apply Clause.falseUnder_congr
      grind
    rw [List.countP_cons, List.countP_cons, hcongr]
  | contradiction h => rw [List.countP_cons_of_neg (by simp [h.falseUnder])]

theorem countP_eq_of_eqvGen {cs ds : List Clause} (h : Relation.EqvGen Rearranged cs ds)
    (a : Valuation) : cs.countP (fun c => !c.falseUnder a) = ds.countP fun c => !c.falseUnder a := by
  induction h with
  | rel cs ds change => exact change.countP_eq a
  | refl cs => rfl
  | symm cs ds _ ih => exact ih.symm
  | trans cs ds es _ _ first second => exact first.trans second

/-! ### Formulas -/

namespace Dnf

/-- The one formula arises from the other by changes to and fro, and has the same variables. -/
structure Rearranges (f g : Dnf) : Prop where
  changes : Relation.EqvGen Rearranged f.clauses g.clauses
  mem_vars : ∀ v, v ∈ f.vars ↔ v ∈ g.vars

theorem Rearranges.vars_eq {f g : Dnf} (h : f.Rearranges g) : f.vars = g.vars :=
  eq_vars f.pairwise_vars h.mem_vars

theorem Rearranges.resembles {f g : Dnf} (h : f.Rearranges g) : Search.Resembles f g where
  length_vars := by rw [h.vars_eq]
  fitness_eq values := by
    rw [Search.Landscape.fitness_ofDnf, Search.Landscape.fitness_ofDnf, h.vars_eq,
      countP_eq_of_eqvGen h.changes]

end Dnf

namespace Search.Solver

open Sampling

variable {σ : Type} [Generator σ]

/-- **Arrangement does not matter.** Searches on rearrangements of a formula make the same steps
through the same states, with the same draws, and come to the same model or both give up. -/
theorem solve_rearranged {f g : Dnf} {config : Config} (source : Source σ) (hfg : f.Rearranges g)
    (hf : f.clauses ≠ []) (hg : g.clauses ≠ []) (hc : config.check = .ok ()) :
    ∃ s t, start f config source = .ok s ∧ start g config source = .ok t ∧ SameRun s t ∧
      (∀ n, (t.after n).model = (s.after n).model) ∧ t.solve.1 = s.solve.1 := by
  have hvars := hfg.vars_eq
  obtain ⟨s, t, hs, ht, hrun, hmodel, houtcome⟩ :=
    exists_sameRun source hfg.resembles hf hg hc (φ := id) fun _ => by rw [hvars, id]
  rw [Outcome.map_id] at houtcome
  exact ⟨s, t, hs, ht, hrun, hmodel, houtcome⟩

/-- The clauses in the other order, with a literal repeated and a contradiction added. -/
theorem solve_with_contradiction :
    ∃ s t, start ⟨[[.pos 1, .pos 3], [.neg 1]]⟩ ⟨3, 2⟩
        (Source.fresh (Listed.ofWords [4294967295, 4294967295])) = .ok s ∧
      start ⟨[[.pos 1, .neg 1], [.neg 1, .neg 1], [.pos 3, .pos 1]]⟩ ⟨3, 2⟩
        (Source.fresh (Listed.ofWords [4294967295, 4294967295])) = .ok t ∧
      SameRun s t ∧ t.solve.1 = .falsified ⟨[.pos 1, .neg 3]⟩ := by
  have hvars : Dnf.vars ⟨[[.pos 1, .pos 3], [.neg 1]]⟩ =
      Dnf.vars ⟨[[.pos 1, .neg 1], [.neg 1, .neg 1], [.pos 3, .pos 1]]⟩ := by decide
  have hfg : Dnf.Rearranges ⟨[[.pos 1, .pos 3], [.neg 1]]⟩
      ⟨[[.pos 1, .neg 1], [.neg 1, .neg 1], [.pos 3, .pos 1]]⟩ := by
    refine ⟨?_, ?_⟩
    · apply Relation.EqvGen.trans _ [[.pos 3, .pos 1], [.neg 1]]
      · exact .rel _ _ (.literals (.swap _ _ _))
      apply Relation.EqvGen.trans _ [[.neg 1], [.pos 3, .pos 1]]
      · exact .rel _ _ (.clauses (.swap _ _ _))
      apply Relation.EqvGen.trans _ [[.neg 1, .neg 1], [.pos 3, .pos 1]]
      · exact .rel _ _ (.repetition (by decide))
      · exact .rel _ _ (.contradiction ⟨1, by decide, by decide⟩)
    · intro v
      rw [hvars]
  obtain ⟨s, t, hs, ht, hrun, -, houtcome⟩ := solve_rearranged
    (Source.fresh (Listed.ofWords [4294967295, 4294967295])) hfg (by decide) (by decide)
    (show Config.check ⟨3, 2⟩ = .ok () from rfl)
  refine ⟨s, t, hs, ht, hrun, houtcome.trans ?_⟩
  obtain rfl := Except.ok.inj hs
  rw [solve_eq_of_after (n := 1) (by decide) (by decide)]
  decide

end Search.Solver
end Falsifier
