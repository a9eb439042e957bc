import Falsifier.Proofs.Search.Invariant
import Falsifier.Proofs.Search.Run
import Falsifier.Sampling.Listed

/-!
# Soundness of the local search

When a search reports a model, its counter of clauses that are left true stands at zero, and the
formula is not looked at again. By the invariant the counter is the score of the present values, so
the model is right (`Solver.solve_sound`): it falsifies the formula and is about its variables.
-/

namespace Falsifier.Search

open Sampling

/-- The model falsifies the formula, and it is about the variables of the formula in order. -/
structure Genuine (f : Dnf) (m : Model) : Prop where
  falsifies : f.falsifiedBy m.toAssignment = .ok true
  /-- No variable has two literals, and they come in increasing order. -/
  increasing : (m.literals.map Literal.var).Pairwise (· < ·)
  /-- The variables are those that the formula mentions. -/
  mem_vars : ∀ v, v ∈ m.literals.map Literal.var ↔ ∃ c ∈ f.clauses, ∃ l ∈ c, l.var = v

namespace Solver

variable {σ : Type}

namespace Sound

variable {f : Dnf} {s : Solver σ}

theorem model_eq (h : s.Sound f) :
    s.model = ⟨f.vars.zipWith Literal.ofValue s.current.toList⟩ := by
  unfold model
  rw [h.landscape_eq]
  rfl

/-- The model of a state falsifies the formula just when the fitness is zero. -/
theorem falsifiedBy_model (h : s.Sound f) :
    f.falsifiedBy s.model.toAssignment = .ok (decide (s.fitness = 0)) := by
  rw [h.model_eq, h.fitness_eq_score]
  exact falsifiedBy_eq_score h.length_current

/-- A state of fitness zero has a genuine model. -/
theorem genuine (h : s.Sound f) (hfitness : s.fitness = 0) : Genuine f s.model := by
  have hvars : s.model.literals.map Literal.var = f.vars := by
    rw [h.model_eq]
    exact map_var_zipWith h.length_current
  refine ⟨?_, ?_, ?_⟩
  · rw [h.falsifiedBy_model, hfitness]
    rfl
  · rw [hvars]
    exact f.pairwise_vars
  · intro v
    rw [hvars]
    exact Dnf.mem_vars

/-- What a search reports from a sound state on is genuine. -/
theorem genuine_of_solve [Generator σ] (h : s.Sound f) {m : Model} {t : Solver σ}
    (hsolve : s.solve = (.falsified m, t)) : Genuine f m := by
  obtain ⟨k, rfl, hfitness, rfl⟩ := of_solve_eq_falsified hsolve
  exact (h.after k).genuine hfitness

end Sound

variable [Generator σ]

theorem falsify_eq {f : Dnf} {config : Config} (source : Source σ) (hf : f.clauses ≠ [])
    (hc : config.check = .ok ()) :
    falsify f config source = .ok (initial f config source).solve := by
  unfold falsify
  rw [start_eq source hf hc]
  rfl

/-- What a search reports that is begun and run in one go is genuine. -/
theorem genuine_of_falsify {f : Dnf} {m : Model} {config : Config} {source : Source σ}
    {t : Solver σ} (h : falsify f config source = .ok (.falsified m, t)) : Genuine f m := by
  unfold falsify at h
  cases hstart : start f config source with
  | error e =>
    rw [hstart] at h
    cases h
  | ok s =>
    obtain ⟨-, -, rfl⟩ := eq_initial_of_start hstart
    rw [hstart] at h
    exact (sound_initial f config source).genuine_of_solve (Except.ok.inj h)

/-- **Soundness.** A search that is run to its end, after any number of single steps, reports only
genuine models. So does the search that is begun and run in one go. -/
theorem solve_sound {f : Dnf} {config : Config} (source : Source σ) (hf : f.clauses ≠ [])
    (hc : config.check = .ok ()) :
    ∃ s, start f config source = .ok s ∧
      (∀ n m t, (s.after n).solve = (.falsified m, t) → Genuine f m) ∧
      ∀ m t, falsify f config source = .ok (.falsified m, t) → Genuine f m := by
  have hsound := sound_initial f config source
  refine ⟨_, start_eq source hf hc, ?_, ?_⟩
  · intro n m t hsolve
    exact (hsound.after n).genuine_of_solve hsolve
  · intro m t hfalsify
    exact genuine_of_falsify hfalsify

/-- A search that starts with both variables true, and is run to its end after one step. -/
theorem genuine_of_two_clauses :
    Genuine ⟨[[.pos 1, .pos 3], [.neg 1]]⟩ ⟨[.pos 1, .neg 3]⟩ := by
  obtain ⟨s, hs, hsolve, -⟩ := solve_sound (f := ⟨[[.pos 1, .pos 3], [.neg 1]]⟩)
    (Source.fresh (Listed.ofWords [4294967295, 4294967295])) (by decide)
    (show Config.check ⟨3, 2⟩ = .ok () from rfl)
  obtain rfl := Except.ok.inj hs
  exact hsolve 1 _ _ ((solve_of_ends (by decide)).trans (Prod.ext (by decide) rfl))

end Solver
end Falsifier.Search
