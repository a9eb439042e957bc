import Falsifier.Proofs.Search.Soundness

/-!
# Searches in lockstep

Two searches may do the same although their formulas or their settings are different. To show this it
is enough to relate their states, so that related states show the same and every step leads from
related states to related states (`Solver.Lockstep`). Then the searches do the same from the first
step to the last (`Solver.Lockstep.sameRun`).

Of its formula a search sees no more than the number of variables and how many clauses are left true
by the values at the positions. Formulas that agree in this, `Resembles`, are searched in the same
way (`Solver.lockstep_onLandscape`).
-/

namespace Falsifier.Search

open Sampling

/-- Change the model that is reported. -/
def Outcome.map (φ : Model → Model) : Outcome → Outcome
  | .falsified m => .falsified (φ m)
  | .budgetExhausted => .budgetExhausted

@[simp] theorem Outcome.map_id (o : Outcome) : o.map id = o := by
  cases o <;> rfl

namespace Solver

variable {σ : Type}

/-- The states have the same values and the same counts, and the same words come next. -/
structure SameState (s t : Solver σ) : Prop where
  current_eq : t.current = s.current
  fitness_eq : t.fitness = s.fitness
  stats_eq : t.stats = s.stats
  source_eq : t.source = s.source

variable [Generator σ]

/-- The second search does what the first one does, step by step. -/
structure SameRun (s t : Solver σ) : Prop where
  state : ∀ n, SameState (s.after n) (t.after n)
  step_eq : ∀ n, (t.after n).step.1 = (s.after n).step.1
  /-- Both runs to the end stop at the same step. -/
  last : ∃ n, s.solve = ((s.after n).outcome (s.after n).step.1, s.after n) ∧
    t.solve = ((t.after n).outcome (s.after n).step.1, t.after n)

namespace SameRun

variable {s t : Solver σ} {φ : Model → Model} (h : SameRun s t)
include h

/-- The models that the runs come to differ as the variables of their formulas do. -/
theorem model_eq {f g : Dnf} (hs : s.Sound f) (ht : t.Sound g)
    (hφ : ∀ values, ⟨g.vars.zipWith Literal.ofValue values⟩ =
      φ ⟨f.vars.zipWith Literal.ofValue values⟩) (n : Nat) :
    (t.after n).model = φ (s.after n).model := by
  rw [(hs.after n).model_eq, (ht.after n).model_eq, (h.state n).current_eq, hφ]

/-- The outcomes of the runs differ as the models of the states do. -/
theorem outcome_eq (hmodel : ∀ n, (t.after n).model = φ (s.after n).model) :
    t.solve.1 = s.solve.1.map φ := by
  obtain ⟨n, hs, ht⟩ := h.last
  rw [hs, ht]
  simp only [outcome, hmodel]
  split <;> rfl

end SameRun

/-- A relation that every step keeps, and by which two states show the same. -/
structure Lockstep (R : Solver σ → Solver σ → Prop) : Prop where
  state : ∀ {s t}, R s t → SameState s t
  step : ∀ {s t}, R s t → t.step.1 = s.step.1 ∧ R s.step.2 t.step.2

namespace Lockstep

variable {R : Solver σ → Solver σ → Prop} {s t : Solver σ} (h : Lockstep R) (hR : R s t)
include h hR

theorem after (n : Nat) : R (s.after n) (t.after n) := by
  induction n with
  | zero => exact hR
  | succ n ih => exact (h.step ih).2

/-- **Related searches run in the same way.** -/
theorem sameRun : SameRun s t := by
  have hstep (n : Nat) : (t.after n).step.1 = (s.after n).step.1 := (h.step (h.after hR n)).1
  obtain ⟨n, -, hends, hbefore⟩ := s.exists_calls
  refine ⟨fun n => h.state (h.after hR n), hstep, n, solve_eq_of_after hends hbefore, ?_⟩
  rw [← hstep n] at hends ⊢
  apply solve_eq_of_after hends
  intro k hk
  rw [hstep k]
  exact hbefore k hk

end Lockstep
end Solver

/-! ### Formulas that look the same -/

/-- To a search the formulas look the same: they have equally many variables, and the same values at
the positions leave equally many of their clauses true. -/
structure Resembles (f g : Dnf) : Prop where
  length_vars : g.vars.length = f.vars.length
  fitness_eq : ∀ values, (Landscape.ofDnf g).fitness values = (Landscape.ofDnf f).fitness values

namespace Resembles

variable {f g : Dnf} (h : Resembles f g)
include h

theorem size_vars : (Landscape.ofDnf g).vars.size = (Landscape.ofDnf f).vars.size :=
  h.length_vars

theorem isEmpty_vars : (Landscape.ofDnf g).vars.isEmpty = (Landscape.ofDnf f).vars.isEmpty := by
  simp only [Array.isEmpty, h.size_vars]

/-- The best neighbours stand at the same positions, and are equally good. -/
theorem bestFlips?_eq (values : Nat → Bool) :
    (Landscape.ofDnf g).bestFlips? values ((Landscape.ofDnf f).fitness values) =
      (Landscape.ofDnf f).bestFlips? values ((Landscape.ofDnf f).fitness values) := by
  have hf : ∀ i < (Landscape.ofDnf f).vars.size,
      (Landscape.ofDnf f).neighbourFitness values ((Landscape.ofDnf f).fitness values) i =
        (Landscape.ofDnf f).fitness (flipped values i) := by
    intro i hi
    exact Landscape.neighbourFitness_eq hi values
  have hg : ∀ i < (Landscape.ofDnf g).vars.size,
      (Landscape.ofDnf g).neighbourFitness values ((Landscape.ofDnf f).fitness values) i =
        (Landscape.ofDnf f).fitness (flipped values i) := by
    intro i hi
    rw [← h.fitness_eq values, ← h.fitness_eq]
    exact Landscape.neighbourFitness_eq hi values
  rw [bestFlips?_eq_of_score hf, bestFlips?_eq_of_score hg, h.size_vars]

end Resembles

namespace Solver

variable {σ : Type}

/-- The same state of a search, on another landscape. -/
def onLandscape (s : Solver σ) (L : Landscape) : Solver σ :=
  { s with landscape := L }

variable [Generator σ] {f g : Dnf}

theorem initial_onLandscape (hfg : Resembles f g) (config : Config) (source : Source σ) :
    initial g config source = (initial f config source).onLandscape (.ofDnf g) := by
  simp only [initial, onLandscape, hfg.size_vars, hfg.fitness_eq]

section Sound

variable {s : Solver σ} (h : s.Sound f) (hfg : Resembles f g)
include h hfg

theorem restart_onLandscape :
    (s.onLandscape (.ofDnf g)).restart = s.restart.onLandscape (.ofDnf g) := by
  simp only [restart, onLandscape, h.landscape_eq, hfg.size_vars, hfg.fitness_eq]

/-- A step on the other landscape has the same result and leads to the same state. -/
theorem step_onLandscape :
    (s.onLandscape (.ofDnf g)).step = (s.step.1, s.step.2.onLandscape (.ofDnf g)) := by
  have hempty : (Landscape.ofDnf g).vars.isEmpty = s.landscape.vars.isEmpty := by
    rw [h.landscape_eq, hfg.isEmpty_vars]
  have hbest : (Landscape.ofDnf g).bestFlips? s.values s.fitness =
      s.landscape.bestFlips? s.values s.fitness := by
    rw [h.landscape_eq, h.fitness_eq, hfg.bestFlips?_eq]
  have hrestart := restart_onLandscape h hfg
  have hs := s.stepped
  generalize s.step = r at hs ⊢
  -- The step is possible on the other landscape too, and no other step is.
  apply Stepped.eq
  cases hs with
  | spent budget => exact .spent budget
  | falsified budget fitness => exact .falsified budget fitness
  | constant budget fitness vars => exact .constant budget fitness (hempty.trans vars)
  | stalled budget fitness vars stall =>
    rw [← hrestart]
    exact .stalled budget fitness (hempty ▸ vars) stall
  | moved budget fitness vars stall best =>
    exact .moved (s := s.onLandscape (.ofDnf g)) budget fitness (hempty ▸ vars) stall
      (hbest.trans best)
  | stuck budget fitness vars stall best =>
    show Stepped _ (_, (s.restart.onLandscape (.ofDnf g)).spend)
    rw [← hrestart]
    refine .stuck (s := s.onLandscape (.ofDnf g)) budget fitness (hempty ▸ vars) stall ?_
    intro target first others hsome
    exact best target first others (hbest.symm.trans hsome)

end Sound

/-- Searches on formulas that look the same run in lockstep. -/
theorem lockstep_onLandscape (hfg : Resembles f g) :
    Lockstep (fun s t : Solver σ => s.Sound f ∧ t = s.onLandscape (.ofDnf g)) where
  state := by
    rintro s t ⟨-, rfl⟩
    exact ⟨rfl, rfl, rfl, rfl⟩
  step := by
    rintro s t ⟨h, rfl⟩
    rw [step_onLandscape h hfg]
    exact ⟨rfl, h.step, rfl⟩

/-- Searches on formulas that look the same do the same from their start. The models they come to
differ as the variables of the formulas do. -/
theorem exists_sameRun {config : Config} (source : Source σ) (hfg : Resembles f g)
    (hf : f.clauses ≠ []) (hg : g.clauses ≠ []) (hc : config.check = .ok ()) {φ : Model → Model}
    (hφ : ∀ values, ⟨g.vars.zipWith Literal.ofValue values⟩ =
      φ ⟨f.vars.zipWith Literal.ofValue values⟩) :
    ∃ s t, start f config source = .ok s ∧ start g config source = .ok t ∧ SameRun s t ∧
      (∀ n, (t.after n).model = φ (s.after n).model) ∧ t.solve.1 = s.solve.1.map φ := by
  have hrun : SameRun (initial f config source) (initial g config source) := by
    apply (lockstep_onLandscape hfg).sameRun
    exact ⟨sound_initial f config source, initial_onLandscape hfg config source⟩
  have hmodel := hrun.model_eq (sound_initial f config source) (sound_initial g config source) hφ
  exact ⟨_, _, start_eq source hf hc, start_eq source hg hc, hrun, hmodel, hrun.outcome_eq hmodel⟩

end Solver
end Falsifier.Search
