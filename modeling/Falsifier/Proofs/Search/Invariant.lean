import Falsifier.Proofs.Search.Checked
import Falsifier.Sampling.Listed

/-!
# The invariant of the local search

A search never looks at its formula again. It works on the prepared formula, and it keeps the
fitness up to date by adding what a move changes. `Solver.Sound` is what every step keeps of this:
the prepared formula is that of the formula, there is a value for each variable, and the fitness is
that of the values. `Solver.faithful_after` spells out what it means for the formula itself, in every
state that steps lead to.
-/

namespace Falsifier.Search

open Sampling

namespace Solver

variable {σ : Type}

/-- The state belongs to a search on the formula, and its fitness is that of its values. -/
structure Sound (f : Dnf) (s : Solver σ) : Prop where
  landscape_eq : s.landscape = .ofDnf f
  size_current : s.current.size = f.vars.length
  fitness_eq : s.fitness = (Landscape.ofDnf f).fitness s.values

namespace Sound

variable {f : Dnf} {s : Solver σ}

theorem size_vars (h : s.Sound f) : s.landscape.vars.size = f.vars.length := by
  rw [h.landscape_eq]
  rfl

theorem spend (h : s.Sound f) : s.spend.Sound f :=
  ⟨h.landscape_eq, h.size_current, h.fitness_eq⟩

/-- A move to a neighbour whose fitness was found from the occurrences. -/
theorem move (h : s.Sound f) {i target : Nat} (hi : i < f.vars.length)
    (htarget : s.landscape.neighbourFitness s.values s.fitness i = target)
    (source : Source σ) : (s.move i target source).Sound f where
  landscape_eq := h.landscape_eq
  size_current := by
    show (s.current.modify i (!·)).size = _
    rw [Array.size_modify, h.size_current]
  fitness_eq := by
    show target = (Landscape.ofDnf f).fitness (valuesOf (s.current.modify i (!·)))
    rw [valuesOf_modify (h.size_current ▸ hi), ← htarget, h.landscape_eq, h.fitness_eq]
    exact Landscape.neighbourFitness_eq hi s.values

end Sound

/-! ### What the invariant says about the formula -/

/-- A state of a search agrees with the formula in all that it keeps about it. -/
structure Faithful (f : Dnf) (s : Solver σ) : Prop where
  /-- There is one value for each variable. -/
  size_current : s.current.size = s.landscape.vars.size
  vars_eq : s.landscape.vars.toList = f.vars
  increasing : s.landscape.vars.toList.Pairwise (· < ·)
  /-- The variables are those that the formula mentions. -/
  mem_vars : ∀ v, v ∈ s.landscape.vars ↔ ∃ c ∈ f.clauses, ∃ l ∈ c, l.var = v
  /-- Every position in a clause is that of a variable. -/
  positions : ∀ c ∈ s.landscape.clauses, ∀ p ∈ c, p.position < s.landscape.vars.size
  /-- The clauses are those of the formula, literal by literal. -/
  clauses : s.landscape.clauses.toList.map (·.map fun p =>
    (s.landscape.vars[p.position]?, p.positive)) =
      f.clauses.map (·.map fun l => (some l.var, l.positive))
  size_occurrences : s.landscape.occurrences.size = s.landscape.vars.size
  /-- Each row of occurrences lists the clauses that mention the variable, in increasing order. -/
  occurrences : ∀ (i : Nat) (v : Var), s.landscape.vars[i]? = some v →
    ∃ row : Array Nat, s.landscape.occurrences[i]? = some row ∧ row.toList.Pairwise (· < ·) ∧
      ∀ k, k ∈ row ↔ ∃ c, f.clauses[k]? = some c ∧ ∃ l ∈ c, l.var = v
  evaluates : ∀ c ∈ f.clauses, ∃ b, c.falsifiedBy (f.assign s.current.toList) = .ok b
  /-- The fitness is the number of clauses that the evaluator finds not falsified. -/
  fitness_eq : s.fitness = f.score (f.assign s.current.toList)

namespace Sound

variable {f : Dnf} {s : Solver σ}

theorem length_current (h : s.Sound f) : s.current.toList.length = f.vars.length := by
  rw [Array.length_toList, h.size_current]

theorem fitness_eq_score (h : s.Sound f) : s.fitness = f.score (f.assign s.current.toList) := by
  rw [score_assign h.length_current, ← valuesOf_eq_listed]
  exact h.fitness_eq

theorem faithful (h : s.Sound f) : s.Faithful f where
  size_current := by rw [h.size_current, h.size_vars]
  vars_eq := by rw [h.landscape_eq]; rfl
  increasing := by rw [h.landscape_eq]; exact f.pairwise_vars
  mem_vars v := by
    rw [h.landscape_eq, ← Array.mem_toList_iff]
    exact Dnf.mem_vars
  positions := by
    rw [h.landscape_eq]
    exact Landscape.position_lt
  clauses := by
    rw [h.landscape_eq]
    exact Landscape.map_clauses_ofDnf f
  size_occurrences := by
    rw [h.size_vars, h.landscape_eq]
    exact Landscape.size_occurrences_ofDnf f
  occurrences i v hv := by
    rw [h.landscape_eq] at hv ⊢
    exact Landscape.exists_row hv
  evaluates c hc := ⟨_, falsifiedBy_assign h.length_current hc⟩
  fitness_eq := h.fitness_eq_score

end Sound

variable [Generator σ]

/-! ### Beginning a search -/

theorem start_eq {f : Dnf} {config : Config} (source : Source σ) (hf : f.clauses ≠ [])
    (hc : config.check = .ok ()) : start f config source = .ok (initial f config source) := by
  have hempty : f.clauses.isEmpty = false := by simpa using hf
  unfold start
  rw [hc, hempty]
  rfl

/-- A search that begins has valid settings and a formula with clauses. -/
theorem eq_initial_of_start {f : Dnf} {config : Config} {source : Source σ} {s : Solver σ}
    (h : start f config source = .ok s) :
    f.clauses ≠ [] ∧ config.check = .ok () ∧ s = initial f config source := by
  unfold start at h
  split at h
  · cases h
  · next hc =>
    split at h
    · cases h
    · next hempty =>
      have hf : f.clauses ≠ [] := by simpa using hempty
      cases h
      exact ⟨hf, hc, rfl⟩

/-! ### What every step keeps -/

theorem sound_initial (f : Dnf) (config : Config) (source : Source σ) :
    Sound f (initial f config source) where
  landscape_eq := rfl
  size_current := by
    show (source.bools f.vars.length).1.toArray.size = _
    rw [List.size_toArray, Source.length_bools]
  fitness_eq := rfl

namespace Sound

variable {f : Dnf} {s : Solver σ}

theorem restart (h : s.Sound f) : s.restart.Sound f where
  landscape_eq := h.landscape_eq
  size_current := by
    show (s.source.bools s.landscape.vars.size).1.toArray.size = _
    rw [List.size_toArray, Source.length_bools, h.size_vars]
  fitness_eq := by
    show s.landscape.fitness s.restart.values = _
    rw [h.landscape_eq]

theorem step (h : s.Sound f) : s.step.2.Sound f := by
  have hs := s.stepped
  generalize s.step = r at hs ⊢
  cases hs with
  | spent => exact h
  | falsified => exact h
  | constant => exact h
  | stalled => exact h.restart
  | moved _ _ _ _ best =>
      obtain ⟨hi, htarget⟩ := of_mem_bestFlips? best (Source.mem_pick _ _ s.source)
      exact h.move (h.size_vars ▸ hi) htarget _
  | stuck => exact h.restart.spend

theorem after (h : s.Sound f) (n : Nat) : (s.after n).Sound f := by
  induction n with
  | zero => exact h
  | succ n ih => exact ih.step

end Sound

/-- **The invariant of the search.** In every state that steps lead to, what the search keeps about
its formula is right. No variable was missing when the formula was prepared, and at every position
the neighbour can be looked at without a fault: this gives the score of the changed values and
leaves the present ones as they were. A score is at most the number of clauses, so that no sum is
larger than a size. -/
theorem faithful_after {f : Dnf} {config : Config} {source : Source σ} {s : Solver σ}
    (h : start f config source = .ok s) (n : Nat) :
    (s.after n).Faithful f ∧
      compileClauses f = .ok (s.after n).landscape.clauses.toList ∧
      ∀ i < (s.after n).landscape.vars.size, ∃ score,
        score = f.score (f.assign ((s.after n).current.toList.modify i (!·))) ∧
        score ≤ f.clauses.length ∧
        flipFitness (s.after n).landscape (s.after n).fitness i (s.after n).current =
          .ok (score, (s.after n).current) ∧
        (s.after n).landscape.neighbourFitness (s.after n).values (s.after n).fitness i =
          score := by
  obtain ⟨-, -, rfl⟩ := eq_initial_of_start h
  have hn := (sound_initial f config source).after n
  generalize (initial f config source).after n = t at hn
  refine ⟨hn.faithful, ?_, fun i hi => ?_⟩
  · rw [hn.landscape_eq]
    exact compileClauses_eq f
  · rw [hn.size_vars] at hi
    have hlength : (t.current.toList.modify i (!·)).length = f.vars.length := by
      rw [List.length_modify, hn.length_current]
    have hscore : f.score (f.assign (t.current.toList.modify i (!·))) =
        (Landscape.ofDnf f).fitness (flipped t.values i) := by
      rw [score_assign hlength, listed_modify (hn.length_current ▸ hi), ← valuesOf_eq_listed]
      rfl
    refine ⟨_, rfl, List.countP_le_length, ?_, ?_⟩
    · rw [hn.landscape_eq, hn.fitness_eq, hscore]
      exact flipFitness_eq hn.size_current hi
    · rw [hn.landscape_eq, hn.fitness_eq, hscore]
      exact Landscape.neighbourFitness_eq hi t.values

/-- A neighbour after one step, for a formula with a clause that mentions a variable three times. -/
theorem flipFitness_of_repeated :
    ∃ s, start ⟨[[.pos 3, .neg 3, .pos 3], [.pos 1, .pos 3], [.neg 1]]⟩ ⟨3, 2⟩
      (Source.fresh (Listed.ofWords [4294967295, 4294967295])) = .ok s ∧
      flipFitness (s.after 1).landscape (s.after 1).fitness 0 (s.after 1).current =
        .ok (1, (s.after 1).current) := by
  refine ⟨_, rfl, ?_⟩
  obtain ⟨score, hscore, -, hflip, -⟩ :=
    (faithful_after (f := ⟨[[.pos 3, .neg 3, .pos 3], [.pos 1, .pos 3], [.neg 1]]⟩)
      (show start _ ⟨3, 2⟩ (Source.fresh (Listed.ofWords [4294967295, 4294967295])) = .ok _
        from rfl) 1).2.2 0 (by decide)
  rw [hflip, hscore]
  rfl

end Solver
end Falsifier.Search
