import Falsifier.Proofs.Search.Budget
import Falsifier.Proofs.Search.Lockstep

/-!
# Forced starts

A start is forced once more moves have been made since the last one than are allowed. Every move
takes the fitness down, so a forced start ends a `Solver.Descent` that has taken the fitness down by
more than the allowed moves. The fitness is at most the number of clauses, and at fitness zero the
search is over. So a limit that is at least the number of clauses, less one, never forces a start, and
all such limits give the same search (`Solver.solve_stalled`).
-/

namespace Falsifier.Search.Solver

open Sampling

variable {σ : Type}

theorem Sound.fitness_le {f : Dnf} {s : Solver σ} (h : s.Sound f) :
    s.fitness ≤ f.clauses.length := by
  rw [h.fitness_eq]
  exact Landscape.fitness_ofDnf_le f s.values

variable [Generator σ]

/-! ### Descents -/

/-- A step that goes on is a start, or a move to a lower fitness that is allowed. -/
theorem start_or_move {s : Solver σ} (h : s.step.1.ends = false) :
    (∃ reason, s.step.1 = .restarted reason) ∧ s.step.2.stall = 0 ∨
      s.step.1.isMove = true ∧ s.stall ≤ s.config.maxStall ∧
        s.step.2.stall = s.stall + 1 ∧ s.step.2.fitness < s.fitness := by
  have hs := s.stepped
  generalize s.step = r at h hs ⊢
  cases hs with
  | spent | falsified | constant => cases h
  | stalled | stuck => exact .inl ⟨⟨_, rfl⟩, rfl⟩
  | moved _ _ _ stall best => exact .inr ⟨rfl, stall, rfl, lt_of_bestFlips? best⟩

/-- A start is forced only if the limit is exceeded. -/
theorem lt_stall_of_stalled {s : Solver σ} (h : s.step.1 = .restarted .stalled) :
    s.config.maxStall < s.stall := by
  have hs := s.stepped
  generalize s.step = r at h hs
  cases hs with
  | stalled _ _ _ stall => exact stall
  | spent | falsified | constant | moved | stuck => cases h

/-- From a start at `k` there are only moves up to `n`. They have been counted, and each of them has
taken the fitness down. -/
structure Descent (s : Solver σ) (k n : Nat) : Prop where
  begins : k = 0 ∨ ∃ j reason, k = j + 1 ∧ (s.after j).step.1 = .restarted reason
  moves : ∀ j, k ≤ j → j < n → (s.after j).step.1.isMove = true
  stall_eq : k + (s.after n).stall = n
  stall_le : (s.after n).stall ≤ s.config.maxStall + 1
  fitness_le : (s.after n).fitness + (s.after n).stall ≤ (s.after k).fitness

namespace Descent

variable {s : Solver σ} {k n : Nat}

/-- A start begins a descent. -/
theorem begin (hstall : (s.after n).stall = 0)
    (hbegins : n = 0 ∨ ∃ j reason, n = j + 1 ∧ (s.after j).step.1 = .restarted reason) :
    s.Descent n n where
  begins := hbegins
  moves j hj hlt := absurd hlt (Nat.not_lt.2 hj)
  stall_eq := by rw [hstall, Nat.add_zero]
  stall_le := by
    rw [hstall]
    exact Nat.zero_le _
  fitness_le := by
    rw [hstall]
    exact Nat.le_refl _

/-- A move continues a descent. -/
theorem move (h : s.Descent k n) (hmove : (s.after n).step.1.isMove = true)
    (hallowed : (s.after n).stall ≤ s.config.maxStall)
    (hstall : (s.after (n + 1)).stall = (s.after n).stall + 1)
    (hfitness : (s.after (n + 1)).fitness < (s.after n).fitness) : s.Descent k (n + 1) where
  begins := h.begins
  moves j hj hlt := by
    rcases Nat.lt_succ_iff_lt_or_eq.1 hlt with hlt | rfl
    · exact h.moves j hj hlt
    · exact hmove
  stall_eq := by rw [hstall, ← Nat.add_assoc, h.stall_eq]
  stall_le := by
    rw [hstall]
    exact Nat.succ_le_succ hallowed
  fitness_le := by
    have hle := h.fitness_le
    omega

end Descent

/-- A search that has gone on up to step `n` is in the middle of a descent. -/
theorem exists_descent {s : Solver σ} {n : Nat} (hstart : s.stall = 0)
    (hbefore : ∀ k < n, (s.after k).step.1.ends = false) : ∃ k, s.Descent k n := by
  induction n with
  | zero => exact ⟨0, .begin hstart (.inl rfl)⟩
  | succ n ih =>
    obtain ⟨k, hdescent⟩ := ih fun k hk => hbefore k (Nat.lt_succ_of_lt hk)
    rcases start_or_move (hbefore n (Nat.lt_succ_self n)) with
      ⟨⟨reason, hreason⟩, hstall⟩ | ⟨hmove, hallowed, hstall, hfitness⟩
    · exact ⟨n + 1, .begin hstall (.inr ⟨n, reason, rfl, hreason⟩)⟩
    · rw [config_after] at hallowed
      exact ⟨k, hdescent.move hmove hallowed hstall hfitness⟩

/-- A forced start ends a descent of one move more than the limit, to where some clause is left
true. -/
theorem descent_of_stalled {s : Solver σ} {n : Nat} (hstart : s.stall = 0)
    (h : (s.after n).step.1 = .restarted .stalled) :
    ∃ k, s.Descent k n ∧ (s.after n).stall = s.config.maxStall + 1 ∧ 0 < (s.after n).fitness := by
  have hends : (s.after n).step.1.ends = false := by
    rw [h]
    rfl
  obtain ⟨k, hdescent⟩ := exists_descent hstart fun k hk => goes_on_of_le (Nat.le_of_lt hk) hends
  have hstall := lt_stall_of_stalled h
  rw [config_after] at hstall
  exact ⟨k, hdescent, Nat.le_antisymm hdescent.stall_le hstall, fitness_pos_of_goes_on hends⟩

/-! ### Limits that are never exceeded -/

/-- The same state with another limit for the moves that may follow a start. -/
def withStall (s : Solver σ) (w : Nat) : Solver σ :=
  s.withConfig ⟨s.config.maxIterations, w⟩

/-- While neither limit is exceeded, they make no difference to a step. -/
theorem step_withStall {s : Solver σ} {w : Nat} (hs : s.fitness ≠ 0 → s.stall ≤ s.config.maxStall)
    (hw : s.fitness ≠ 0 → s.stall ≤ w) :
    (s.withStall w).step = (s.step.1, s.step.2.withStall w) := by
  have hstall (fitness : s.fitness ≠ 0) : s.config.maxStall < s.stall ↔ w < s.stall :=
    iff_of_false (Nat.not_lt.2 (hs fitness)) (Nat.not_lt.2 (hw fitness))
  rw [withStall, withStall, config_step]
  exact step_withConfig Iff.rfl hstall

/-- The moves since the last start are made up for by the fitness that they have taken away. -/
theorem Sound.fitness_add_stall_step {f : Dnf} {s : Solver σ} (h : s.Sound f)
    (hle : s.fitness + s.stall ≤ f.clauses.length) :
    s.step.2.fitness + s.step.2.stall ≤ f.clauses.length := by
  cases hends : s.step.1.ends with
  | true =>
    rw [step_snd_of_ends hends]
    exact hle
  | false =>
    rcases start_or_move hends with ⟨-, hstall⟩ | ⟨-, -, hstall, hfitness⟩
    · rw [hstall, Nat.add_zero]
      exact h.step.fitness_le
    · omega

/-- Searches whose limits are not below the number of clauses, less one, run in lockstep. -/
theorem lockstep_withStall {f : Dnf} {w : Nat} (hw : f.clauses.length - 1 ≤ w) :
    Lockstep (fun s t : Solver σ => (s.Sound f ∧ s.fitness + s.stall ≤ f.clauses.length ∧
      f.clauses.length - 1 ≤ s.config.maxStall) ∧ t = s.withStall w) where
  state := by
    rintro s t ⟨-, rfl⟩
    exact ⟨rfl, rfl, rfl, rfl⟩
  step := by
    rintro s t ⟨⟨h, hle, hlimit⟩, rfl⟩
    rw [step_withStall (by omega) (by omega)]
    refine ⟨rfl, ⟨h.step, h.fitness_add_stall_step hle, ?_⟩, rfl⟩
    rw [config_step]
    exact hlimit

/-! ### Every run -/

/-- **When a start is forced.** Just before a forced start there is a descent of one move more than
the limit, from the last start to a fitness that is still positive, and the formula has at least two
clauses more than the limit. Limits that are too high for this give the same search. -/
theorem solve_stalled {f : Dnf} {m : Nat} (source : Source σ) (hf : f.clauses ≠ []) (hm : 0 < m) :
    (∀ w, 0 < w → ∃ s, start f ⟨m, w⟩ source = .ok s ∧
      ∀ n, (s.after n).step.1 = .restarted .stalled →
        w + 2 ≤ f.clauses.length ∧ ∃ k, n = k + (w + 1) ∧
          (k = 0 ∨ ∃ j reason, k = j + 1 ∧ (s.after j).step.1 = .restarted reason) ∧
          (∀ j, k ≤ j → j < n → (s.after j).step.1.isMove = true) ∧
          0 < (s.after n).fitness ∧ (s.after n).fitness + (w + 1) ≤ (s.after k).fitness) ∧
    ∀ w w', max 1 (f.clauses.length - 1) ≤ w → max 1 (f.clauses.length - 1) ≤ w' →
      ∃ s t, start f ⟨m, w⟩ source = .ok s ∧ start f ⟨m, w'⟩ source = .ok t ∧ SameRun s t ∧
        (∀ n, (t.after n).model = (s.after n).model) ∧ t.solve.1 = s.solve.1 := by
  have hstart (w : Nat) (hw : 0 < w) : start f ⟨m, w⟩ source = .ok (initial f ⟨m, w⟩ source) :=
    start_eq source hf (Config.check_eq_ok_iff.2 ⟨hm, hw⟩)
  constructor
  · intro w hw
    refine ⟨_, hstart w hw, ?_⟩
    intro n hstalled
    obtain ⟨k, hdescent, hstall, hfitness⟩ := descent_of_stalled rfl hstalled
    have hlength := ((sound_initial f ⟨m, w⟩ source).after k).fitness_le
    obtain ⟨hbegins, hmoves, heq, -, hle⟩ := hdescent
    rw [hstall] at heq hle
    refine ⟨?_, k, heq.symm, hbegins, hmoves, hfitness, hle⟩
    calc
      w + 2 ≤ ((initial f ⟨m, w⟩ source).after n).fitness + (w + 1) := by omega
      _ ≤ ((initial f ⟨m, w⟩ source).after k).fitness := hle
      _ ≤ f.clauses.length := hlength
  · intro w w' hw hw'
    obtain ⟨hpos, hlimit⟩ := Nat.max_le.1 hw
    obtain ⟨hpos', hlimit'⟩ := Nat.max_le.1 hw'
    have hsound := sound_initial f ⟨m, w⟩ source
    have hrun : SameRun (initial f ⟨m, w⟩ source) (initial f ⟨m, w'⟩ source) :=
      (lockstep_withStall hlimit').sameRun ⟨⟨hsound, hsound.fitness_le, hlimit⟩, rfl⟩
    have hmodel := hrun.model_eq (φ := id) hsound (sound_initial f ⟨m, w'⟩ source) fun _ => rfl
    have houtcome := hrun.outcome_eq hmodel
    rw [Outcome.map_id] at houtcome
    exact ⟨_, _, hstart w hpos, hstart w' hpos', hrun, hmodel, houtcome⟩

/-- Two moves are made on four unit clauses and a start is forced. The limits three and five are never
exceeded. -/
theorem stalled_after_two_moves :
    ∃ s t u, start ⟨[[.pos 1], [.pos 2], [.pos 3], [.pos 4]]⟩ ⟨9, 1⟩
        (Source.fresh (Listed.ofWords [4294967295, 4294967295, 4294967295, 4294967295])) = .ok s ∧
      start ⟨[[.pos 1], [.pos 2], [.pos 3], [.pos 4]]⟩ ⟨9, 3⟩
        (Source.fresh (Listed.ofWords [4294967295, 4294967295, 4294967295, 4294967295])) = .ok t ∧
      start ⟨[[.pos 1], [.pos 2], [.pos 3], [.pos 4]]⟩ ⟨9, 5⟩
        (Source.fresh (Listed.ofWords [4294967295, 4294967295, 4294967295, 4294967295])) = .ok u ∧
      (s.after 2).step.1 = .restarted .stalled ∧ (∃ k, 2 = k + 2 ∧
        (s.after 2).fitness + 2 ≤ (s.after k).fitness) ∧ SameRun t u := by
  obtain ⟨hforced, hsame⟩ := solve_stalled (f := ⟨[[.pos 1], [.pos 2], [.pos 3], [.pos 4]]⟩) (m := 9)
    (Source.fresh (Listed.ofWords [4294967295, 4294967295, 4294967295, 4294967295])) (by decide)
    (by decide)
  obtain ⟨s, hs, h⟩ := hforced 1 (by decide)
  obtain ⟨t, u, ht, hu, hrun, -, -⟩ := hsame 3 5 (by decide) (by decide)
  have hstalled : (s.after 2).step.1 = .restarted .stalled := by
    obtain rfl := Except.ok.inj hs
    decide
  obtain ⟨-, k, hk, -, -, -, hfitness⟩ := h 2 hstalled
  exact ⟨s, t, u, hs, ht, hu, hstalled, ⟨k, hk, hfitness⟩, hrun⟩

end Falsifier.Search.Solver
