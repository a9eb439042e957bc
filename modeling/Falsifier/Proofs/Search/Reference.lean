import Falsifier.Proofs.Search.Invariant
import Falsifier.Sampling.Listed

/-!
# The search as it is described

A reference machine searches without preparing the formula. It keeps the values of the variables,
and whenever it needs a score it evaluates all clauses under the assignment in question. The local
search makes the same steps, from the same draws (`Solver.start_refines`): it is related to the
machine by `Solver.Refines`, which holds at the start and is kept when both make a step.
-/

namespace Falsifier.Search

open Sampling

/-- A local search that keeps nothing about the formula. -/
structure Reference (σ : Type) where
  formula : Dnf
  config : Config
  /-- The values of the variables of the formula, in their order. -/
  current : List Bool
  /-- How many moves were made since the last start. -/
  stall : Nat
  stats : Stats
  source : Source σ

namespace Reference

variable {σ : Type}

/-- The present number of clauses that are not falsified. -/
def score (r : Reference σ) : Nat :=
  r.formula.score (r.formula.assign r.current)

/-- The score after a change of the variable at position `i`. -/
def scoreAt (r : Reference σ) (i : Nat) : Nat :=
  r.formula.score (r.formula.assign (r.current.modify i (!·)))

/-- All clauses evaluate under the present values and after a change of one variable. -/
def Evaluates (r : Reference σ) : Prop :=
  ∀ c ∈ r.formula.clauses,
    (∃ b, c.falsifiedBy (r.formula.assign r.current) = .ok b) ∧
      ∀ i, ∃ b, c.falsifiedBy (r.formula.assign (r.current.modify i (!·))) = .ok b

/-- The least score after a change of one variable. -/
def least? (r : Reference σ) : Option Nat :=
  ((List.range r.formula.vars.length).map r.scoreAt).min?

/-- The positions, in increasing order, whose change gives the score. -/
def ties (r : Reference σ) (least : Nat) : List Nat :=
  (List.range r.formula.vars.length).filter (r.scoreAt · = least)

def move (r : Reference σ) (i : Nat) (source : Source σ) : Reference σ :=
  { r with
    current := r.current.modify i (!·)
    stall := r.stall + 1
    stats := ⟨r.stats.iterations + 1, r.stats.restarts, r.stats.moves + 1⟩
    source }

def spend (r : Reference σ) : Reference σ :=
  { r with stats := ⟨r.stats.iterations + 1, r.stats.restarts, r.stats.moves⟩ }

variable [Generator σ]

/-- Draw a value for each of the variables in turn. -/
def drawValues : List Var → Source σ → List Bool × Source σ
  | [], source => ([], source)
  | _ :: vars, source =>
    let (value, source) := source.bool
    let (values, source) := drawValues vars source
    (value :: values, source)

/-- The machine before its first step. -/
def start (f : Dnf) (config : Config) (source : Source σ) : Reference σ :=
  let (current, source) := drawValues f.vars source
  ⟨f, config, current, 0, ⟨0, 0, 0⟩, source⟩

def restart (r : Reference σ) : Reference σ :=
  let (current, source) := drawValues r.formula.vars r.source
  { r with
    current
    stall := 0
    stats := ⟨r.stats.iterations, r.stats.restarts + 1, r.stats.moves⟩
    source }

def step (r : Reference σ) : Step × Reference σ :=
  if r.config.maxIterations ≤ r.stats.iterations then (.budgetExhausted, r)
  else if r.score = 0 then (.falsified, r)
  else if r.formula.vars.isEmpty then (.budgetExhausted, r)
  else if r.config.maxStall < r.stall then (.restarted .stalled, r.restart)
  else match r.least? with
    | none => (.restarted .noImprovingMove, r.restart.spend)
    | some least =>
      if least < r.score then
        let (choice, source) := r.source.choose (r.ties least).length
        let i := (r.ties least).getD choice 0
        (.moved i r.score least, r.move i source)
      else (.restarted .noImprovingMove, r.restart.spend)

def after (r : Reference σ) : Nat → Reference σ
  | 0 => r
  | n + 1 => (r.after n).step.2

theorem drawValues_eq (vars : List Var) (source : Source σ) :
    drawValues vars source = source.bools vars.length := by
  induction vars generalizing source with
  | nil => rfl
  | cons v vars ih =>
      unfold Source.bools at ih ⊢
      rw [List.length_cons, Source.collect_succ, ← ih]
      rfl

end Reference

/-! ### One step -/

namespace Solver

variable {σ : Type}

/-- The search and the machine have come equally far. -/
structure Refines (s : Solver σ) (r : Reference σ) : Prop where
  sound : s.Sound r.formula
  config_eq : s.config = r.config
  current_eq : s.current.toList = r.current
  stall_eq : s.stall = r.stall
  stats_eq : s.stats = r.stats
  source_eq : s.source = r.source

namespace Refines

variable {s : Solver σ} {r : Reference σ}

theorem fitness_eq (h : s.Refines r) : s.fitness = r.score := by
  rw [h.sound.fitness_eq_score, h.current_eq]
  rfl

theorem evaluates (h : s.Refines r) : r.Evaluates := by
  intro c hc
  have hlength : r.current.length = r.formula.vars.length := by
    rw [← h.current_eq, h.sound.length_current]
  refine ⟨⟨_, falsifiedBy_assign hlength hc⟩, fun i => ⟨_, falsifiedBy_assign ?_ hc⟩⟩
  rw [List.length_modify, hlength]

/-- The fitness found from the occurrences is the score found by evaluation. -/
theorem neighbourFitness_eq (h : s.Refines r) {i : Nat} (hi : i < r.formula.vars.length) :
    s.landscape.neighbourFitness s.values s.fitness i = r.scoreAt i := by
  have hlength : (r.current.modify i (!·)).length = r.formula.vars.length := by
    rw [List.length_modify, ← h.current_eq, h.sound.length_current]
  have hi' : i < r.current.length := by rwa [← h.current_eq, h.sound.length_current]
  have hvalues : s.values = listed r.current := by
    rw [← h.current_eq]
    exact valuesOf_eq_listed s.current
  unfold Reference.scoreAt
  rw [score_assign hlength, listed_modify hi', h.sound.fitness_eq, h.sound.landscape_eq, hvalues]
  exact Landscape.neighbourFitness_eq hi _

/-- The best neighbours are the least of the scores and the positions that reach it. -/
theorem bestFlips?_eq (h : s.Refines r) :
    s.landscape.bestFlips? s.values s.fitness =
      r.least?.bind fun least => if least < r.score then some (least, r.ties least) else none := by
  have hscore : ∀ i < s.landscape.vars.size,
      s.landscape.neighbourFitness s.values s.fitness i = r.scoreAt i := by
    intro i hi
    exact h.neighbourFitness_eq (h.sound.size_vars ▸ hi)
  rw [bestFlips?_eq_of_score hscore, h.sound.size_vars, h.fitness_eq]
  rfl

theorem isEmpty_vars (h : s.Refines r) : s.landscape.vars.isEmpty = r.formula.vars.isEmpty := by
  rw [h.sound.landscape_eq]
  exact List.isEmpty_toArray _

theorem spend (h : s.Refines r) : s.spend.Refines r.spend where
  sound := h.sound.spend
  config_eq := h.config_eq
  current_eq := h.current_eq
  stall_eq := h.stall_eq
  stats_eq := by
    show Stats.mk _ _ _ = Stats.mk _ _ _
    rw [h.stats_eq]
  source_eq := h.source_eq

theorem move (h : s.Refines r) {i least : Nat} (hi : i < r.formula.vars.length)
    (hleast : s.landscape.neighbourFitness s.values s.fitness i = least) (source : Source σ) :
    (s.move i least source).Refines (r.move i source) where
  sound := h.sound.move hi hleast source
  config_eq := h.config_eq
  current_eq := by
    show (s.current.modify i (!·)).toList = r.current.modify i (!·)
    rw [Array.toList_modify, h.current_eq]
  stall_eq := congrArg (· + 1) h.stall_eq
  stats_eq := by
    show Stats.mk _ _ _ = Stats.mk _ _ _
    rw [h.stats_eq]
  source_eq := rfl

variable [Generator σ]

/-- Both draw the same values. -/
theorem bools_eq (h : s.Refines r) :
    s.source.bools s.landscape.vars.size = Reference.drawValues r.formula.vars r.source := by
  rw [Reference.drawValues_eq, h.sound.size_vars, h.source_eq]

theorem restart (h : s.Refines r) : s.restart.Refines r.restart where
  sound := h.sound.restart
  config_eq := h.config_eq
  current_eq := by
    show (s.source.bools s.landscape.vars.size).1 = (Reference.drawValues _ _).1
    rw [h.bools_eq]
  stall_eq := rfl
  stats_eq := by
    show Stats.mk _ _ _ = Stats.mk _ _ _
    rw [h.stats_eq]
  source_eq := by
    show (s.source.bools s.landscape.vars.size).2 = (Reference.drawValues _ _).2
    rw [h.bools_eq]

/-- Both make the same choice among the positions that reach the least score. -/
theorem pick_eq (h : s.Refines r) {least first : Nat} {others : List Nat}
    (hties : r.ties least = first :: others) :
    s.source.pick first others =
      ((r.ties least).getD (r.source.choose (r.ties least).length).1 0,
        (r.source.choose (r.ties least).length).2) := by
  have hlt := Source.choose_lt (n := (first :: others).length) (by simp) r.source
  rw [hties, h.source_eq]
  unfold Source.pick
  rw [List.getD_eq_getElem?_getD, List.getElem?_eq_getElem hlt]
  rfl

/-- **A step of the search is a step of the machine.** -/
theorem step (h : s.Refines r) : s.step.1 = r.step.1 ∧ s.step.2.Refines r.step.2 := by
  have hs := s.stepped
  generalize s.step = t at hs ⊢
  -- The conditions of the machine are those of the search, so its step is found by rewriting.
  unfold Reference.step
  rw [← h.config_eq, ← h.stats_eq, ← h.stall_eq, ← h.fitness_eq, ← h.isEmpty_vars]
  cases hs with
  | spent budget =>
      rw [if_pos budget]
      exact ⟨rfl, h⟩
  | falsified budget fitness =>
      rw [if_neg (Nat.not_le.2 budget), if_pos fitness]
      exact ⟨rfl, h⟩
  | constant budget fitness vars =>
      rw [if_neg (Nat.not_le.2 budget), if_neg fitness, if_pos vars]
      exact ⟨rfl, h⟩
  | stalled budget fitness vars stall =>
      rw [if_neg (Nat.not_le.2 budget), if_neg fitness, if_neg vars, if_pos stall]
      exact ⟨rfl, h.restart⟩
  | @moved budget fitness vars stall target first others best =>
      rw [if_neg (Nat.not_le.2 budget), if_neg fitness, if_neg vars, if_neg (Nat.not_lt.2 stall)]
      obtain ⟨hi, htarget⟩ := of_mem_bestFlips? best (Source.mem_pick _ _ s.source)
      rw [h.sound.size_vars] at hi
      rw [h.bestFlips?_eq, Option.bind_eq_some_iff] at best
      obtain ⟨least, hleast, best⟩ := best
      split at best
      · next hlt =>
        obtain ⟨rfl, hties⟩ := Prod.mk.inj (Option.some.inj best)
        have hpick := h.pick_eq hties
        rw [hpick] at hi htarget ⊢
        rw [hleast]
        simp only [h.fitness_eq, if_pos hlt]
        exact ⟨trivial, h.move hi htarget _⟩
      · cases best
  | stuck budget fitness vars stall best =>
      rw [if_neg (Nat.not_le.2 budget), if_neg fitness, if_neg vars, if_neg (Nat.not_lt.2 stall)]
      cases hleast : r.least? with
      | none => exact ⟨rfl, h.restart.spend⟩
      | some least =>
          -- The least score is reached somewhere, so it is not below the present one.
          have hle : ¬ least < r.score := by
            intro hlt
            obtain ⟨i, hi, hscore⟩ := List.mem_map.1 (List.min?_mem hleast)
            have hmem : i ∈ r.ties least := List.mem_filter.2 ⟨hi, by simp [hscore]⟩
            obtain ⟨first, others, hties⟩ := List.exists_cons_of_ne_nil (List.ne_nil_of_mem hmem)
            refine best least first others ?_
            rw [h.bestFlips?_eq, hleast, Option.bind_some, if_pos hlt, hties]
          simp only [h.fitness_eq, if_neg hle]
          exact ⟨trivial, h.restart.spend⟩

theorem after (h : s.Refines r) (n : Nat) : (s.after n).Refines (r.after n) := by
  induction n with
  | zero => exact h
  | succ n ih => exact ih.step.2

end Refines

/-! ### Whole runs -/

variable [Generator σ]

theorem refines_initial (f : Dnf) (config : Config) (source : Source σ) :
    (initial f config source).Refines (Reference.start f config source) where
  sound := sound_initial f config source
  config_eq := rfl
  current_eq := by
    show (source.bools f.vars.length).1 = (Reference.drawValues f.vars source).1
    rw [Reference.drawValues_eq]
  stall_eq := rfl
  stats_eq := rfl
  source_eq := by
    show (source.bools f.vars.length).2 = (Reference.drawValues f.vars source).2
    rw [Reference.drawValues_eq]

/-- **The search refines the machine.** From the start on, both make the same steps and agree after
each of them on everything that the machine keeps, and so on the words drawn. The machine never meets
a clause that does not evaluate. -/
theorem start_refines {f : Dnf} {config : Config} (source : Source σ) (hf : f.clauses ≠ [])
    (hc : config.check = .ok ()) :
    ∃ s, start f config source = .ok s ∧ ∀ n,
      (s.after n).step.1 = ((Reference.start f config source).after n).step.1 ∧
      (s.after n).landscape.vars.toList = f.vars ∧
      (s.after n).current.toList = ((Reference.start f config source).after n).current ∧
      (s.after n).fitness = ((Reference.start f config source).after n).score ∧
      (s.after n).stall = ((Reference.start f config source).after n).stall ∧
      (s.after n).stats = ((Reference.start f config source).after n).stats ∧
      (s.after n).source = ((Reference.start f config source).after n).source ∧
      ((Reference.start f config source).after n).Evaluates := by
  refine ⟨_, start_eq source hf hc, fun n => ?_⟩
  have hn := (refines_initial f config source).after n
  have hvars := ((sound_initial f config source).after n).faithful.vars_eq
  exact ⟨hn.step.1, hvars, hn.current_eq, hn.fitness_eq, hn.stall_eq, hn.stats_eq, hn.source_eq,
    hn.evaluates⟩

/-- A step of the machine, found by a step of the search. -/
theorem moved_of_two_clauses :
    (Reference.start ⟨[[.pos 1, .pos 3], [.neg 1]]⟩ ⟨3, 2⟩
      (Source.fresh (Listed.ofWords [4294967295, 4294967295]))).step.1 = .moved 1 1 0 := by
  obtain ⟨s, hs, h⟩ := start_refines (f := ⟨[[.pos 1, .pos 3], [.neg 1]]⟩)
    (Source.fresh (Listed.ofWords [4294967295, 4294967295])) (by decide)
    (show Config.check ⟨3, 2⟩ = .ok () from rfl)
  obtain rfl := Except.ok.inj hs
  exact (h 0).1.symm.trans (by decide)

end Solver
end Falsifier.Search
