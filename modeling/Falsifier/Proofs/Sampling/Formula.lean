import Falsifier.Proofs.Sampling.Position
import Falsifier.Proofs.Search.Rearrangement
import Falsifier.Sampling.Formula
import Falsifier.Sampling.Listed
import Mathlib.Data.List.Nodup

/-!
# The shape of random formulas

A random formula is made from a fixed number of draws of 64 bits, one for each clause and variable.
Whatever these draws are, every clause that is kept lists its literals by increasing variables, so
that no variable occurs twice in it. Which clauses are dropped has no influence on the draws, and a
longer formula from the same source begins with the shorter one (`Sampling.dnfWithWeights_shape`).
-/

namespace Falsifier

/-- The clause has a literal, and its variables increase and are among 1 to `n`. -/
structure Clause.Ascending (n : Nat) (c : Clause) : Prop where
  ne_nil : c ≠ []
  increasing : (c.map Literal.var).Pairwise (· < ·)
  var_mem : ∀ l ∈ c, 1 ≤ l.var ∧ l.var ≤ n

/-- Increasing variables are different. -/
theorem Clause.Ascending.not_contradictory {n : Nat} {c : Clause} (h : c.Ascending n) :
    ¬ c.Contradictory := by
  rintro ⟨v, hpos, hneg⟩
  have hnodup : (c.map Literal.var).Nodup := h.increasing.imp Nat.ne_of_lt
  have heq : Literal.pos v = .neg v := List.inj_on_of_nodup_map hnodup hpos hneg rfl
  cases heq

namespace Sampling

/-! ### Clauses -/

theorem Slot.var_of_literal? {slot : Slot} {v : Var} {l : Literal} (h : slot.literal? v = some l) :
    l.var = v := by
  cases slot with
  | positive | negative =>
    cases h
    rfl
  | absent => cases h

theorem increasing_clauseOfSlots (slots : List Slot) :
    ((clauseOfSlots slots).map Literal.var).Pairwise (· < ·) := by
  have hindices : slots.zipIdx.Pairwise (·.2 < ·.2) := by
    rw [← List.pairwise_map (f := Prod.snd), List.zipIdx_map_snd]
    exact List.pairwise_lt_range'
  rw [List.pairwise_map, clauseOfSlots, List.pairwise_filterMap]
  apply hindices.imp
  intro first second hlt l hl l' hl'
  rw [Slot.var_of_literal? hl, Slot.var_of_literal? hl']
  exact Nat.succ_lt_succ hlt

theorem var_mem_clauseOfSlots {slots : List Slot} {l : Literal} (h : l ∈ clauseOfSlots slots) :
    1 ≤ l.var ∧ l.var ≤ slots.length := by
  obtain ⟨⟨slot, i⟩, hmem, hl⟩ := List.mem_filterMap.1 h
  have hi : i < slots.length := List.snd_lt_of_mem_zipIdx hmem
  have hvar : l.var = i + 1 := Slot.var_of_literal? hl
  rw [hvar]
  exact ⟨Nat.succ_pos i, hi⟩

variable {σ : Type} [Generator σ]

/-! ### Draws -/

theorem Sampler.takes_draw (d : Sampler) : Source.Takes (σ := σ) d.draw 2 := fun _ => rfl

theorem takes_drawClause (d : Sampler) (n : Nat) : Source.Takes (σ := σ) (drawClause d n) (2 * n) :=
  d.takes_draw.collect n

theorem takes_drawDnf (d : Sampler) (n count : Nat) :
    Source.Takes (σ := σ) (drawDnf d n count) (2 * n * count) :=
  (takes_drawClause d n).collect count

/-! ### Formulas -/

section Clauses

variable {d : Sampler} {n count : Nat} {s : Source σ}

theorem ascending_drawClause (h : (drawClause d n s).1 ≠ []) :
    (drawClause d n s).1.Ascending n where
  ne_nil := h
  increasing := increasing_clauseOfSlots _
  var_mem l hl := by
    rw [← Source.length_collect d.draw n s]
    exact var_mem_clauseOfSlots hl

theorem ascending_of_mem_collect {c : Clause} (hc : c ∈ (s.collect (drawClause d n) count).1)
    (hne : c ≠ []) : c.Ascending n := by
  induction count generalizing s with
  | zero => cases hc
  | succ count ih =>
    rw [Source.collect_succ] at hc
    rcases List.mem_cons.1 hc with rfl | hc
    · exact ascending_drawClause hne
    · exact ih hc

theorem ascending_of_mem_drawDnf {c : Clause} (h : c ∈ (drawDnf d n count s).1.clauses) :
    c.Ascending n := by
  obtain ⟨hc, hne⟩ := List.mem_filter.1 h
  exact ascending_of_mem_collect hc (by simpa using hne)

theorem length_drawDnf_le : (drawDnf d n count s).1.clauses.length ≤ count := by
  calc
    _ ≤ (s.collect (drawClause d n) count).1.length := List.length_filter_le _ _
    _ = count := Source.length_collect _ _ _

theorem drawDnf_prefix {more : Nat} (h : count ≤ more) :
    (drawDnf d n count s).1.clauses <+: (drawDnf d n more s).1.clauses := by
  obtain ⟨later, rfl⟩ := Nat.exists_eq_add_of_le h
  have hprefix : (s.collect (drawClause d n) count).1 <+:
      (s.collect (drawClause d n) (count + later)).1 := by
    rw [Source.collect_add]
    exact List.prefix_append _ _
  exact hprefix.filter _

end Clauses

/-! ### Weights -/

/-- Weights are rejected by their check only. The range below their sum faults. -/
theorem Sampler.ofWeights_eq_rejected_iff {w : Weights} {e : WeightError} :
    ofWeights w = .error (.rejected e) ↔ w.check = .error e := by
  unfold ofWeights
  cases w.check with
  | error e' =>
    show Except.error (WeightFailure.rejected e') = _ ↔ _
    simp
  | ok _ =>
    cases checkedWidth w.total with
    | error f =>
      show Except.error (WeightFailure.fault f) = _ ↔ _
      simp
    | ok width =>
      show Except.ok _ = _ ↔ _
      simp

/-- The weights of the table are accepted. -/
theorem Sampler.exists_of_mem_table {w : Weights} (hw : w ∈ Weights.table) :
    ∃ d, ofWeights w = .ok d := by
  have haccepted : ∀ w ∈ Weights.table, (ofWeights w).isOk = true := by decide +kernel
  have hok := haccepted w hw
  cases h : ofWeights w with
  | ok d => exact ⟨d, rfl⟩
  | error e =>
    rw [h] at hok
    cases hok

/-- Draw a formula from a shared source. -/
def sharedDnf (w : Weights) (n count : Nat) : Shared σ WeightFailure Dnf := do
  let d ← Sampler.ofWeights w
  Shared.draw (drawDnf d n count)

theorem dnfWithWeights_of_ofWeights {w : Weights} {d : Sampler} (h : Sampler.ofWeights w = .ok d)
    (n count : Nat) (s : Source σ) : dnfWithWeights w n count s = .ok (drawDnf d n count s) := by
  rw [dnfWithWeights, h]
  rfl

/-- **Random formulas.** If the weights are rejected, nothing is drawn. If they are accepted, there is a
formula of at most `count` clauses, each of them with increasing variables among 1 to `n`, and the source
has given one number of 64 bits for each of `count` clauses and `n` variables. A larger count adds clauses
at the end. -/
theorem dnfWithWeights_shape (w : Weights) (n count : Nat) (s : Source σ) :
    (∀ e, w.check = .error e →
      dnfWithWeights w n count s = .error (.rejected e) ∧
      (sharedDnf w n count).run s = (.error (.rejected e), s)) ∧
    ∀ d, Sampler.ofWeights w = .ok d → ∃ f t,
      dnfWithWeights w n count s = .ok (f, t) ∧
      (sharedDnf w n count).run s = (.ok f, t) ∧
      t = (s.collect Source.wide (n * count)).2 ∧
      t.drawn = s.drawn + 2 * (n * count) ∧
      f.clauses.length ≤ count ∧
      (∀ c ∈ f.clauses, c.Ascending n ∧ ¬ c.Contradictory) ∧
      ∀ more ≥ count, ∃ g u, dnfWithWeights w n more s = .ok (g, u) ∧ f.clauses <+: g.clauses := by
  constructor
  · intro e he
    have hrejected := Sampler.ofWeights_eq_rejected_iff.2 he
    constructor
    · rw [dnfWithWeights, hrejected]
      rfl
    · rw [sharedDnf, hrejected]
      rfl
  · intro d hd
    have hrun (more : Nat) : dnfWithWeights w n more s = .ok (drawDnf d n more s) :=
      dnfWithWeights_of_ofWeights hd n more s
    have hskip : (drawDnf d n count s).2 = s.skip (2 * (n * count)) := by
      rw [takes_drawDnf, Nat.mul_assoc]
    refine ⟨(drawDnf d n count s).1, (drawDnf d n count s).2, hrun count, ?_, ?_, ?_,
      length_drawDnf_le, ?_, ?_⟩
    · rw [sharedDnf, hd]
      rfl
    · rw [hskip, Source.takes_wide.collect]
    · rw [hskip, Source.drawn_skip]
    · intro c hc
      have hascending := ascending_of_mem_drawDnf hc
      exact ⟨hascending, hascending.not_contradictory⟩
    · intro more hmore
      exact ⟨_, _, hrun more, drawDnf_prefix hmore⟩

/-- The second variable of the only clause is absent. -/
theorem dnfWithWeights_of_four_words :
    (∃ f t, dnfWithWeights ⟨0.8, 0.1, 0.1⟩ 2 1
        (Source.fresh (Listed.ofWords [0, 0, 4294967295, 4294967295])) = .ok (f, t) ∧
      f.clauses = [[.pos 1]] ∧ t.drawn = 4) ∧
    (sharedDnf ⟨-0.8, 0.1, 0.1⟩ 2 1).run (Source.fresh (Listed.ofWords [0])) =
      (.error (.rejected .negative), Source.fresh (Listed.ofWords [0])) := by
  constructor
  · obtain ⟨f, t, hrun, -, -, hdrawn, -⟩ := (dnfWithWeights_shape ⟨0.8, 0.1, 0.1⟩ 2 1
      (Source.fresh (Listed.ofWords [0, 0, 4294967295, 4294967295]))).2 ⟨0.8, 0.9, 1.0⟩ rfl
    have hclauses : (dnfWithWeights ⟨0.8, 0.1, 0.1⟩ 2 1 (Source.fresh (Listed.ofWords
        [0, 0, 4294967295, 4294967295]))).toOption.map (·.1.clauses) = some [[.pos 1]] := by
      decide +kernel
    rw [hrun] at hclauses
    exact ⟨f, t, hrun, Option.some.inj hclauses, hdrawn⟩
  · exact ((dnfWithWeights_shape _ 2 1 _).1 .negative rfl).2

/-- A formula is always drawn when the weights are chosen from the table. The first words of the source
choose them, and the formula is drawn from what follows. -/
theorem exists_dnf (n count : Nat) (s : Source σ) :
    ∃ w ∈ Weights.table, ∃ f t,
      dnfWithWeights w n count (s.skip (s.choiceWords Weights.table.length)) = .ok (f, t) ∧
      dnf n count s = .ok (f, t) := by
  let choice := s.choose Weights.table.length
  let w := Weights.table.get ⟨choice.1, Source.choose_lt (by decide) s⟩
  have hw : w ∈ Weights.table := List.get_mem _ _
  have hchoice : choice.2 = s.skip (s.choiceWords Weights.table.length) := (Source.choose_snd _ s).2
  obtain ⟨d, hd⟩ := Sampler.exists_of_mem_table hw
  have hrun := dnfWithWeights_of_ofWeights hd n count choice.2
  refine ⟨w, hw, (drawDnf d n count choice.2).1, (drawDnf d n count choice.2).2, ?_, ?_⟩
  · rw [← hchoice]
    exact hrun
  · show (dnfWithWeights w n count choice.2).mapError _ = _
    rw [hrun]
    rfl

end Sampling
end Falsifier
