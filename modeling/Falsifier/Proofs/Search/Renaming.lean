import Falsifier.Proofs.Search.Lockstep
import Mathlib.Data.List.Nodup
import Mathlib.Data.Nat.Basic
import Mathlib.Order.Monotone.Defs

/-!
# Renamed variables

A search knows a variable by its position in the increasing list of those that occur. New numbers in
the same order leave every variable at its position, so that all of the prepared formula but the list
itself stays the same (`Search.Landscape.ofDnf_rename`). The search takes the same course then, and
the model that it reports is the renamed one (`Search.Solver.solve_renamed`).
-/

namespace Falsifier

variable {r : Var → Var}

/-! ### New numbers -/

namespace Literal

/-- The literal of the variable with the new number. -/
def rename (r : Var → Var) : Literal → Literal
  | pos v => pos (r v)
  | neg v => neg (r v)

@[simp] theorem var_rename (l : Literal) : (l.rename r).var = r l.var := by
  cases l <;> rfl

@[simp] theorem positive_rename (l : Literal) : (l.rename r).positive = l.positive := by
  cases l <;> rfl

@[simp] theorem rename_ofValue (v : Var) (b : Bool) :
    (ofValue v b).rename r = ofValue (r v) b := by
  cases b <;> rfl

end Literal

/-- The formula with new numbers for its variables. -/
def Dnf.rename (r : Var → Var) (f : Dnf) : Dnf :=
  ⟨f.clauses.map (·.map (Literal.rename r))⟩

/-- The model with new numbers for its variables. -/
def Model.rename (r : Var → Var) (m : Model) : Model :=
  ⟨m.literals.map (Literal.rename r)⟩

theorem Model.rename_zipWith (vars : List Var) (values : List Bool) :
    Model.rename r ⟨vars.zipWith Literal.ofValue values⟩ =
      ⟨(vars.map r).zipWith Literal.ofValue values⟩ := by
  simp only [Model.rename, List.map_zipWith, List.zipWith_map_left, Literal.rename_ofValue]

/-! ### The same order -/

theorem Dnf.mem_vars_rename {f : Dnf} {v : Var} :
    v ∈ (f.rename r).vars ↔ ∃ w ∈ f.vars, r w = v := by
  simp only [Dnf.mem_vars, Dnf.rename, List.mem_map]
  constructor
  · rintro ⟨_, ⟨c, hc, rfl⟩, _, hmem, rfl⟩
    obtain ⟨l, hl, rfl⟩ := List.mem_map.1 hmem
    exact ⟨l.var, ⟨c, hc, l, hl, rfl⟩, (Literal.var_rename l).symm⟩
  · rintro ⟨_, ⟨c, hc, l, hl, rfl⟩, rfl⟩
    exact ⟨_, ⟨c, hc, rfl⟩, l.rename r, List.mem_map_of_mem hl, Literal.var_rename l⟩

section Increasing

variable {f : Dnf} (hr : StrictMonoOn r {v | v ∈ f.vars})
include hr

theorem Dnf.vars_rename : (f.rename r).vars = f.vars.map r := by
  symm
  apply Dnf.eq_vars
  · rw [List.pairwise_map]
    exact f.pairwise_vars.imp_of_mem fun hv hw hlt => hr hv hw hlt
  · intro v
    rw [Dnf.mem_vars_rename, List.mem_map]

/-- A variable keeps its position. -/
theorem Dnf.idxOf_rename {v : Var} (hv : v ∈ f.vars) :
    (f.rename r).vars.idxOf (r v) = f.vars.idxOf v := by
  have hnodup := (f.rename r).nodup_vars
  rw [Dnf.vars_rename hr] at hnodup ⊢
  have hi : f.vars.idxOf v < (f.vars.map r).length := by
    rw [List.length_map]
    exact List.idxOf_lt_length_of_mem hv
  have hget : (f.vars.map r)[f.vars.idxOf v] = r v := by
    rw [List.getElem_map, List.getElem_idxOf]
  rw [← hget]
  exact hnodup.idxOf_getElem _ hi

namespace Search

/-- The literals stand for the same positions. -/
theorem map_ofLiteral_rename :
    (f.rename r).clauses.map (·.map (Spot.ofLiteral (f.rename r).vars)) =
      f.clauses.map (·.map (Spot.ofLiteral f.vars)) := by
  rw [Dnf.rename, List.map_map]
  apply List.map_congr_left
  intro c hc
  rw [Function.comp_apply, List.map_map]
  apply List.map_congr_left
  intro l hl
  simp only [Function.comp_apply, Spot.ofLiteral, Literal.positive_rename, Literal.var_rename]
  rw [← Dnf.idxOf_rename hr (Dnf.var_mem_vars hc hl), Dnf.rename]

/-- All of the prepared formula but the list of the variables stays as it is. -/
theorem Landscape.ofDnf_rename :
    ofDnf (f.rename r) = { ofDnf f with vars := (f.vars.map r).toArray } := by
  simp only [ofDnf, map_ofLiteral_rename hr]
  rw [Dnf.vars_rename hr, List.length_map]

theorem resembles_rename : Resembles f (f.rename r) where
  length_vars := by rw [Dnf.vars_rename hr, List.length_map]
  fitness_eq values := by
    rw [Landscape.ofDnf_rename hr]
    rfl

end Search
end Increasing

namespace Search.Solver

open Sampling

variable {σ : Type} [Generator σ]

/-- **Numbers do not matter.** If the variables get new numbers in the same order, a search makes the
same steps through the same states, with the same draws. It comes to the renamed model, or gives up
as before. -/
theorem solve_renamed {f : Dnf} {config : Config} (source : Source σ)
    (hr : StrictMonoOn r {v | v ∈ f.vars}) (hf : f.clauses ≠ []) (hc : config.check = .ok ()) :
    ∃ s t, start f config source = .ok s ∧ start (f.rename r) config source = .ok t ∧
      SameRun s t ∧ (∀ n, (t.after n).model = (s.after n).model.rename r) ∧
      t.solve.1 = s.solve.1.map (Model.rename r) := by
  apply exists_sameRun source (resembles_rename hr) hf _ hc
  · intro values
    rw [Dnf.vars_rename hr, Model.rename_zipWith]
  · simpa [Dnf.rename] using hf

/-- Numbers with a gap between them, the larger one the largest of a word. -/
theorem solve_with_gap :
    ∃ s t, start ⟨[[.pos 1, .pos 3], [.neg 1]]⟩ ⟨3, 2⟩
        (Source.fresh (Listed.ofWords [4294967295, 4294967295])) = .ok s ∧
      start ⟨[[.pos 0, .pos 18446744073709551615], [.neg 0]]⟩ ⟨3, 2⟩
        (Source.fresh (Listed.ofWords [4294967295, 4294967295])) = .ok t ∧
      SameRun s t ∧ t.solve.1 = .falsified ⟨[.pos 0, .neg 18446744073709551615]⟩ := by
  have hvars : Dnf.vars ⟨[[.pos 1, .pos 3], [.neg 1]]⟩ = [1, 3] := by decide
  have hr : StrictMonoOn (fun v => if v = 1 then 0 else 18446744073709551615)
      {v | v ∈ Dnf.vars ⟨[[.pos 1, .pos 3], [.neg 1]]⟩} := by
    intro v hv w hw hlt
    have hv : v ∈ [1, 3] := hvars ▸ hv
    have hw : w ∈ [1, 3] := hvars ▸ hw
    grind
  obtain ⟨s, t, hs, ht, hrun, -, houtcome⟩ := solve_renamed
    (Source.fresh (Listed.ofWords [4294967295, 4294967295])) hr (by decide)
    (show Config.check ⟨3, 2⟩ = .ok () from rfl)
  refine ⟨s, t, hs, ht, hrun, houtcome.trans ?_⟩
  obtain rfl := Except.ok.inj hs
  rw [solve_eq_of_after (n := 1) (by decide) (by decide)]
  decide

end Search.Solver
end Falsifier
