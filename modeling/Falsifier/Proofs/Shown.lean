import Falsifier.Model
import Falsifier.Proofs.Dimacs.Grammar
import Falsifier.Proofs.Exhaustive.Exact
import Falsifier.Proofs.Literal
import Falsifier.Proofs.Negation
import Falsifier.Proofs.Script
import Falsifier.Proofs.Search.Soundness

/-!
# Models as they are shown

What a search reports about a problem that was read is right, and from the numbers that are shown of
it the same literals can be read back. There is one exception, the variable `signedBound`: it can be
read, in a negative literal, but of the literals of this variable the negative one cannot be shown,
and the positive one is shown as the number of the negative one (`display_of_reported`).
-/

namespace Falsifier

/-! ### Showing and reading back -/

namespace Literal

/-- The literal that is read where `l` was shown. -/
def reread (l : Literal) : Literal :=
  if l = pos signedBound then neg signedBound else l

theorem reread_eq {l : Literal} (h : l.var ≠ signedBound) : l.reread = l := by
  refine if_neg fun hl => h ?_
  rw [hl]
  rfl

@[simp] theorem var_reread (l : Literal) : l.reread.var = l.var := by
  unfold reread
  split
  · next h => rw [h]; rfl
  · rfl

theorem dimacs_eq_reread {l : Literal} (h : l.var ≤ signedBound) (hne : l ≠ neg signedBound) :
    l.dimacs = .ok l.reread.toInt := by
  rcases Nat.lt_or_eq_of_le h with hlt | heq
  · rw [reread_eq (Nat.ne_of_lt hlt), dimacs_eq hlt]
  · cases l with
    | pos v =>
      cases heq
      exact dimacs_pos_bound
    | neg v => exact absurd (congrArg neg heq) hne

/-- It is within the range of the signed numbers. -/
theorem toInt_reread_bounds {l : Literal} (h : l.var ≤ signedBound) :
    -(signedBound : Int) ≤ l.reread.toInt ∧ l.reread.toInt < signedBound := by
  rcases Nat.lt_or_eq_of_le h with hlt | heq
  · rw [reread_eq (Nat.ne_of_lt hlt)]
    exact toInt_bounds hlt
  · cases l with
    | pos v | neg v =>
      cases heq
      exact ⟨by decide, by decide⟩

theorem ofDimacs_toInt {l : Literal} (h : 1 ≤ l.var) : ofDimacs l.toInt = .ok l := by
  unfold ofDimacs
  rw [if_neg (toInt_ne_zero h), ofInt_toInt h]

/-- The one way in which showing a literal fails. -/
theorem eq_negate_of_dimacs {l : Literal} {f : Fault} (h : l.dimacs = .error f) :
    f = .overflow .negate := by
  cases l with
  | pos v => cases h
  | neg v =>
    have hneg : checkedNeg (signed v) = .error f := h
    unfold checkedNeg at hneg
    split at hneg <;> cases hneg
    rfl

end Literal

namespace Dimacs

/-- The words of the text are numbers, and the literals that these stand for are `ls`. -/
def ReadsAs (text : String) (ls : List Literal) : Prop :=
  List.Forall₂ (fun w l => ∃ x, IntNumeral w x ∧ Literal.ofDimacs x = .ok l) (words text.toList) ls

theorem readsAs_join {ls : List Literal}
    (h : ∀ l ∈ ls, 1 ≤ l.var ∧ -(signedBound : Int) ≤ l.toInt ∧ l.toInt < signedBound) :
    ReadsAs (String.join ((ls.map fun l => toString l.toInt).intersperse " ")) ls := by
  have hnumeral : ∀ l ∈ ls, IntNumeral (toString l.toInt).toList l.toInt :=
    fun l hl => intNumeral_toString (h l hl).2.1 (h l hl).2.2
  have htext : (String.join ((ls.map fun l => toString l.toInt).intersperse " ")).toList =
      [' '].intercalate (ls.map fun l => (toString l.toInt).toList) := by
    rw [String.toList_join, List.flatMap_def, Script.map_intersperse, List.map_map]
    rfl
  have hwords : ∀ w ∈ ls.map fun l => (toString l.toInt).toList, IsWord w := by
    intro w hw
    obtain ⟨l, hl, rfl⟩ := List.mem_map.1 hw
    exact (hnumeral l hl).isWord
  unfold ReadsAs
  rw [htext, words_intercalate hwords, List.forall₂_map_left_iff, List.forall₂_same]
  exact fun l hl => ⟨l.toInt, hnumeral l hl, Literal.ofDimacs_toInt (h l hl).1⟩

end Dimacs

namespace Model

open Dimacs

variable {m : Model}

/-- A model without the negative literal of the largest variable is shown. -/
theorem exists_display (h : ∀ l ∈ m.literals, 1 ≤ l.var ∧ l.var ≤ signedBound)
    (hne : .neg signedBound ∉ m.literals) :
    ∃ text, m.display = .ok text ∧ ReadsAs text (m.literals.map Literal.reread) := by
  have hpieces : (m.literals.map fun l => toString <$> l.dimacs) =
      ((m.literals.map Literal.reread).map fun l => toString l.toInt).map .ok := by
    rw [List.map_map, List.map_map]
    refine List.map_congr_left fun l hl => ?_
    rw [Literal.dimacs_eq_reread (h l hl).2 fun heq => hne (heq ▸ hl)]
    rfl
  refine ⟨_, ?_, readsAs_join ?_⟩
  · unfold display script
    rw [hpieces, ← Script.map_intersperse, Script.text_ok]
  · rw [List.forall_mem_map]
    intro l hl
    rw [Literal.var_reread]
    exact ⟨(h l hl).1, Literal.toInt_reread_bounds (h l hl).2⟩

theorem display_eq_error (h : .neg signedBound ∈ m.literals) :
    m.display = .error (.overflow .negate) := by
  have hmem (g : Fault) : .error g ∈ m.script ↔
      .error g ∈ m.literals.map fun l => toString <$> l.dimacs :=
    Script.mem_intersperse nofun
  apply Script.text_error
  · exact (hmem _).2 (List.mem_map.2 ⟨_, h, rfl⟩)
  · intro g hg
    obtain ⟨l, -, hl⟩ := List.mem_map.1 ((hmem g).1 hg)
    cases hdimacs : l.dimacs with
    | ok x =>
      rw [hdimacs] at hl
      cases hl
    | error f =>
      rw [hdimacs] at hl
      cases hl
      exact Literal.eq_negate_of_dimacs hdimacs

end Model

/-! ### What searches report -/

/-- One of the searches reports the model for the formula. -/
inductive Reported (f : Dnf) (m : Model) : Prop
  | exhaustive {tried : Nat} (report : Exhaustive.search f = .ok (.falsified m tried)) :
      Reported f m
  | random {σ : Type} [Sampling.Generator σ] {config : Search.Config} {source : Sampling.Source σ}
      {s : Search.Solver σ} (report : Search.falsify f config source = .ok (.falsified m, s)) :
      Reported f m

namespace Reported

variable {f : Dnf} {m : Model} (hf : ∀ v ∈ f.vars, 1 ≤ v) (hm : Reported f m)
include hf hm

theorem falsifies : f.falsifiedBy m.toAssignment = .ok true := by
  cases hm with
  | exhaustive report => exact (Exhaustive.first_of_search hf report).falsifies
  | random report => exact (Search.Solver.genuine_of_falsify report).falsifies

/-- A model is about variables of the formula, or about some from the first few. -/
theorem var_mem_or_le {l : Literal} (hl : l ∈ m.literals) :
    l.var ∈ f.vars ∨ 1 ≤ l.var ∧ l.var ≤ Exhaustive.limit := by
  have hvar : l.var ∈ m.literals.map Literal.var := List.mem_map_of_mem hl
  cases hm with
  | exhaustive report =>
    obtain ⟨-, hn⟩ := Exhaustive.accepted_of_search report
    rw [(Exhaustive.first_of_search hf report).vars_eq, List.mem_range'_1] at hvar
    exact .inr ⟨hvar.1, Nat.le_trans (Nat.lt_one_add_iff.1 hvar.2) hn⟩
  | random report =>
    exact .inl (Dnf.mem_vars.2 (((Search.Solver.genuine_of_falsify report).mem_vars _).1 hvar))

/-- It is about all variables of the formula. -/
theorem exists_mem {v : Var} (hv : v ∈ f.vars) : ∃ l ∈ m.literals, l.var = v := by
  rw [← List.mem_map]
  cases hm with
  | exhaustive report =>
    rw [(Exhaustive.first_of_search hf report).vars_eq, List.mem_range'_1]
    exact ⟨hf v hv, Nat.lt_one_add_iff.2 (Dnf.le_maxVar hv)⟩
  | random report => exact ((Search.Solver.genuine_of_falsify report).mem_vars v).2 (Dnf.mem_vars.1 hv)

end Reported

/-! ### From a source to what is shown -/

namespace Dimacs

theorem Problem.mem_vars_toDnf {P : Problem} {v : Var} :
    v ∈ P.toDnf.vars ↔ ∃ c ∈ P.clauses, ∃ l ∈ c, l.var = v := by
  cases P with
  | dnf f => exact Dnf.mem_vars
  | cnf c => exact Cnf.mem_vars_negate

/-- The assignment falsifies the formula of the problem, and if the problem is a CNF, satisfies it. -/
structure Problem.SolvedBy (P : Problem) (a : Assignment) : Prop where
  falsifies : P.toDnf.falsifiedBy a = .ok true
  satisfies : ∀ c, P = .cnf c → c.satisfiedBy a = .ok true

theorem Problem.solvedBy_of_falsifies {P : Problem} {a : Assignment}
    (h : P.toDnf.falsifiedBy a = .ok true) : P.SolvedBy a := by
  refine ⟨h, ?_⟩
  rintro c rfl
  exact Cnf.falsifiedBy_negate.1 h

section

variable {i : Input} {P : Problem} {m : Model} (hP : Problem.parse i = .ok P)
  (hm : Reported P.toDnf m)
include hP

theorem vars_bounds : ∀ v ∈ P.toDnf.vars, 1 ≤ v ∧ v ≤ signedBound := by
  intro v hv
  obtain ⟨c, hc, l, hl, rfl⟩ := Problem.mem_vars_toDnf.1 hv
  exact var_bounds_of_parse hP c hc l hl

include hm

theorem literals_bounds : ∀ l ∈ m.literals, 1 ≤ l.var ∧ l.var ≤ signedBound := by
  intro l hl
  rcases hm.var_mem_or_le (fun v hv => (vars_bounds hP v hv).1) hl with hmem | ⟨hpos, hle⟩
  · exact vars_bounds hP _ hmem
  · exact ⟨hpos, Nat.le_trans hle (by decide)⟩

/-- The largest variable is never among the first few. -/
theorem var_ne_signedBound (h : signedBound ∉ P.toDnf.vars) :
    ∀ l ∈ m.literals, l.var ≠ signedBound := by
  intro l hl hvar
  rcases hm.var_mem_or_le (fun v hv => (vars_bounds hP v hv).1) hl with hmem | ⟨-, hle⟩
  · exact h (hvar ▸ hmem)
  · rw [hvar] at hle
    exact absurd hle (by decide)

end

/-- **What is shown of a model.** A model that is reported for a problem that was read solves it. If
the variable `signedBound` does not occur, the model is shown, and read back it is the same. If the
variable occurs, then showing the model faults where the variable is false, and where it is true,
the model is read back with this variable false. -/
theorem display_of_reported {i : Input} {P : Problem} {m : Model} (hP : Problem.parse i = .ok P)
    (hm : Reported P.toDnf m) :
    P.SolvedBy m.toAssignment ∧
    (signedBound ∉ P.toDnf.vars → ∃ text, m.display = .ok text ∧ ReadsAs text m.literals) ∧
    (signedBound ∈ P.toDnf.vars →
      .neg signedBound ∈ m.literals ∧ m.display = .error (.overflow .negate) ∨
      .pos signedBound ∈ m.literals ∧ ∃ text, m.display = .ok text ∧
        ReadsAs text (m.literals.map fun l => if l = .pos signedBound then .neg signedBound else l)) := by
  have hpos : ∀ v ∈ P.toDnf.vars, 1 ≤ v := fun v hv => (vars_bounds hP v hv).1
  have hbounds := literals_bounds hP hm
  refine ⟨Problem.solvedBy_of_falsifies (hm.falsifies hpos), fun hnot => ?_, fun hmem => ?_⟩
  · have hne := var_ne_signedBound hP hm hnot
    obtain ⟨text, htext, hreads⟩ := m.exists_display hbounds fun hl => hne _ hl rfl
    have hreread : m.literals.map Literal.reread = m.literals :=
      (List.map_congr_left fun l hl => Literal.reread_eq (hne l hl)).trans (List.map_id _)
    rw [hreread] at hreads
    exact ⟨text, htext, hreads⟩
  · by_cases hneg : .neg signedBound ∈ m.literals
    · exact .inl ⟨hneg, Model.display_eq_error hneg⟩
    · obtain ⟨l, hl, hvar⟩ := hm.exists_mem hpos hmem
      cases l with
      | neg v =>
        cases hvar
        exact absurd hl hneg
      | pos v =>
        cases hvar
        exact .inr ⟨hl, m.exists_display hbounds hneg⟩

/-- A model of the exhaustive search for a CNF, shown and read back. -/
theorem readsAs_of_two_clauses :
    ReadsAs "-1 2" [.neg 1, .pos 2] ∧
      (Cnf.mk [[.pos 1, .pos 2], [.neg 1]]).satisfiedBy (.ofLiterals [.neg 1, .pos 2]) = .ok true := by
  have hparse : Problem.parse ⟨encoded "p cnf 2 2\n1 2 0\n-1 0\n".toList, .complete⟩ =
      .ok (.cnf ⟨[[.pos 1, .pos 2], [.neg 1]]⟩) := by decide
  have hsearch : Exhaustive.search (Problem.cnf ⟨[[.pos 1, .pos 2], [.neg 1]]⟩).toDnf =
      .ok (.falsified ⟨[.neg 1, .pos 2]⟩ 3) := rfl
  obtain ⟨hsolved, hshown, -⟩ := display_of_reported hparse (.exhaustive hsearch)
  obtain ⟨text, htext, hreads⟩ := hshown (by decide)
  have hdisplay : Model.display ⟨[.neg 1, .pos 2]⟩ = .ok "-1 2" := by decide
  cases hdisplay.symm.trans htext
  exact ⟨hreads, hsolved.satisfies _ rfl⟩

/-- A CNF that is read and has one model, which is reported but cannot be shown. -/
theorem display_least_number_faults :
    let P := Problem.cnf ⟨[[.neg signedBound]]⟩
    let m : Model := ⟨[.neg signedBound]⟩
    Problem.parse ⟨encoded "p cnf 9223372036854775808 1\n-9223372036854775808 0\n".toList,
        .complete⟩ = .ok P ∧
      Reported P.toDnf m ∧ m.display = .error (.overflow .negate) := by
  intro P m
  let source := Sampling.Source.fresh (Sampling.Listed.ofWords [0])
  let s := Search.Solver.initial P.toDnf ⟨1000, 80⟩ source
  have hsolve : s.solve = (.falsified m, s) :=
    (Search.Solver.solve_of_ends (by decide)).trans (Prod.ext (by decide) rfl)
  have hreport : Search.falsify P.toDnf ⟨1000, 80⟩ source = .ok (.falsified m, s) :=
    congrArg Except.ok hsolve
  exact ⟨by decide, .random hreport, rfl⟩

end Dimacs
end Falsifier
