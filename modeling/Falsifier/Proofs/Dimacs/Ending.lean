import Falsifier.Proofs.Dimacs.Grammar

/-!
# Sources that end early

The reader judges a line when its newline has come, and the first line that is wrong decides the
outcome. So bytes that contain a wrong line settle it, whatever comes after them, and bytes that do not
settle nothing: a source that breaks off after them is refused for this reason alone, although the line
that it broke off in may be wrong already, and the header or some clauses may be missing
(`parse_before_end`).
-/

namespace Falsifier.Dimacs

open Progress

/-! ### Complete lines -/

/-- The bytes are complete lines, each ended by a newline, and the beginning of one more line. -/
structure Lines (bytes : List UInt8) (complete : List (List UInt8)) (begun : List UInt8) : Prop where
  bytes_eq : bytes = complete.flatMap (· ++ [10]) ++ begun
  newline_notMem : ∀ line ∈ complete, 10 ∉ line
  newline_notMem_begun : 10 ∉ begun

theorem splitOn_complete {complete : List (List UInt8)} (h : ∀ line ∈ complete, 10 ∉ line)
    (later : List UInt8) :
    (complete.flatMap (· ++ [10]) ++ later).splitOn 10 = complete ++ later.splitOn 10 := by
  induction complete with
  | nil => rfl
  | cons line complete ih =>
    have hline : 10 ∉ line := h line (by simp)
    have hcomplete := ih fun l hl => h l (by simp [hl])
    rw [List.flatMap_cons, List.append_assoc, List.append_assoc, List.singleton_append,
      List.splitOn_append_cons_self_of_not_mem hline, hcomplete]
    rfl

/-- All bytes can be taken apart into lines. -/
theorem exists_lines (bytes : List UInt8) : ∃ complete begun, Lines bytes complete begun := by
  induction bytes with
  | nil => exact ⟨[], [], rfl, by simp, by simp⟩
  | cons byte bytes ih =>
    obtain ⟨complete, begun, rfl, hcomplete, hbegun⟩ := ih
    by_cases hbyte : byte = 10
    · subst hbyte
      exact ⟨[] :: complete, begun, by simp, by simpa using hcomplete, hbegun⟩
    · -- The byte joins the first line, which may be the one that has only begun.
      have hcons {line : List UInt8} (hline : 10 ∉ line) : 10 ∉ byte :: line := by
        simpa [Ne.symm hbyte] using hline
      rcases complete with _ | ⟨line, complete⟩
      · exact ⟨[], byte :: begun, by simp, by simp, hcons hbegun⟩
      · obtain ⟨hline, hcomplete⟩ := List.forall_mem_cons.1 hcomplete
        exact ⟨(byte :: line) :: complete, begun, by simp,
          List.forall_mem_cons.2 ⟨hcons hline, hcomplete⟩, hbegun⟩

section Lines

variable {bytes : List UInt8} {complete : List (List UInt8)} {begun : List UInt8}
  (h : Lines bytes complete begun)
include h

/-- The complete lines are the first that a source with these bytes is judged by. -/
theorem Lines.exists_lines_eq {i : Input} (hi : bytes <+: i.bytes) :
    ∃ later, i.lines = complete ++ later := by
  obtain ⟨bytes', ending⟩ := i
  obtain ⟨later, rfl⟩ := hi
  have hsplit : (bytes ++ later).splitOn 10 = complete ++ (begun ++ later).splitOn 10 := by
    rw [h.bytes_eq, List.append_assoc, splitOn_complete h.newline_notMem]
  cases ending with
  | complete => exact ⟨_, hsplit⟩
  | broken reason =>
    have hne : (begun ++ later).splitOn 10 ≠ [] := List.splitOn_ne_nil _ _
    refine ⟨((begun ++ later).splitOn 10).dropLast, ?_⟩
    rw [← List.dropLast_append_of_ne_nil hne, ← hsplit]
    rfl

/-- A source that breaks off is judged by its complete lines and no others. -/
theorem Lines.lines_broken (reason : String) : Input.lines ⟨bytes, .broken reason⟩ = complete := by
  have hsplit : bytes.splitOn 10 = complete ++ [begun] := by
    rw [h.bytes_eq, splitOn_complete h.newline_notMem, List.splitOn_eq_singleton h.newline_notMem_begun]
  show (bytes.splitOn 10).dropLast = complete
  rw [hsplit, List.dropLast_concat]

/-- A wrong line decides the outcome. -/
theorem Lines.parse_eq_error {e : Failure} (he : complete.foldlM addLine start = .error e)
    {i : Input} (hi : bytes <+: i.bytes) : Problem.parse i = .error e := by
  obtain ⟨later, hlines⟩ := h.exists_lines_eq hi
  unfold Problem.parse
  rw [hlines, List.foldlM_append, he]
  rfl

/-- Where no line is wrong, the break is reported. -/
theorem Lines.parse_eq_broken {p : Progress} (hp : complete.foldlM addLine start = .ok p)
    (reason : String) :
    Problem.parse ⟨bytes, .broken reason⟩ = .error (.rejected (.io (.broken reason))) := by
  unfold Problem.parse
  rw [h.lines_broken, hp]
  rfl

end Lines

/-! ### What can be wrong with a line -/

/-- The failure is about a line, and not about the end of the source. -/
def Failure.AboutLine : Failure → Prop
  | .rejected (.io (.broken _)) => False
  | .rejected (.format (.clauseCount _ _)) => False
  | _ => True

theorem Header.aboutLine {head : List Word} {e : Failure} (h : Header.ofWords head = .error e) :
    e.AboutLine := by
  unfold Header.ofWords at h
  split at h
  · split at h
    · split at h
      · cases h
      · cases h; trivial
    · cases h; trivial
  · cases h; trivial

theorem aboutLine_undeclared (l : Literal) (declared : Nat) : (undeclared l declared).AboutLine := by
  unfold undeclared
  split <;> trivial

namespace Progress

variable {p : Progress} {e : Failure}

theorem aboutLine_addWord {h : Header} {w : Word} (he : p.addWord h w = .error e) :
    e.AboutLine := by
  by_cases hw : ∃ x, IntNumeral w x
  · obtain ⟨x, hx⟩ := hw
    rw [addWord_eq hx] at he
    split at he
    · cases he
    · cases he
      exact aboutLine_undeclared _ _
  · rw [addWord_eq_reject fun x hx => hw ⟨x, hx⟩] at he
    cases he
    trivial

theorem aboutLine_addWords {ws : List Word} (he : p.addWords ws = .error e) : e.AboutLine := by
  rcases line_cases ws with hi | ⟨head, rfl⟩ | ⟨hi, hne⟩
  · rw [addWords_ignored hi] at he
    cases he
  · cases hp : p.header with
    | none =>
      rw [addWords_header hp] at he
      rcases bind_eq_error_iff.1 he with he | ⟨_, _, he⟩
      · exact Header.aboutLine he
      · cases he
    | some h =>
      rw [addWords_second hp] at he
      cases he
      trivial
  · rw [addWords_body hi hne] at he
    split at he
    · obtain ⟨_, _, _, _, -, -, hw⟩ := foldlM_eq_error_iff.1 he
      exact aboutLine_addWord hw
    · cases he
      trivial

theorem aboutLine_addLine {line : List UInt8} (he : p.addLine line = .error e) : e.AboutLine := by
  unfold addLine at he
  split at he
  · exact aboutLine_addWords he
  · cases he
    trivial

end Progress

/-! ### What is decided before the end -/

/-- **The lines decide.** Let `bytes` be what a source delivers first. If one of their complete lines
is wrong, then every source that begins with them fails with what is wrong with the first such line,
however it goes on and ends. If none is wrong, a source that breaks off after them fails with its own
reason. So it never yields a problem. -/
theorem parse_before_end (bytes : List UInt8) :
    (∃ complete begun, Lines bytes complete begun) ∧
    ∀ complete begun, Lines bytes complete begun →
      (∀ e, complete.foldlM addLine start = .error e →
        e.AboutLine ∧ ∀ i : Input, bytes <+: i.bytes → Problem.parse i = .error e) ∧
      (∀ p, complete.foldlM addLine start = .ok p → ∀ reason,
        Problem.parse ⟨bytes, .broken reason⟩ = .error (.rejected (.io (.broken reason)))) ∧
      ∀ reason P, Problem.parse ⟨bytes, .broken reason⟩ ≠ .ok P := by
  refine ⟨exists_lines bytes, fun complete begun h => ⟨?_, ?_, ?_⟩⟩
  · intro e he
    obtain ⟨_, _, _, _, -, -, hline⟩ := foldlM_eq_error_iff.1 he
    exact ⟨aboutLine_addLine hline, fun i hi => h.parse_eq_error he hi⟩
  · intro p hp reason
    exact h.parse_eq_broken hp reason
  · intro reason P hP
    cases hread : complete.foldlM addLine start with
    | error e => cases (h.parse_eq_error hread (List.prefix_refl bytes)).symm.trans hP
    | ok p => cases (h.parse_eq_broken hread reason).symm.trans hP

/-- A line with a wrong word, with its newline and bytes after it that are no text, and without. -/
theorem parse_of_second_line :
    Problem.parse ⟨encoded "p dnf 1 1\n1 x\n".toList ++ [255], .broken "source broke"⟩ =
      .error (.rejected (.format (.badNumber "x"))) ∧
    Problem.parse ⟨encoded "p dnf 1 1\n1 x".toList, .broken "source broke"⟩ =
      .error (.rejected (.io (.broken "source broke"))) := by
  constructor
  · have hlines : Lines (encoded "p dnf 1 1\n1 x\n".toList)
        (["p dnf 1 1", "1 x"].map (encoded ·.toList)) [] := ⟨by decide, by decide, by decide⟩
    exact (((parse_before_end _).2 _ _ hlines).1 _ rfl).2 _ (List.prefix_append _ _)
  · have hlines : Lines (encoded "p dnf 1 1\n1 x".toList)
        (["p dnf 1 1"].map (encoded ·.toList)) (encoded "1 x".toList) :=
      ⟨by decide, by decide, by decide⟩
    exact ((parse_before_end _).2 _ _ hlines).2.1 ⟨some ⟨.dnf, 1, 1⟩, #[], #[]⟩ rfl _

end Falsifier.Dimacs
