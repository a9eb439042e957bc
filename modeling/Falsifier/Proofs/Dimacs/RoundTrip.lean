import Falsifier.Dimacs.Writer
import Falsifier.Proofs.Dimacs.Grammar
import Falsifier.Proofs.Literal
import Falsifier.Proofs.Script

/-!
# Reading what was written

A written problem is a file with a layout: the header comes first, and every further line holds one
clause (`shows_written`). The header is that of the problem (`headerWords_headWords`), and the body is cut
into the clauses (`body_written`, `cut_clauseNumbers`), so the problem is read back as it was, with the
same clauses and literals in the same order (`parse_script`).
-/

namespace Falsifier.Dimacs

/-- If each element comes back, the list comes back. -/
theorem map_map_eq_self {α β : Type} {f : α → β} {g : β → α} {xs : List α}
    (h : ∀ x ∈ xs, g (f x) = x) : (xs.map f).map g = xs := by
  rw [List.map_map]
  exact (List.map_congr_left h).trans (List.map_id xs)

theorem Problem.ofClauses_kind_clauses (P : Problem) : ofClauses P.kind P.clauses = P := by
  cases P <;> rfl

/-! ### What is written -/

/-- A literal as a word. -/
def literalWord (l : Literal) : Word :=
  (toString l.toInt).toList

/-- The words in the line of a clause. -/
def clauseWords (c : Clause) : List Word :=
  c.map literalWord ++ [['0']]

/-- The words after the `p` in the first line. -/
def headWords (P : Problem) : List Word :=
  [P.kind.name.toList, (toString ((Clause.maxVar? P.clauses).getD 0)).toList,
    (toString P.clauses.length).toList]

/-- The lines of a written problem, by their words. -/
def lineWords (P : Problem) : List (List Word) :=
  (['p'] :: headWords P) :: P.clauses.map clauseWords

/-- The numbers in the line of a clause. -/
def clauseNumbers (c : Clause) : List Int :=
  c.map Literal.toInt ++ [0]

/-- The pieces of the line of a clause. -/
def clauseTexts (c : Clause) : List String :=
  c.map (fun l => toString l.toInt ++ " ") ++ ["0\n"]

theorem clauseScript_eq {c : Clause} (h : ∀ l ∈ c, l.var < signedBound) :
    clauseScript c = (clauseTexts c).map .ok := by
  have hliterals : (c.map fun l => (toString · ++ " ") <$> l.dimacs) =
      c.map fun l => .ok (toString l.toInt ++ " ") :=
    List.map_congr_left fun l hl => by rw [Literal.dimacs_eq (h l hl)]; rfl
  unfold clauseScript clauseTexts
  rw [hliterals, List.map_append, List.map_map]
  rfl

theorem toList_clauseTexts (c : Clause) :
    (String.join (clauseTexts c)).toList = [' '].intercalate (clauseWords c) ++ ['\n'] := by
  have hzero : "0\n".toList = ['0'] ++ ['\n'] := by decide
  have hblank : " ".toList = [' '] := by decide
  unfold clauseTexts clauseWords
  rw [← flatMap_blank_append]
  simp [String.toList_join, List.flatMap_map, literalWord, hzero, hblank]

theorem toList_headerLine (P : Problem) :
    (headerLine P.kind P.clauses).toList =
      [' '].intercalate (['p'] :: headWords P) ++ ['\n'] := by
  have hp : (toString "p ").toList = ['p'] ++ [' '] := by decide
  have hblank : (toString " ").toList = [' '] := by decide
  have hnewline : (toString "\n").toList = ['\n'] := by decide
  have hname : toString P.kind.name = P.kind.name := rfl
  unfold headerLine headWords
  simp only [String.toList_append, hp, hblank, hnewline, hname, List.intercalate_cons_cons,
    List.intercalate_singleton, List.append_assoc]

section

variable {P : Problem} (hvars : ∀ c ∈ P.clauses, ∀ l ∈ c, l.var < signedBound)
include hvars

/-- A sink without a limit takes the whole of a written problem, which is made of its lines. -/
theorem exists_text :
    ∃ text, P.script.deliver none = ⟨text, none⟩ ∧
      text.toList = ((lineWords P).map [' '].intercalate).flatMap (· ++ ['\n']) := by
  have hclauses : P.clauses.flatMap clauseScript =
      (P.clauses.flatMap clauseTexts).map .ok := by
    rw [List.map_flatMap]
    exact List.flatMap_congr fun c hc => clauseScript_eq (hvars c hc)
  have hscript : P.script =
      (headerLine P.kind P.clauses :: P.clauses.flatMap clauseTexts).map .ok := by
    unfold Problem.script
    rw [hclauses, List.map_cons]
  refine ⟨_, by rw [hscript, Script.deliver_ok], ?_⟩
  have hlines : (String.join (P.clauses.flatMap clauseTexts)).toList =
      P.clauses.flatMap fun c => [' '].intercalate (clauseWords c) ++ ['\n'] := by
    rw [String.toList_join, List.flatMap_assoc]
    simp only [← String.toList_join, toList_clauseTexts]
  rw [String.join_cons, String.toList_append, toList_headerLine, hlines]
  unfold lineWords
  rw [List.map_cons, List.flatMap_cons, List.map_map, List.flatMap_map]
  rfl

end

/-! ### What the words are -/

theorem intNumeral_literalWord {l : Literal} (h : l.var < signedBound) :
    IntNumeral (literalWord l) l.toInt :=
  intNumeral_toString (Literal.toInt_bounds h).1 (Literal.toInt_bounds h).2

theorem intNumeral_zero : IntNumeral ['0'] 0 :=
  integer?_eq_some_iff.1 (by decide)

section

variable {c : Clause} (hvars : ∀ l ∈ c, l.var < signedBound)
include hvars

theorem forall₂_clauseWords {n : Nat} (hn : ∀ l ∈ c, l.var ≤ n) :
    List.Forall₂ (Declared n) (clauseWords c) (clauseNumbers c) := by
  refine List.rel_append ?_ (.cons ⟨intNumeral_zero, Nat.zero_le n⟩ .nil)
  rw [List.forall₂_map_left_iff, List.forall₂_map_right_iff, List.forall₂_same]
  intro l hl
  refine ⟨intNumeral_literalWord (hvars l hl), ?_⟩
  rw [Literal.natAbs_toInt]
  exact hn l hl

theorem exists_intNumeral_of_mem_clauseWords {w : Word} (hw : w ∈ clauseWords c) :
    ∃ x, IntNumeral w x := by
  rcases List.mem_append.1 hw with hw | hw
  · obtain ⟨l, hl, rfl⟩ := List.mem_map.1 hw
    exact ⟨_, intNumeral_literalWord (hvars l hl)⟩
  · rw [List.mem_singleton.1 hw]
    exact ⟨0, intNumeral_zero⟩

/-- The line of a clause starts with a numeral. -/
theorem head?_clauseWords_ne {w : Word} (hw : integer? w = none) :
    (clauseWords c).head? ≠ some w := by
  intro hhead
  obtain ⟨x, hx⟩ := exists_intNumeral_of_mem_clauseWords hvars (List.mem_of_mem_head? hhead)
  rw [integer?_eq_some_iff.2 hx] at hw
  cases hw

theorem ignored_clauseWords : ignored (clauseWords c) = false := by
  have hne : (clauseWords c).isEmpty = false := by simp [clauseWords]
  have hhead := head?_clauseWords_ne hvars (w := ['c']) (by decide)
  simp [ignored, hne, hhead]

end

/-! ### The written file -/

section

variable {P : Problem} (hvars : ∀ c ∈ P.clauses, ∀ l ∈ c, l.var < signedBound)
include hvars

theorem headerWords_headWords (hcount : P.clauses.length < wordBound) :
    HeaderWords (headWords P)
      ⟨P.kind, (Clause.maxVar? P.clauses).getD 0, P.clauses.length⟩ := by
  have hmax : (Clause.maxVar? P.clauses).getD 0 < wordBound := by
    cases hmax : Clause.maxVar? P.clauses with
    | none => decide
    | some v =>
      obtain ⟨c, hc, l, hl, rfl⟩ := Clause.mem_mentioned.1 (List.max?_mem hmax)
      exact Nat.lt_trans (hvars c hc l hl) (by decide)
  exact .intro P.kind [] (sizeNumeral_toString hmax) (sizeNumeral_toString hcount)

theorem isWord_of_mem_lineWords : ∀ ws ∈ lineWords P, ∀ w ∈ ws, IsWord w := by
  intro ws hws w hw
  rcases List.mem_cons.1 hws with rfl | hws
  · have hp : IsWord ['p'] := by decide
    have hkind : IsWord P.kind.name.toList := by cases P.kind <;> decide
    simp only [headWords, List.mem_cons, List.not_mem_nil, or_false] at hw
    rcases hw with rfl | rfl | rfl | rfl
    · exact hp
    · exact hkind
    · exact (digits_toString _).isWord
    · exact (digits_toString _).isWord
  · obtain ⟨c, hc, rfl⟩ := List.mem_map.1 hws
    obtain ⟨x, hx⟩ := exists_intNumeral_of_mem_clauseWords (hvars c hc) hw
    exact hx.isWord

/-- The words of all clauses are numerals, and no variable is above the largest one. -/
theorem numbers_written {n : Nat} (hn : ∀ c ∈ P.clauses, ∀ l ∈ c, l.var ≤ n) :
    List.Forall₂ (Declared n) (P.clauses.flatMap clauseWords)
      (P.clauses.flatMap clauseNumbers) := by
  rw [List.flatMap_def, List.flatMap_def]
  refine List.rel_flatten ?_
  rw [List.forall₂_map_left_iff, List.forall₂_map_right_iff, List.forall₂_same]
  exact fun c hc => forall₂_clauseWords (hvars c hc) (hn c hc)

/-- The layout of a written problem. The last line is empty. -/
def written : Layout where
  before := []
  head := headWords P
  after := P.clauses.map clauseWords ++ [[]]
  before_ignored := fun _ h => nomatch h
  after_ne_header := by
    intro ws hws
    rcases List.mem_append.1 hws with hws | hws
    · obtain ⟨c, hc, rfl⟩ := List.mem_map.1 hws
      exact head?_clauseWords_ne (hvars c hc) (by decide)
    · rw [List.mem_singleton.1 hws]
      simp

theorem body_written : (written hvars).body = P.clauses.flatMap clauseWords := by
  have hclauses : (P.clauses.map clauseWords).filter (!ignored ·) = P.clauses.map clauseWords := by
    rw [List.filter_eq_self]
    intro ws hws
    obtain ⟨c, hc, rfl⟩ := List.mem_map.1 hws
    rw [ignored_clauseWords (hvars c hc)]
    rfl
  unfold Layout.body written
  rw [List.filter_append, hclauses, List.flatten_append, List.flatMap_def]
  simp [ignored]

/-- The lines of the text are those of the layout. -/
theorem shows_written {text : String}
    (htext : text.toList = ((lineWords P).map [' '].intercalate).flatMap (· ++ ['\n'])) :
    (written hvars).Shows ((encoded text.toList).splitOn 10) := by
  have hwords := isWord_of_mem_lineWords hvars
  refine ⟨(lineWords P).map [' '].intercalate ++ [[]], ?_, ?_⟩
  · rw [htext, splitOn_encoded_lines]
    intro line hline
    obtain ⟨ws, hws, rfl⟩ := List.mem_map.1 hline
    exact newline_notMem_intercalate (hwords ws hws)
  · rw [List.map_append, map_map_eq_self fun ws hws => words_intercalate (hwords ws hws)]
    rfl

end

/-- The lines of the clauses are cut into the clauses. -/
theorem cut_clauseNumbers {cs : List Clause} (h : ∀ c ∈ cs, ∀ l ∈ c, 1 ≤ l.var) :
    Cut (cs.flatMap clauseNumbers) (cs.map (·.map Literal.toInt)) := by
  induction cs with
  | nil => exact .done
  | cons c cs ih =>
    have hnonzero : 0 ∉ c.map Literal.toInt := by
      intro hmem
      obtain ⟨l, hl, hzero⟩ := List.mem_map.1 hmem
      exact Literal.toInt_ne_zero (h c (by simp) l hl) hzero
    have hcut := Cut.zero hnonzero (ih fun c hc => h c (by simp [hc]))
    rw [List.append_cons] at hcut
    exact hcut

theorem map_ofInt_map_toInt {cs : List Clause} (h : ∀ c ∈ cs, ∀ l ∈ c, 1 ≤ l.var) :
    (cs.map (·.map Literal.toInt)).map (·.map Literal.ofInt) = cs :=
  map_map_eq_self fun c hc => map_map_eq_self fun l hl => Literal.ofInt_toInt (h c hc l hl)

/-- **Round trip.** A problem whose variables lie between one and the largest signed number is written
in full to a sink without a limit, and from the bytes that arrive it is read back. The number of
clauses is a size, as that of any list in memory. -/
theorem parse_script (P : Problem)
    (hvars : ∀ c ∈ P.clauses, ∀ l ∈ c, 1 ≤ l.var ∧ l.var < signedBound)
    (hcount : P.clauses.length < wordBound) :
    ∃ text, P.script.deliver none = ⟨text, none⟩ ∧
      Problem.parse ⟨text.toUTF8.data.toList, .complete⟩ = .ok P := by
  have hpos : ∀ c ∈ P.clauses, ∀ l ∈ c, 1 ≤ l.var := fun c hc l hl => (hvars c hc l hl).1
  have hbound : ∀ c ∈ P.clauses, ∀ l ∈ c, l.var < signedBound :=
    fun c hc l hl => (hvars c hc l hl).2
  obtain ⟨text, hdeliver, htext⟩ := exists_text hbound
  refine ⟨text, hdeliver, ?_⟩
  rw [bytes_eq_encoded, parse_eq_ok_iff_of_shows (shows_written hbound htext), body_written]
  have hmax : ∀ c ∈ P.clauses, ∀ l ∈ c, l.var ≤ (Clause.maxVar? P.clauses).getD 0 :=
    fun c hc l hl => List.le_max?_getD_of_mem (Clause.mem_mentioned.2 ⟨c, hc, l, hl, rfl⟩)
  have hmeans := Means.intro (headerWords_headWords hbound hcount) (numbers_written hbound hmax)
    (cut_clauseNumbers hpos) (List.length_map _)
  rw [map_ofInt_map_toInt hpos, Problem.ofClauses_kind_clauses] at hmeans
  exact hmeans

/-- The largest variable, a literal that is repeated, and an empty clause. -/
theorem parse_script_largest :
    let P := Problem.cnf ⟨[[.pos 1, .neg 9223372036854775807, .pos 1], []]⟩
    let text := "p cnf 9223372036854775807 2\n1 -9223372036854775807 1 0\n0\n"
    P.script.deliver none = ⟨text, none⟩ ∧
      Problem.parse ⟨text.toUTF8.data.toList, .complete⟩ = .ok P := by
  intro P text
  have hdeliver : P.script.deliver none = ⟨text, none⟩ := by decide
  obtain ⟨text', hdeliver', hparse⟩ := parse_script P (by decide) (by decide)
  cases hdeliver.symm.trans hdeliver'
  exact ⟨hdeliver, hparse⟩

end Falsifier.Dimacs
