import Falsifier.Proofs.Dimacs.Grammar
import Falsifier.Proofs.Literal

/-!
# Numbers outside the declared range

A source is refused at the first thing that is wrong with it. Where this is a number outside the
declared range (`Exceeds`), the refusal names the number as a literal, and there is one number for
which this is impossible: the least signed number, whose literal cannot be written. With this number
reading faults, and it never faults otherwise (`parse_eq_fault_iff`).
-/

namespace Falsifier.Dimacs

/-- The first thing wrong with the source is the number `x` of its body, of whose size no variable is
declared. The lines up to it are laid out, and the numbers before it are in the declared range. -/
inductive Exceeds (i : Input) (x : Int) : Nat → Prop
  | intro {l : Layout} {shown later : List (List UInt8)} {h : Header} {ys : List Int}
      {good rest : List Word} {w : Word}
      (lines : i.lines = shown ++ later) (shows : l.Shows shown) (header : HeaderWords l.head h)
      (body : l.body = good ++ w :: rest) (numbers : List.Forall₂ (Declared h.varCount) good ys)
      (number : IntNumeral w x) (exceeds : h.varCount < x.natAbs) : Exceeds i x h.varCount

open Progress

/-- The refusal of a number names it, unless it is the least signed number. -/
theorem undeclared_ofInt {w : Word} {x : Int} (hw : IntNumeral w x) (declared : Nat) :
    undeclared (.ofInt x) declared = if x = -(signedBound : Int) then .fault (.overflow .negate)
      else .rejected (.format (.undeclared x declared)) := by
  obtain ⟨hlow, hhigh⟩ := bounds_of_integer? (integer?_eq_some_iff.2 hw)
  unfold undeclared
  by_cases hx : x = -(signedBound : Int)
  · have hdimacs : (Literal.ofInt x).dimacs = .error (.overflow .negate) := by
      rw [hx]
      exact Literal.dimacs_ofInt_least
    rw [hdimacs, if_pos hx]
  · have hlow' : -(signedBound : Int) < x := by omega
    rw [Literal.dimacs_ofInt hlow' hhigh, if_neg hx]

theorem parse_eq_error_of_exceeds {i : Input} {x : Int} {declared : Nat}
    (h : Exceeds i x declared) :
    Problem.parse i = .error (undeclared (.ofInt x) declared) := by
  obtain @⟨l, shown, later, h, ys, good, rest, w, hlines, hshows, hheader, hbody, hnumbers, hw, hx⟩ := h
  have hword : ∀ p : Progress, p.addWord h w = .error (undeclared (.ofInt x) h.varCount) :=
    fun p => (addWord_eq hw).trans (if_neg (Nat.not_le.2 hx))
  have hread : l.body.foldlM (addWord h) ⟨some h, #[], #[]⟩ =
      .error (undeclared (.ofInt x) h.varCount) :=
    foldlM_eq_error_iff.2
      ⟨good, w, rest, _, hbody, foldlM_addWord_eq_ok_iff.2 ⟨ys, hnumbers, rfl⟩, hword _⟩
  have hshown : shown.foldlM addLine start = .error (undeclared (.ofInt x) h.varCount) := by
    rw [Layout.foldlM_addLine hshows, Header.ofWords_eq_ok_iff.2 hheader]
    exact hread
  unfold Problem.parse
  rw [hlines, List.foldlM_append, hshown]
  rfl

/-! ### What else a refusal can be about -/

/-- The failure is about a number outside the declared range: it names the number, or faults. -/
def Failure.AboutRange : Failure → Prop
  | .fault _ => True
  | .rejected (.format (.undeclared _ _)) => True
  | _ => False

theorem Header.not_aboutRange {head : List Word} {e : Failure}
    (h : Header.ofWords head = .error e) : ¬ e.AboutRange := by
  unfold Header.ofWords at h
  split at h
  · split at h
    · split at h
      · cases h
      · cases h; exact id
    · cases h; exact id
  · cases h; exact id

theorem Progress.finish_not_aboutRange {p : Progress} {e : Failure} (h : p.finish = .error e) :
    ¬ e.AboutRange := by
  unfold finish at h
  split at h
  · cases h; exact id
  · dsimp only at h
    split at h
    · cases h
    · cases h; exact id

/-- A failure about the range comes from a word of a body line. -/
theorem Progress.exists_word_of_aboutRange {p : Progress} {line : List UInt8} {e : Failure}
    (h : p.addLine line = .error e) (he : e.AboutRange) :
    ∃ text hd good w rest q, line = encoded text ∧ p.header = some hd ∧
      ignored (words text) = false ∧ (words text).head? ≠ some ['p'] ∧
      words text = good ++ w :: rest ∧ good.foldlM (addWord hd) p = .ok q ∧
      q.addWord hd w = .error e := by
  unfold addLine at h
  split at h
  · next s hs =>
    refine ⟨s.toList, ?_⟩
    rcases line_cases (words s.toList) with hi | ⟨head, hhead⟩ | ⟨hi, hne⟩
    · rw [addWords_ignored hi] at h
      cases h
    · rw [hhead] at h
      cases hp : p.header with
      | none =>
        rw [addWords_header hp] at h
        rcases bind_eq_error_iff.1 h with h | ⟨_, _, h⟩
        · exact absurd he (Header.not_aboutRange h)
        · cases h
      | some hd =>
        rw [addWords_second hp] at h
        cases h
        exact he.elim
    · rw [addWords_body hi hne] at h
      cases hp : p.header with
      | none =>
        rw [hp] at h
        cases h
        exact he.elim
      | some hd =>
        rw [hp] at h
        obtain ⟨good, w, rest, q, hwords, hgood, hw⟩ := foldlM_eq_error_iff.1 h
        exact ⟨hd, good, w, rest, q, fromUTF8?_eq_some_iff.1 hs, rfl, hi, hne, hwords, hgood, hw⟩
  · cases h
    exact he.elim

theorem Progress.exists_number_of_aboutRange {p : Progress} {h : Header} {w : Word} {e : Failure}
    (hw : p.addWord h w = .error e) (he : e.AboutRange) :
    ∃ x, IntNumeral w x ∧ h.varCount < x.natAbs ∧ e = undeclared (.ofInt x) h.varCount := by
  by_cases hx : ∃ x, IntNumeral w x
  · obtain ⟨x, hx⟩ := hx
    rw [addWord_eq hx] at hw
    split at hw
    · cases hw
    · next hle => exact ⟨x, hx, Nat.not_le.1 hle, (Except.error.inj hw).symm⟩
  · rw [addWord_eq_reject fun x h => hx ⟨x, h⟩] at hw
    cases hw
    exact he.elim

/-- A layout goes on with a line of the body. -/
def Layout.snoc (l : Layout) (ws : List Word) (hws : ws.head? ≠ some ['p']) : Layout :=
  { l with
    after := l.after ++ [ws]
    after_ne_header := by
      simpa [or_imp, forall_and] using ⟨l.after_ne_header, hws⟩ }

theorem Layout.body_snoc (l : Layout) {ws : List Word} (hws : ws.head? ≠ some ['p'])
    (hi : ignored ws = false) : (l.snoc ws hws).body = l.body ++ ws := by
  simp [Layout.body, Layout.snoc, hi]

theorem Layout.Shows.snoc {l : Layout} {lines : List (List UInt8)} {text : List Char}
    (hl : l.Shows lines) (hws : (words text).head? ≠ some ['p']) :
    (l.snoc (words text) hws).Shows (lines ++ [encoded text]) := by
  obtain ⟨texts, rfl, htexts⟩ := hl
  refine ⟨texts ++ [text], by simp, ?_⟩
  simp [htexts, Layout.lines, Layout.snoc]

theorem exists_exceeds_of_aboutRange {i : Input} {e : Failure} (h : Problem.parse i = .error e)
    (he : e.AboutRange) :
    ∃ x w declared, IntNumeral w x ∧ Exceeds i x declared ∧ e = undeclared (.ofInt x) declared := by
  unfold Problem.parse at h
  rcases bind_eq_error_iff.1 h with h | ⟨p, hp, h⟩
  · obtain ⟨shown, line, later, p, hlines, hshown, hline⟩ := foldlM_eq_error_iff.1 h
    obtain ⟨text, hd, good, w, rest, q, rfl, hp, hi, hne, hwords, hgood, hw⟩ :=
      exists_word_of_aboutRange hline he
    obtain ⟨x, hx, hlt, rfl⟩ := exists_number_of_aboutRange hw he
    -- The lines before have a layout, and the header there is the one that counts here.
    obtain ⟨l, hl⟩ := exists_layout hshown hp
    rw [Layout.foldlM_addLine hl] at hshown
    obtain ⟨hd', hheader, hbody⟩ := bind_eq_ok_iff.1 hshown
    have hsame : hd' = hd := by
      have hh := header_foldlM_addWord hbody
      rw [hp] at hh
      exact (Option.some.inj hh).symm
    subst hsame
    obtain ⟨ys, hys, -⟩ := foldlM_addWord_eq_ok_iff.1 hbody
    obtain ⟨zs, hzs, -⟩ := foldlM_addWord_eq_ok_iff.1 hgood
    have hlines' : i.lines = (shown ++ [encoded text]) ++ later := by
      rw [hlines, List.append_cons]
    have hbody' : (l.snoc (words text) hne).body = (l.body ++ good) ++ w :: rest := by
      rw [Layout.body_snoc l hne hi, hwords, List.append_assoc]
    exact ⟨x, w, hd'.varCount, hx, .intro hlines' (hl.snoc hne) (Header.ofWords_eq_ok_iff.1 hheader)
      hbody' (List.rel_append hys hzs) hx hlt, rfl⟩
  · split at h
    · exact absurd he (finish_not_aboutRange h)
    · cases h
      exact he.elim

/-- **Faults of the reader.** Reading a source faults just when the first thing wrong with it is the
least signed number, outside the declared range. It refuses any other number that is the first thing
wrong and outside the range, and the refusal names this number and how many variables are declared. -/
theorem parse_eq_fault_iff (i : Input) :
    (∀ f, Problem.parse i = .error (.fault f) ↔
      f = .overflow .negate ∧ ∃ declared, Exceeds i (-(signedBound : Int)) declared) ∧
    ∀ x declared, Problem.parse i = .error (.rejected (.format (.undeclared x declared))) ↔
      x ≠ -(signedBound : Int) ∧ Exceeds i x declared := by
  constructor
  · intro f
    constructor
    · intro h
      obtain ⟨x, w, declared, hw, hexceeds, he⟩ := exists_exceeds_of_aboutRange h trivial
      rw [undeclared_ofInt hw] at he
      split at he
      · next hx => exact ⟨Failure.fault.inj he, declared, hx ▸ hexceeds⟩
      · cases he
    · rintro ⟨rfl, declared, hexceeds⟩
      exact parse_eq_error_of_exceeds hexceeds
  · intro x declared
    constructor
    · intro h
      obtain ⟨y, w, declared', hw, hexceeds, he⟩ := exists_exceeds_of_aboutRange h trivial
      rw [undeclared_ofInt hw] at he
      split at he
      · cases he
      · next hy =>
        cases he
        exact ⟨hy, hexceeds⟩
    · rintro ⟨hx, hexceeds⟩
      have hread := parse_eq_error_of_exceeds hexceeds
      obtain @⟨_, _, _, _, _, _, _, w, -, -, -, -, -, hw, -⟩ := hexceeds
      rw [hread, undeclared_ofInt hw, if_neg hx]

/-- A source of the form that the refusals are made for, where reading faults all the same. -/
theorem parse_least_number_faults :
    Problem.parse ⟨encoded "p dnf 1 1\n-9223372036854775808 0\n".toList, .complete⟩ =
      .error (.fault (.overflow .negate)) := by
  decide

end Falsifier.Dimacs
