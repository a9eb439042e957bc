import Falsifier.Proofs.Dimacs.Layout
import Mathlib.Data.List.Forall2

/-!
# The language of problems

What a file means is said here without the reader: the words of its header declare a kind and two
sizes (`HeaderWords`), the words of its body are numbers in the declared range (`Declared`), and the
numbers are cut into clauses at their zeros (`Cut`). The reader accepts exactly the files that mean
a problem, and reads them as that problem (`parse_eq_ok_iff`). Since the meaning only looks at the
header and the body, it does not matter how a file is broken into lines.
-/

namespace Falsifier.Dimacs

/-- The words of a header line after its `p`, and what they declare. Further words are allowed. -/
inductive HeaderWords : List Word → Header → Prop
  | intro (kind : Kind) {v c : Word} {varCount clauseCount : Nat} (rest : List Word)
      (vars : SizeNumeral v varCount) (clauses : SizeNumeral c clauseCount) :
      HeaderWords (kind.name.toList :: v :: c :: rest) ⟨kind, varCount, clauseCount⟩

/-- A word of the body is a numeral of a number in the declared range. -/
def Declared (varCount : Nat) (w : Word) (x : Int) : Prop :=
  IntNumeral w x ∧ x.natAbs ≤ varCount

/-- Numbers cut at their zeros. What follows the last zero is a piece only if it has numbers. -/
inductive Cut : List Int → List (List Int) → Prop
  | done : Cut [] []
  | rest {c} (ne_nil : c ≠ []) (nonzero : 0 ∉ c) : Cut c [c]
  | zero {c xs cs} (nonzero : 0 ∉ c) (more : Cut xs cs) : Cut (c ++ 0 :: xs) (c :: cs)

/-- The problem that a header and a body stand for: the body has as many pieces as the header says,
and each of them is a clause. -/
inductive Means (head body : List Word) : Problem → Prop
  | intro {h : Header} {xs : List Int} {cs : List (List Int)}
      (header : HeaderWords head h) (numbers : List.Forall₂ (Declared h.varCount) body xs)
      (cut : Cut xs cs) (count : cs.length = h.clauseCount) :
      Means head body (.ofClauses h.kind (cs.map (·.map Literal.ofInt)))

/-! ### Headers -/

theorem Kind.ofName?_eq_some_iff {s : String} {k : Kind} : Kind.ofName? s = some k ↔ s = k.name := by
  constructor
  · unfold Kind.ofName?
    intro h
    split at h <;> cases h <;> rfl
  · rintro rfl
    exact Kind.ofName?_name k

/-- Only the first three words matter. -/
theorem Header.ofWords_take (ws : List Word) : Header.ofWords (ws.take 3) = Header.ofWords ws := by
  rcases ws with _ | ⟨k, _ | ⟨v, _ | ⟨c, rest⟩⟩⟩ <;> rfl

theorem Header.ofWords_eq_ok_iff {ws : List Word} {h : Header} :
    Header.ofWords ws = .ok h ↔ HeaderWords ws h := by
  constructor
  · intro hread
    unfold Header.ofWords at hread
    split at hread
    · next kind hkind =>
      split at hread
      · next varCount hvars =>
        split at hread
        · next clauseCount hclauses =>
          cases hread
          rcases ws with _ | ⟨k, _ | ⟨v, _ | ⟨c, rest⟩⟩⟩
          · cases hkind
          · cases hvars
          · cases hclauses
          · have hk : k = kind.name.toList := by
              rw [← Kind.ofName?_eq_some_iff.1 hkind, String.toList_ofList]
            rw [hk]
            exact .intro kind rest (size?_eq_some_iff.1 hvars) (size?_eq_some_iff.1 hclauses)
        · cases hread
      · cases hread
    · cases hread
  · rintro ⟨kind, rest, hvars, hclauses⟩
    have hkind : Kind.ofName? (String.ofList kind.name.toList) = some kind := by
      rw [String.ofList_toList, Kind.ofName?_name]
    unfold Header.ofWords
    simp only [List.head?_cons, Option.bind_some, hkind, List.getElem?_cons_succ,
      List.getElem?_cons_zero, size?_eq_some_iff.2 hvars, size?_eq_some_iff.2 hclauses]
    rfl

/-! ### Bodies -/

theorem entry_eq {w : Word} {x : Int} (hw : IntNumeral w x) :
    entry w = .ok (if x = 0 then none else some (.ofInt x)) := by
  have hread : entry w = .ok (Literal.ofDimacs x).toOption := by
    unfold entry
    rw [integer?_eq_some_iff.2 hw]
  rw [hread]
  unfold Literal.ofDimacs
  split <;> rfl

namespace Progress

/-- Take a number of the body. -/
def addNumber (p : Progress) (x : Int) : Progress :=
  if x = 0 then p.close else p.add (.ofInt x)

variable {p q : Progress} {h : Header} {w : Word} {x : Int}

theorem addWord_eq (hw : IntNumeral w x) :
    p.addWord h w = if x.natAbs ≤ h.varCount then .ok (p.addNumber x)
      else .error (undeclared (.ofInt x) h.varCount) := by
  unfold addWord addNumber
  rw [entry_eq hw]
  by_cases hx : x = 0
  · subst hx
    simp only [Int.natAbs_zero, Nat.zero_le, if_true]
    rfl
  · rw [if_neg hx, if_neg hx]
    show (if h.varCount < (Literal.ofInt x).var then _ else _) = _
    rw [Literal.var_ofInt]
    by_cases hle : x.natAbs ≤ h.varCount
    · rw [if_neg (Nat.not_lt.2 hle), if_pos hle]
      rfl
    · rw [if_pos (Nat.not_le.1 hle), if_neg hle]
      rfl

theorem addWord_eq_reject (hw : ∀ x, ¬ IntNumeral w x) :
    p.addWord h w = reject (.badNumber (String.ofList w)) := by
  have hread : integer? w = none :=
    Option.eq_none_iff_forall_ne_some.2 fun x hx => hw x (integer?_eq_some_iff.1 hx)
  unfold addWord entry
  rw [hread]
  rfl

theorem addWord_eq_ok_iff :
    p.addWord h w = .ok q ↔ ∃ x, Declared h.varCount w x ∧ q = p.addNumber x := by
  by_cases hw : ∃ x, IntNumeral w x
  · obtain ⟨x, hx⟩ := hw
    rw [addWord_eq hx]
    constructor
    · intro hq
      split at hq
      · next hle => exact ⟨x, ⟨hx, hle⟩, (Except.ok.inj hq).symm⟩
      · cases hq
    · rintro ⟨y, ⟨hy, hle⟩, rfl⟩
      have hxy : x = y :=
        Option.some.inj ((integer?_eq_some_iff.2 hx).symm.trans (integer?_eq_some_iff.2 hy))
      rw [hxy, if_pos hle]
  · rw [addWord_eq_reject fun x hx => hw ⟨x, hx⟩]
    exact ⟨fun hq => (nomatch hq), fun ⟨x, hx, _⟩ => absurd ⟨x, hx.1⟩ hw⟩

/-- A body is read when its words are numbers in the declared range. -/
theorem foldlM_addWord_eq_ok_iff {ws : List Word} :
    ws.foldlM (addWord h) p = .ok q ↔
      ∃ xs, List.Forall₂ (Declared h.varCount) ws xs ∧ q = xs.foldl addNumber p := by
  induction ws generalizing p with
  | nil =>
    constructor
    · intro hq
      exact ⟨[], .nil, (Except.ok.inj hq).symm⟩
    · rintro ⟨_, ⟨⟩, rfl⟩
      rfl
  | cons w ws ih =>
    rw [List.foldlM_cons, bind_eq_ok_iff]
    constructor
    · rintro ⟨p', hp', hq⟩
      obtain ⟨x, hx, rfl⟩ := addWord_eq_ok_iff.1 hp'
      obtain ⟨xs, hxs, rfl⟩ := ih.1 hq
      exact ⟨x :: xs, .cons hx hxs, rfl⟩
    · rintro ⟨_, hdeclared, rfl⟩
      obtain ⟨x, xs, hx, hxs, rfl⟩ := List.forall₂_cons_left_iff.1 hdeclared
      exact ⟨p.addNumber x, addWord_eq_ok_iff.2 ⟨x, hx, rfl⟩, ih.2 ⟨xs, hxs, rfl⟩⟩

/-! ### Clauses -/

/-- Numbers that are not zero extend the clause. -/
theorem foldl_addNumber_of_nonzero {c : List Int} (hc : 0 ∉ c) :
    c.foldl addNumber p = { p with pending := p.pending ++ (c.map Literal.ofInt).toArray } := by
  induction c generalizing p with
  | nil => simp
  | cons x c ih =>
    have hx : x ≠ 0 := fun h => hc (by simp [h])
    rw [List.foldl_cons, ih fun h => hc (by simp [h])]
    unfold addNumber
    rw [if_neg hx]
    simp [add]

/-- Between two clauses, the numbers to come add a clause for each of their pieces. -/
theorem clauses_foldl_addNumber {xs : List Int} {cs : List (List Int)} (hcut : Cut xs cs)
    (hp : p.pending = #[]) :
    (xs.foldl addNumber p).clauses = p.closed.toList ++ cs.map (·.map Literal.ofInt) := by
  induction hcut generalizing p with
  | done => simp [clauses, hp]
  | @rest c ne_nil nonzero =>
    have hpending : (c.map Literal.ofInt).toArray.isEmpty = false := by
      simpa [Array.isEmpty] using ne_nil
    rw [foldl_addNumber_of_nonzero nonzero]
    unfold clauses
    simp only [hp, Array.empty_append, hpending]
    rfl
  | @zero c xs cs nonzero more ih =>
    rw [List.foldl_append, List.foldl_cons, foldl_addNumber_of_nonzero nonzero]
    have hclose : ∀ p : Progress, p.addNumber 0 = p.close := fun _ => rfl
    rw [hclose, ih rfl]
    simp [close, hp]

theorem finish_eq_ok_iff {P : Problem} :
    p.finish = .ok P ↔ ∃ h, p.header = some h ∧ p.clauses.length = h.clauseCount ∧
      P = .ofClauses h.kind p.clauses := by
  unfold finish
  cases p.header with
  | none => exact ⟨fun h => (nomatch h), fun ⟨_, h, _⟩ => (nomatch h)⟩
  | some h =>
    dsimp only
    split
    · next hcount =>
      constructor
      · intro hP
        exact ⟨h, rfl, hcount, (Except.ok.inj hP).symm⟩
      · rintro ⟨h', hh, -, rfl⟩
        cases hh
        rfl
    · next hcount =>
      constructor
      · intro hP
        cases hP
      · rintro ⟨h', hh, hcount', -⟩
        cases hh
        exact absurd hcount' hcount

end Progress

/-- Every sequence of numbers can be cut. -/
theorem exists_cut (xs : List Int) : ∃ cs, Cut xs cs := by
  induction xs with
  | nil => exact ⟨[], .done⟩
  | cons x xs ih =>
    obtain ⟨cs, hcut⟩ := ih
    by_cases hx : x = 0
    · subst hx
      exact ⟨[] :: cs, .zero (c := []) (by simp) hcut⟩
    · -- The number joins the first piece.
      have hcons {c : List Int} (hc : 0 ∉ c) : 0 ∉ x :: c := by
        simpa [Ne.symm hx] using hc
      cases hcut with
      | done => exact ⟨[[x]], .rest (by simp) (hcons (by simp))⟩
      | rest ne_nil nonzero => exact ⟨_, .rest (by simp) (hcons nonzero)⟩
      | zero nonzero more => exact ⟨_, .zero (hcons nonzero) more⟩

/-- The pieces hold numbers of the sequence, but no zero. -/
theorem Cut.mem {xs : List Int} {cs : List (List Int)} (h : Cut xs cs) {c : List Int} (hc : c ∈ cs)
    {x : Int} (hx : x ∈ c) : x ∈ xs ∧ x ≠ 0 := by
  induction h with
  | done => cases hc
  | rest ne_nil nonzero =>
    rw [List.mem_singleton.1 hc] at hx
    exact ⟨hx, fun hzero => nonzero (hzero ▸ hx)⟩
  | zero nonzero more ih =>
    rcases List.mem_cons.1 hc with rfl | hc
    · exact ⟨by simp [hx], fun hzero => nonzero (hzero ▸ hx)⟩
    · obtain ⟨hmem, hne⟩ := ih hc
      exact ⟨by simp [hmem], hne⟩

theorem natAbs_le_of_declared {n : Nat} {ws : List Word} {xs : List Int}
    (h : List.Forall₂ (Declared n) ws xs) : ∀ x ∈ xs, x.natAbs ≤ signedBound := by
  induction h with
  | nil => exact fun _ hx => nomatch hx
  | cons hw _ ih =>
    obtain ⟨hlow, hhigh⟩ := bounds_of_integer? (integer?_eq_some_iff.2 hw.1)
    exact List.forall_mem_cons.2 ⟨by omega, ih⟩

/-- The variables of a problem start at one, and they are sizes of signed numbers. -/
theorem Means.var_bounds {head body : List Word} {P : Problem} (h : Means head body P) :
    ∀ c ∈ P.clauses, ∀ l ∈ c, 1 ≤ l.var ∧ l.var ≤ signedBound := by
  obtain @⟨h, xs, cs, -, hnumbers, hcut, -⟩ := h
  rw [Problem.clauses_ofClauses, List.forall_mem_map]
  intro c hc
  rw [List.forall_mem_map]
  intro x hx
  obtain ⟨hmem, hne⟩ := hcut.mem hc hx
  rw [Literal.var_ofInt]
  exact ⟨Int.natAbs_pos.2 hne, natAbs_le_of_declared hnumbers x hmem⟩

/-! ### Files -/

open Progress

/-- The outcome for a file that is laid out depends on its header and its body. -/
theorem parse_of_shows {l : Layout} {bytes : List UInt8} (hl : l.Shows (bytes.splitOn 10)) :
    Problem.parse ⟨bytes, .complete⟩ =
      (Header.ofWords l.head >>= fun h => l.body.foldlM (addWord h) ⟨some h, #[], #[]⟩ >>= finish) := by
  rw [← bind_assoc, ← Layout.foldlM_addLine hl]
  rfl

theorem parse_eq_ok_iff_of_shows {l : Layout} {bytes : List UInt8}
    (hl : l.Shows (bytes.splitOn 10)) {P : Problem} :
    Problem.parse ⟨bytes, .complete⟩ = .ok P ↔ Means l.head l.body P := by
  rw [parse_of_shows hl, bind_eq_ok_iff]
  constructor
  · rintro ⟨h, hheader, hbody⟩
    obtain ⟨p, hp, hfinish⟩ := bind_eq_ok_iff.1 hbody
    obtain ⟨xs, hxs, rfl⟩ := foldlM_addWord_eq_ok_iff.1 hp
    obtain ⟨cs, hcut⟩ := exists_cut xs
    have hclauses := clauses_foldl_addNumber (p := ⟨some h, #[], #[]⟩) hcut rfl
    rw [List.nil_append] at hclauses
    obtain ⟨h', hh', hcount, rfl⟩ := finish_eq_ok_iff.1 hfinish
    rw [header_foldlM_addWord hp] at hh'
    cases hh'
    rw [hclauses] at hcount ⊢
    exact .intro (Header.ofWords_eq_ok_iff.1 hheader) hxs hcut (by simpa using hcount)
  · rintro @⟨h, xs, cs, hheader, hxs, hcut, hcount⟩
    have hp := (foldlM_addWord_eq_ok_iff (p := ⟨some h, #[], #[]⟩)).2 ⟨xs, hxs, rfl⟩
    have hclauses := clauses_foldl_addNumber (p := ⟨some h, #[], #[]⟩) hcut rfl
    rw [List.nil_append] at hclauses
    refine ⟨h, Header.ofWords_eq_ok_iff.2 hheader, bind_eq_ok_iff.2 ⟨_, hp, ?_⟩⟩
    refine finish_eq_ok_iff.2 ⟨h, header_foldlM_addWord hp, ?_, ?_⟩
    · simpa [hclauses] using hcount
    · rw [hclauses]

/-- A problem is only read from lines that have a layout. -/
theorem exists_shows_of_parse {bytes : List UInt8} {P : Problem}
    (h : Problem.parse ⟨bytes, .complete⟩ = .ok P) : ∃ l : Layout, l.Shows (bytes.splitOn 10) := by
  obtain ⟨p, hp, hfinish⟩ := bind_eq_ok_iff.1 h
  obtain ⟨h, hh, -, -⟩ := finish_eq_ok_iff.1 hfinish
  exact exists_layout hp hh

/-- The variables of a problem that is read start at one, and they are sizes of signed numbers. -/
theorem var_bounds_of_parse {i : Input} {P : Problem} (h : Problem.parse i = .ok P) :
    ∀ c ∈ P.clauses, ∀ l ∈ c, 1 ≤ l.var ∧ l.var ≤ signedBound := by
  obtain ⟨bytes, ending⟩ := i
  cases ending with
  | complete =>
    obtain ⟨l, hl⟩ := exists_shows_of_parse h
    exact ((parse_eq_ok_iff_of_shows hl).1 h).var_bounds
  | broken reason =>
    obtain ⟨p, -, hp⟩ := bind_eq_ok_iff.1 h
    cases hp

/-- **The reader accepts its language.** It reads a file as a problem just when the file is laid out
with a header and a body that mean the problem. Two files with the same header and body have the
same outcome, however they are broken into lines, and wherever their comments and empty lines stand. -/
theorem parse_eq_ok_iff (bytes : List UInt8) (P : Problem) :
    (Problem.parse ⟨bytes, .complete⟩ = .ok P ↔
      ∃ l : Layout, l.Shows (bytes.splitOn 10) ∧ Means l.head l.body P) ∧
    ∀ (bytes' : List UInt8) (l l' : Layout), l.Shows (bytes.splitOn 10) →
      l'.Shows (bytes'.splitOn 10) → l.head.take 3 = l'.head.take 3 → l.body = l'.body →
      Problem.parse ⟨bytes, .complete⟩ = Problem.parse ⟨bytes', .complete⟩ := by
  refine ⟨⟨fun h => ?_, fun ⟨l, hl, hmeans⟩ => (parse_eq_ok_iff_of_shows hl).2 hmeans⟩, ?_⟩
  · obtain ⟨l, hl⟩ := exists_shows_of_parse h
    exact ⟨l, hl, (parse_eq_ok_iff_of_shows hl).1 h⟩
  · intro bytes' l l' hl hl' hhead hbody
    rw [parse_of_shows hl, parse_of_shows hl', ← Header.ofWords_take l.head, hhead,
      Header.ofWords_take, hbody]

/-- A second clause that is spread over lines, with a comment inside and a zero with a sign before it. -/
theorem parse_of_two_layouts :
    Problem.parse ⟨encoded "c x\n\np dnf 3 2 end\n+1 -0 -2\nc 0\n 3".toList, .complete⟩ =
      Problem.parse ⟨encoded "p dnf 3 2\n+1 -0\n-2 3\n".toList, .complete⟩ :=
  (parse_eq_ok_iff _ (.dnf ⟨[[.pos 1], [.neg 2, .pos 3]]⟩)).2 _
    ⟨["c x".toList, []].map words, ["dnf", "3", "2", "end"].map String.toList,
      ["+1 -0 -2", "c 0", " 3"].map (words ·.toList), by decide, by decide⟩
    ⟨[], ["dnf", "3", "2"].map String.toList,
      ["+1 -0", "-2 3", ""].map (words ·.toList), by decide, by decide⟩
    ⟨["c x", "", "p dnf 3 2 end", "+1 -0 -2", "c 0", " 3"].map String.toList, by decide, by decide⟩
    ⟨["p dnf 3 2", "+1 -0", "-2 3", ""].map String.toList, by decide, by decide⟩
    (by decide) (by decide)

end Falsifier.Dimacs
