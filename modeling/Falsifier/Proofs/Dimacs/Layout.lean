import Falsifier.Dimacs.Reader
import Falsifier.Proofs.Dimacs.Text
import Falsifier.Proofs.Failing

/-!
# How a file is laid out

A `Layout` says what each line of a file is for: there is one header line, the lines before it are
passed over, and the words of the lines after it, less those that are passed over, make up the body.
The reader goes through the lines of a layout as if the header were followed by the body in one piece
(`Layout.foldlM_addLine`), and lines that it gets through, header included, have a layout
(`exists_layout`).
-/

namespace Falsifier.Dimacs

/-- A line is passed over if it has no words or is a comment. -/
def ignored (ws : List Word) : Bool :=
  ws.isEmpty || ws.head? == some ['c']

/-- The lines of a file, as words, by their purpose. -/
structure Layout where
  before : List (List Word)
  /-- The words of the header line after its `p`. -/
  head : List Word
  after : List (List Word)
  before_ignored : ∀ ws ∈ before, ignored ws = true
  /-- There is no second header. -/
  after_ne_header : ∀ ws ∈ after, ws.head? ≠ some ['p']

namespace Layout

def lines (l : Layout) : List (List Word) :=
  l.before ++ (['p'] :: l.head) :: l.after

/-- The words of the body. -/
def body (l : Layout) : List Word :=
  (l.after.filter (!ignored ·)).flatten

/-- These lines, given as bytes, are the lines of the layout. -/
def Shows (l : Layout) (lines : List (List UInt8)) : Prop :=
  ∃ texts : List (List Char), lines = texts.map encoded ∧ texts.map words = l.lines

end Layout

/-- A line is passed over, is a header, or belongs to the body. -/
theorem line_cases (ws : List Word) :
    ignored ws = true ∨ (∃ head, ws = ['p'] :: head) ∨
      ignored ws = false ∧ ws.head? ≠ some ['p'] := by
  cases hi : ignored ws with
  | true => exact .inl rfl
  | false =>
    rcases ws with _ | ⟨w, ws⟩
    · cases hi
    · by_cases hw : w = ['p']
      · exact .inr (.inl ⟨ws, by rw [hw]⟩)
      · exact .inr (.inr ⟨rfl, fun h => hw (Option.some.inj h)⟩)

namespace Progress

variable {p q : Progress} {h : Header} {ws : List Word}

/-! ### Lines by their words -/

theorem addWords_ignored (hi : ignored ws = true) : p.addWords ws = .ok p := by
  rcases ws with _ | ⟨w, ws⟩
  · rfl
  · have hw : w = ['c'] := by simpa [ignored] using hi
    rw [addWords, if_pos hw]

theorem addWords_header (hp : p.header = none) (head : List Word) :
    p.addWords (['p'] :: head) =
      (Header.ofWords head >>= fun h => .ok { p with header := some h }) := by
  rw [addWords, if_neg (by decide), if_pos rfl, hp]
  rfl

theorem addWords_second (hp : p.header = some h) (head : List Word) :
    p.addWords (['p'] :: head) = reject .duplicateHeader := by
  rw [addWords, if_neg (by decide), if_pos rfl, hp]

theorem addWords_body (hi : ignored ws = false) (hw : ws.head? ≠ some ['p']) :
    p.addWords ws = match p.header with
      | some h => ws.foldlM (addWord h) p
      | none => reject .missingHeader := by
  rcases ws with _ | ⟨w, ws⟩
  · cases hi
  · have hc : w ≠ ['c'] := by simpa [ignored] using hi
    have hne : w ≠ ['p'] := fun h => hw (congrArg some h)
    rw [addWords, if_neg hc]
    exact if_neg hne

/-! ### The header stays -/

theorem header_addWord {w : Word} (hq : p.addWord h w = .ok q) : q.header = p.header := by
  unfold addWord at hq
  obtain ⟨l?, -, hq⟩ := bind_eq_ok_iff.1 hq
  cases l? with
  | none => cases hq; rfl
  | some l =>
    dsimp only at hq
    split at hq
    · cases hq
    · cases hq; rfl

theorem header_foldlM_addWord (hq : ws.foldlM (addWord h) p = .ok q) : q.header = p.header :=
  foldlM_preserves (P := fun r => r.header = p.header)
    (fun _ _ _ hb hc => (header_addWord hc).trans hb) rfl hq

/-! ### Runs of lines -/

variable {lines : List (List Word)}

theorem foldlM_addWords_ignored (hi : ∀ ws ∈ lines, ignored ws = true) :
    lines.foldlM addWords p = .ok p := by
  induction lines with
  | nil => rfl
  | cons ws lines ih =>
    rw [List.foldlM_cons, addWords_ignored (hi ws (by simp))]
    exact ih fun v hv => hi v (by simp [hv])

/-- The body is read as if it stood on one line. -/
theorem foldlM_addWords_body (hp : p.header = some h) (hne : ∀ ws ∈ lines, ws.head? ≠ some ['p']) :
    lines.foldlM addWords p = (lines.filter (!ignored ·)).flatten.foldlM (addWord h) p := by
  induction lines generalizing p with
  | nil => rfl
  | cons ws lines ih =>
    have hlines : ∀ v ∈ lines, v.head? ≠ some ['p'] := fun v hv => hne v (by simp [hv])
    rw [List.foldlM_cons]
    cases hi : ignored ws with
    | true =>
      rw [addWords_ignored hi, List.filter_cons_of_neg (by simp [hi])]
      exact ih hp hlines
    | false =>
      rw [addWords_body hi (hne ws (by simp)), List.filter_cons_of_pos (by simp [hi]),
        List.flatten_cons, List.foldlM_append, hp]
      exact bind_congr_ok fun q hq => ih ((header_foldlM_addWord hq).trans hp) hlines

/-- No second header is read. -/
theorem head?_ne_of_foldlM (hp : p.header = some h) (hq : lines.foldlM addWords p = .ok q) :
    ∀ ws ∈ lines, ws.head? ≠ some ['p'] := by
  induction lines generalizing p with
  | nil => exact fun ws hws => nomatch hws
  | cons ws lines ih =>
    rw [List.foldlM_cons] at hq
    obtain ⟨p', hp', hq⟩ := bind_eq_ok_iff.1 hq
    rcases line_cases ws with hi | ⟨head, rfl⟩ | ⟨hi, hne⟩
    · have hne : ws.head? ≠ some ['p'] := by
        rcases ws with _ | ⟨w, ws⟩
        · simp
        · have hw : w = ['c'] := by simpa [ignored] using hi
          simp [hw]
      rw [addWords_ignored hi] at hp'
      cases hp'
      exact List.forall_mem_cons.2 ⟨hne, ih hp hq⟩
    · rw [addWords_second hp] at hp'
      cases hp'
    · rw [addWords_body hi hne, hp] at hp'
      exact List.forall_mem_cons.2 ⟨hne, ih ((header_foldlM_addWord hp').trans hp) hq⟩

/-- Lines that are read, header included, have a layout. -/
theorem exists_layout_words (hq : lines.foldlM addWords start = .ok q) (hh : q.header = some h) :
    ∃ l : Layout, l.lines = lines := by
  induction lines with
  | nil =>
    cases hq
    cases hh
  | cons ws lines ih =>
    rw [List.foldlM_cons] at hq
    obtain ⟨p', hp', hq⟩ := bind_eq_ok_iff.1 hq
    rcases line_cases ws with hi | ⟨head, rfl⟩ | ⟨hi, hne⟩
    · rw [addWords_ignored hi] at hp'
      cases hp'
      obtain ⟨l, rfl⟩ := ih hq
      exact ⟨{ l with
        before := ws :: l.before
        before_ignored := List.forall_mem_cons.2 ⟨hi, l.before_ignored⟩ }, rfl⟩
    · rw [addWords_header rfl] at hp'
      obtain ⟨h', -, hp'⟩ := bind_eq_ok_iff.1 hp'
      cases hp'
      exact ⟨⟨[], head, lines, fun _ hws => (nomatch hws), head?_ne_of_foldlM rfl hq⟩, rfl⟩
    · rw [addWords_body hi hne] at hp'
      cases hp'

/-! ### Lines by their bytes -/

theorem addLine_encoded (p : Progress) (text : List Char) :
    p.addLine (encoded text) = p.addWords (words text) := by
  have hdecode : String.fromUTF8? ⟨(encoded text).toArray⟩ = some (String.ofList text) :=
    fromUTF8?_eq_some_iff.2 (by rw [String.toList_ofList])
  unfold addLine
  rw [hdecode]
  simp only [String.toList_ofList]

theorem exists_text_of_addLine {line : List UInt8} (hq : p.addLine line = .ok q) :
    ∃ text, line = encoded text := by
  unfold addLine at hq
  split at hq
  · next s hs => exact ⟨s.toList, fromUTF8?_eq_some_iff.1 hs⟩
  · cases hq

theorem foldlM_addLine_encoded (texts : List (List Char)) :
    (texts.map encoded).foldlM addLine p = (texts.map words).foldlM addWords p := by
  rw [List.foldlM_map, List.foldlM_map]
  simp only [addLine_encoded]

theorem exists_texts_of_foldlM {lines : List (List UInt8)}
    (hq : lines.foldlM addLine p = .ok q) :
    ∃ texts : List (List Char), lines = texts.map encoded := by
  induction lines generalizing p with
  | nil => exact ⟨[], rfl⟩
  | cons line lines ih =>
    rw [List.foldlM_cons] at hq
    obtain ⟨p', hp', hq'⟩ := bind_eq_ok_iff.1 hq
    obtain ⟨text, rfl⟩ := exists_text_of_addLine hp'
    obtain ⟨texts, rfl⟩ := ih hq'
    exact ⟨text :: texts, rfl⟩

end Progress

open Progress

/-- **The reader goes by the layout.** It reads the header and then the body in one piece. -/
theorem Layout.foldlM_addLine {l : Layout} {lines : List (List UInt8)} (hl : l.Shows lines) :
    lines.foldlM addLine start =
      (Header.ofWords l.head >>= fun h => l.body.foldlM (addWord h) ⟨some h, #[], #[]⟩) := by
  obtain ⟨texts, rfl, htexts⟩ := hl
  rw [foldlM_addLine_encoded, htexts]
  unfold Layout.lines
  rw [List.foldlM_append, foldlM_addWords_ignored l.before_ignored]
  show ((['p'] :: l.head) :: l.after).foldlM addWords start = _
  rw [List.foldlM_cons, addWords_header rfl, bind_assoc]
  exact bind_congr_ok fun h _ => foldlM_addWords_body rfl l.after_ne_header

/-- Lines that are read, header included, have a layout. -/
theorem exists_layout {lines : List (List UInt8)} {p : Progress} {h : Header}
    (hp : lines.foldlM addLine start = .ok p) (hh : p.header = some h) :
    ∃ l : Layout, l.Shows lines := by
  obtain ⟨texts, rfl⟩ := exists_texts_of_foldlM hp
  rw [foldlM_addLine_encoded] at hp
  obtain ⟨l, hl⟩ := exists_layout_words hp hh
  exact ⟨l, texts, rfl, hl.symm⟩

end Falsifier.Dimacs
