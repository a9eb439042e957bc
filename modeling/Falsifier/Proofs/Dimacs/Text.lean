import Falsifier.Proofs.Dimacs.Numeral

/-!
# Bytes, lines and words

A source delivers bytes, the reader cuts them into lines and each line into words. The facts here say
what it finds in a text that is put together from lines, and a line that is put together from words.
-/

namespace Falsifier.Dimacs

/-! ### Bytes -/

/-- The bytes of a text. -/
def encoded (text : List Char) : List UInt8 :=
  text.flatMap String.utf8EncodeChar

theorem encoded_append (a b : List Char) : encoded (a ++ b) = encoded a ++ encoded b :=
  List.flatMap_append

theorem bytes_eq_encoded (s : String) : s.toUTF8.data.toList = encoded s.toList := by
  show s.toByteArray.data.toList = _
  rw [← String.utf8Encode_toList]
  exact List.toList_data_toByteArray

/-- Bytes decode to a text just when they are its bytes. -/
theorem fromUTF8?_eq_some_iff {bytes : List UInt8} {s : String} :
    String.fromUTF8? ⟨bytes.toArray⟩ = some s ↔ bytes = encoded s.toList := by
  have hbytes : bytes = encoded s.toList ↔ (⟨bytes.toArray⟩ : ByteArray) = s.toByteArray := by
    rw [← bytes_eq_encoded]
    exact ⟨fun h => ByteArray.ext (by rw [h]; rfl), fun h => (congrArg (·.data.toList) h)⟩
  rw [hbytes]
  unfold String.fromUTF8?
  split
  · next hvalid =>
    rw [Option.some_inj]
    exact ⟨fun h => congrArg String.toByteArray h, fun h => String.toByteArray_inj.1 h⟩
  · next hvalid =>
    simp only [reduceCtorEq, false_iff]
    intro h
    exact hvalid (h ▸ s.isValidUTF8)

/-! ### Lines -/

theorem newline_mem_utf8EncodeChar {c : Char} (h : 10 ∈ String.utf8EncodeChar c) : c = '\n' := by
  have hval : c.val.toNat = 10 := by
    -- The bytes of a character that takes several are all 128 or more.
    revert h
    fun_cases String.utf8EncodeChar c <;>
      simp only [List.mem_cons, List.not_mem_nil, or_false, ← UInt8.toNat_inj,
        UInt8.toNat_ofNat', UInt8.toNat_ofNat] <;>
      omega
  exact Char.ext (UInt32.toNat_inj.1 hval)

/-- No other character has the byte of a newline among its bytes. -/
theorem newline_notMem_encoded {line : List Char} (h : '\n' ∉ line) : 10 ∉ encoded line := by
  intro hmem
  obtain ⟨c, hc, hbyte⟩ := List.mem_flatMap.1 hmem
  exact h (newline_mem_utf8EncodeChar hbyte ▸ hc)

/-- The lines of a text whose lines all end with a newline. A last empty line follows. -/
theorem splitOn_encoded_lines {lines : List (List Char)} (h : ∀ line ∈ lines, '\n' ∉ line) :
    (encoded (lines.flatMap (· ++ ['\n']))).splitOn 10 = (lines ++ [[]]).map encoded := by
  induction lines with
  | nil => rfl
  | cons line lines ih =>
    have hline : 10 ∉ encoded line := newline_notMem_encoded (h line (by simp))
    have hlines := ih fun l hl => h l (by simp [hl])
    have hnewline : encoded ['\n'] = [10] := by decide
    rw [List.flatMap_cons, encoded_append, encoded_append, hnewline, List.append_assoc,
      List.singleton_append, List.splitOn_append_cons_self_of_not_mem hline, hlines]
    rfl

/-! ### Words -/

/-- The characters of a nonempty word are not blank. -/
def IsWord (w : Word) : Prop :=
  w ≠ [] ∧ ∀ c ∈ w, isBlank c = false

instance : DecidablePred IsWord := fun w =>
  decidable_of_iff (!w.isEmpty && w.all (!isBlank ·)) (by simp [IsWord])

theorem words_append_cons {line rest : List Char} {b : Char} (h : isBlank b = true) :
    words (line ++ b :: rest) = words line ++ words rest := by
  unfold words
  rw [List.splitOnP_append_cons _ _ h, List.filter_append]

theorem words_of_isWord {w : Word} (h : IsWord w) : words w = [w] := by
  have hne : w.isEmpty = false := by simpa using h.1
  unfold words
  rw [List.splitOnP_eq_singleton h.2]
  simp [hne]

/-- The words of a line in which a blank stands between each two. -/
theorem words_intercalate {ws : List Word} (h : ∀ w ∈ ws, IsWord w) :
    words ([' '].intercalate ws) = ws := by
  induction ws with
  | nil => rfl
  | cons w ws ih =>
    have hw := words_of_isWord (h w (by simp))
    have hws := ih fun v hv => h v (by simp [hv])
    rcases ws with _ | ⟨v, ws⟩
    · rw [List.intercalate_singleton, hw]
    · rw [List.intercalate_cons_cons, List.append_assoc, List.singleton_append,
        words_append_cons (by decide), hw, hws]
      rfl

/-- A blank after each word but the last stands between each two. -/
theorem flatMap_blank_append (ws : List Word) (w : Word) :
    ws.flatMap (· ++ [' ']) ++ w = [' '].intercalate (ws ++ [w]) := by
  induction ws with
  | nil => simp
  | cons v ws ih =>
    have hne : ws ++ [w] ≠ [] := by simp
    rw [List.flatMap_cons, List.append_assoc, ih, List.cons_append,
      List.intercalate_cons_of_ne_nil hne]

/-- What is neither in the separator nor in a part is not in the text. -/
theorem notMem_intercalate {c : Char} {sep : List Char} {xs : List (List Char)} (hsep : c ∉ sep)
    (hxs : ∀ x ∈ xs, c ∉ x) : c ∉ sep.intercalate xs := by
  induction xs with
  | nil => exact List.not_mem_nil
  | cons x xs ih =>
    rw [List.forall_mem_cons] at hxs
    rcases xs with _ | ⟨y, xs⟩
    · rw [List.intercalate_singleton]
      exact hxs.1
    · rw [List.intercalate_cons_cons]
      simp [hxs.1, hsep, ih hxs.2]

/-- There are no newlines in a line that is made of words. -/
theorem newline_notMem_intercalate {ws : List Word} (h : ∀ w ∈ ws, IsWord w) :
    '\n' ∉ [' '].intercalate ws :=
  notMem_intercalate (by decide) fun w hw hmem => nomatch (h w hw).2 _ hmem

/-- A word that starts with something other than a blank. -/
theorem IsWord.cons {w : Word} (h : IsWord w) {c : Char} (hc : isBlank c = false) :
    IsWord (c :: w) :=
  ⟨List.cons_ne_nil c w, List.forall_mem_cons.2 ⟨hc, h.2⟩⟩

theorem Digits.isWord {ds : Word} {n : Nat} (h : Digits ds n) : IsWord ds :=
  ⟨h.ne_nil, fun d hd => isBlank_of_isDigit (h.isDigit d hd)⟩

theorem IntNumeral.isWord {w : Word} {x : Int} (h : IntNumeral w x) : IsWord w := by
  cases h with
  | plain digits => exact digits.isWord
  | plus digits | minus digits => exact digits.isWord.cons rfl

end Falsifier.Dimacs
