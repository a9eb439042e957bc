import Falsifier.Dimacs.Blank
import Falsifier.Dimacs.Numeral

/-!
# Numerals and the numbers they stand for

A numeral is an optional sign before a nonempty row of decimal digits, and its number must fit a
word. `SizeNumeral` and `IntNumeral` say so for the two kinds of numbers; the readers accept exactly
these words, and with these numbers (`size?_eq_some_iff`, `integer?_eq_some_iff`). The usual way to
write a number is one of its numerals (`sizeNumeral_toString`, `intNumeral_toString`).
-/

namespace Falsifier.Dimacs

/-- A run of characters between blanks. -/
abbrev Word := List Char

/-- A nonempty row of decimal digits that stands for `n`. -/
structure Digits (ds : Word) (n : Nat) : Prop where
  ne_nil : ds ≠ []
  isDigit : ∀ d ∈ ds, d.isDigit = true
  value_eq : Nat.ofDigitChars 10 ds 0 = n

/-- The word is a numeral of the size `n`. -/
inductive SizeNumeral : Word → Nat → Prop
  | plain {ds n} (digits : Digits ds n) (fits : n < wordBound) : SizeNumeral ds n
  | plus {ds n} (digits : Digits ds n) (fits : n < wordBound) : SizeNumeral ('+' :: ds) n

/-- The word is a numeral of the signed number `x`. -/
inductive IntNumeral : Word → Int → Prop
  | plain {ds n} (digits : Digits ds n) (fits : n < signedBound) : IntNumeral ds n
  | plus {ds n} (digits : Digits ds n) (fits : n < signedBound) : IntNumeral ('+' :: ds) n
  | minus {ds n} (digits : Digits ds n) (fits : n ≤ signedBound) : IntNumeral ('-' :: ds) (-n)

/-! ### The readers accept the numerals -/

theorem digits?_eq_some_iff {ds : Word} {n : Nat} : digits? ds = some n ↔ Digits ds n := by
  have hvalue : value ds = Nat.ofDigitChars 10 ds 0 := Nat.ofDigitChars_eq_foldl.symm
  unfold digits?
  split
  · next h =>
    simp only [reduceCtorEq, false_iff]
    rintro ⟨hne, hdigit, -⟩
    simp only [Bool.or_eq_true, List.isEmpty_iff, Bool.not_eq_true', List.all_eq_false] at h
    rcases h with h | ⟨d, hd, hnot⟩
    · exact hne h
    · exact hnot (hdigit d hd)
  · next h =>
    simp only [Bool.or_eq_true, not_or, List.isEmpty_iff, Bool.not_eq_true', Bool.not_eq_false,
      List.all_eq_true] at h
    rw [hvalue, Option.some_inj]
    exact ⟨fun hn => ⟨h.1, h.2, hn⟩, Digits.value_eq⟩

/-- A sign is no digit. -/
theorem Digits.head_ne {ds : Word} {n : Nat} (h : Digits ds n) {sign : Char}
    (hsign : sign.isDigit = false) {tail : Word} : ds ≠ sign :: tail := by
  rintro rfl
  have hdigit := h.isDigit sign (by simp)
  rw [hsign] at hdigit
  cases hdigit

theorem size?_eq_some_iff {w : Word} {n : Nat} : size? w = some n ↔ SizeNumeral w n := by
  unfold size?
  simp only [Option.filter_eq_some_iff, decide_eq_true_eq]
  constructor
  · rintro ⟨hread, hfits⟩
    split at hread
    · exact .plus (digits?_eq_some_iff.1 hread) hfits
    · exact .plain (digits?_eq_some_iff.1 hread) hfits
  · intro h
    cases h with
    | plus digits fits => exact ⟨digits?_eq_some_iff.2 digits, fits⟩
    | plain digits fits =>
      refine ⟨?_, fits⟩
      split
      · exact absurd rfl (digits.head_ne (by decide))
      · exact digits?_eq_some_iff.2 digits

theorem integer?_eq_some_iff {w : Word} {x : Int} : integer? w = some x ↔ IntNumeral w x := by
  have hpos : 0 < signedBound := by decide
  unfold integer?
  simp only [Option.filter_eq_some_iff, Bool.and_eq_true, decide_eq_true_eq]
  constructor
  · rintro ⟨hread, hlow, hhigh⟩
    split at hread <;> obtain ⟨n, hn, rfl⟩ := Option.map_eq_some_iff.1 hread
    · exact .minus (digits?_eq_some_iff.1 hn) (by omega)
    · exact .plus (digits?_eq_some_iff.1 hn) (by omega)
    · exact .plain (digits?_eq_some_iff.1 hn) (by omega)
  · intro h
    cases h with
    | @minus ds n digits fits =>
      exact ⟨Option.map_eq_some_iff.2 ⟨n, digits?_eq_some_iff.2 digits, rfl⟩, by omega, by omega⟩
    | @plus ds n digits fits =>
      exact ⟨Option.map_eq_some_iff.2 ⟨n, digits?_eq_some_iff.2 digits, rfl⟩, by omega, by omega⟩
    | @plain ds n digits fits =>
      refine ⟨?_, by omega, by omega⟩
      split
      · exact absurd rfl (digits.head_ne (by decide))
      · exact absurd rfl (digits.head_ne (by decide))
      · exact Option.map_eq_some_iff.2 ⟨n, digits?_eq_some_iff.2 digits, rfl⟩

/-! ### Written numbers are numerals -/

theorem digits_toString (n : Nat) : Digits (toString n).toList n := by
  rw [Nat.toString_eq_ofList_toDigits, String.toList_ofList]
  exact ⟨Nat.toDigits_ne_nil,
    fun d hd => Nat.isDigit_of_mem_toDigits (by decide) (by decide) hd,
    Nat.ofDigitChars_ten_toDigits⟩

theorem sizeNumeral_toString {n : Nat} (h : n < wordBound) : SizeNumeral (toString n).toList n :=
  .plain (digits_toString n) h

theorem intNumeral_toString {x : Int} (hlow : -(signedBound : Int) ≤ x) (hhigh : x < signedBound) :
    IntNumeral (toString x).toList x := by
  cases x with
  | ofNat n =>
    rw [Int.ofNat_eq_natCast] at hhigh
    exact .plain (digits_toString n) (by omega)
  | negSucc n =>
    show IntNumeral ("-" ++ toString (n + 1)).toList (-((n + 1 : Nat) : Int))
    rw [String.toList_append]
    exact .minus (digits_toString (n + 1)) (by omega)

/-! ### Digits are not blank -/

theorem isBlank_of_isDigit {d : Char} (h : d.isDigit = true) : isBlank d = false := by
  have hd : 48 ≤ d.toNat ∧ d.toNat ≤ 57 := by
    simpa [Char.isDigit, UInt32.le_iff_toNat_le] using h
  simp only [isBlank, blankRanges, List.any_cons, List.any_nil, Bool.or_eq_false_iff,
    Bool.and_eq_false_iff, decide_eq_false_iff_not, and_true]
  omega

end Falsifier.Dimacs
