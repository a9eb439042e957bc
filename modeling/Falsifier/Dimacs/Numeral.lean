import Falsifier.Word

/-!
# Numerals

Sizes are written as decimal numerals with an optional `+`, and the numbers of a clause may have a
`-` instead. Leading zeros are allowed. A sign without digits is no numeral, and neither is one
whose value does not fit 64 bits: unsigned for sizes, signed for the numbers of a clause.
-/

namespace Falsifier.Dimacs

/-- The number that a list of digits stands for, the most significant first. -/
def value (ds : List Char) : Nat :=
  ds.foldl (fun n d => 10 * n + (d.toNat - '0'.toNat)) 0

/-- Read a nonempty list of ASCII digits. -/
def digits? (cs : List Char) : Option Nat :=
  if cs.isEmpty || !cs.all Char.isDigit then none else some (value cs)

/-- Read a size. -/
def size? (cs : List Char) : Option Nat :=
  let n? := match cs with
    | '+' :: ds => digits? ds
    | ds => digits? ds
  n?.filter (· < wordBound)

/-- Read a signed number. -/
def integer? (cs : List Char) : Option Int :=
  let x? := match cs with
    | '-' :: ds => (digits? ds).map fun (n : Nat) => -(n : Int)
    | '+' :: ds => (digits? ds).map fun (n : Nat) => (n : Int)
    | ds => (digits? ds).map fun (n : Nat) => (n : Int)
  x?.filter fun x => -(signedBound : Int) ≤ x && x < signedBound

theorem lt_of_size? {cs : List Char} {n : Nat} (h : size? cs = some n) : n < wordBound := by
  simp only [size?, Option.filter_eq_some_iff, decide_eq_true_eq] at h
  exact h.2

theorem bounds_of_integer? {cs : List Char} {x : Int} (h : integer? cs = some x) :
    -(signedBound : Int) ≤ x ∧ x < signedBound := by
  simp only [integer?, Option.filter_eq_some_iff, Bool.and_eq_true, decide_eq_true_eq] at h
  exact h.2

end Falsifier.Dimacs
