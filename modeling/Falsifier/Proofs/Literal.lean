import Falsifier.Literal

/-!
# Literals as numbers

A literal of a variable from 1 on is the same as a number other than zero (`Literal.ofInt_toInt`,
`Literal.toInt_ofInt`). Written as a signed word it is that number, as long as the variable is below
`signedBound` (`Literal.dimacs_eq`). At this bound the words end: the negative literal cannot be
written, and the positive one is written as the number of the negative one
(`Literal.dimacs_neg_bound`, `Literal.dimacs_pos_bound`).
-/

namespace Falsifier.Literal

/-- The number of a literal: its variable, with the sign of the literal. -/
def toInt : Literal → Int
  | pos v => v
  | neg v => -v

theorem natAbs_toInt (l : Literal) : l.toInt.natAbs = l.var := by
  cases l with
  | pos v => exact Int.natAbs_natCast v
  | neg v => exact (Int.natAbs_neg _).trans (Int.natAbs_natCast v)

theorem toInt_ne_zero {l : Literal} (h : 1 ≤ l.var) : l.toInt ≠ 0 := by
  intro hzero
  rw [← natAbs_toInt, hzero] at h
  cases h

theorem ofInt_toInt {l : Literal} (h : 1 ≤ l.var) : ofInt l.toInt = l := by
  cases l with
  | pos v =>
    have hv : (0 : Int) < (v : Nat) := by exact_mod_cast h
    show ofInt v = pos v
    unfold ofInt
    rw [if_pos hv, Int.natAbs_natCast]
  | neg v =>
    have hv : ¬ (0 : Int) < -(v : Nat) := by omega
    show ofInt (-v) = neg v
    unfold ofInt
    rw [if_neg hv, Int.natAbs_neg, Int.natAbs_natCast]

theorem toInt_ofInt (x : Int) : (ofInt x).toInt = x := by
  unfold ofInt
  split
  · show (x.natAbs : Int) = x
    omega
  · show -(x.natAbs : Int) = x
    omega

/-! ### Signed words -/

theorem toInt_bounds {l : Literal} (h : l.var < signedBound) :
    -(signedBound : Int) ≤ l.toInt ∧ l.toInt < signedBound := by
  have hsize : l.toInt.natAbs < signedBound := by
    rw [natAbs_toInt]
    exact h
  omega

theorem signed_eq {v : Nat} (h : v < signedBound) : signed v = v := by
  unfold signed wordBound
  unfold signedBound at h
  rw [Int.bmod_eq_of_le] <;> omega

theorem dimacs_eq {l : Literal} (h : l.var < signedBound) : l.dimacs = .ok l.toInt := by
  cases l with
  | pos v => exact congrArg Except.ok (signed_eq h)
  | neg v =>
    have hv : signed v = (v : Nat) := signed_eq h
    have hne : ((v : Nat) : Int) ≠ -(signedBound : Int) := by
      unfold signedBound
      omega
    show checkedNeg (signed v) = _
    rw [hv]
    exact if_neg hne

theorem dimacs_pos_bound : (pos signedBound).dimacs = .ok (-(signedBound : Int)) :=
  rfl

theorem dimacs_neg_bound : (neg signedBound).dimacs = .error (.overflow .negate) :=
  rfl

/-- A signed number is written as it was read, with one exception. -/
theorem dimacs_ofInt {x : Int} (hlow : -(signedBound : Int) < x) (hhigh : x < signedBound) :
    (ofInt x).dimacs = .ok x := by
  have hvar : x.natAbs < signedBound := by omega
  rw [← var_ofInt] at hvar
  rw [dimacs_eq hvar, toInt_ofInt]

theorem dimacs_ofInt_least : (ofInt (-(signedBound : Int))).dimacs = .error (.overflow .negate) :=
  dimacs_neg_bound

end Falsifier.Literal
