import Falsifier.Fault

/-!
# Words

Sizes, variable numbers and counts are unsigned 64-bit words, literals are written as signed 64-bit
words, and random sources yield 32-bit words. Numbers are natural numbers and integers here; the
bounds below say which of them are words, and checked operations fault where a result is none. The
bytes of a memory are counted by signed words, so a row of entries must have fewer than two to the
power of 63.
-/

namespace Falsifier

/-- Sizes and variable numbers lie below two to the power of 64. -/
def wordBound : Nat := 18446744073709551616

/-- Signed numbers lie below two to the power of 63, and not below its negative. -/
def signedBound : Nat := 9223372036854775808

/-- The words of a random source lie below two to the power of 32. -/
def shortBound : Nat := 4294967296

/-- The signed number with the same 64 bits. -/
def signed (n : Nat) : Int :=
  Int.bmod n wordBound

/-- The number with the other sign, unless it leaves the signed range. -/
def checkedNeg (x : Int) : Except Fault Int :=
  if x = -(signedBound : Int) then .error (.overflow .negate) else .ok (-x)

/-- The sum of two sizes, when it fits its word. -/
def checkedAdd (m n : Nat) : Except Fault Nat :=
  if m + n < wordBound then .ok (m + n) else .error (.overflow .add)

/-- The difference of two sizes, unless it is negative. -/
def checkedSub (m n : Nat) : Except Fault Nat :=
  if n ≤ m then .ok (m - n) else .error (.overflow .subtract)

/-- The product of two sizes, when it fits its word. -/
def checkedMul (m n : Nat) : Except Fault Nat :=
  if m * n < wordBound then .ok (m * n) else .error (.overflow .multiply)

/-- The size with its 64 bits moved up by `n` places, which must be fewer than 64. Bits that leave the
word are lost. -/
def checkedShift (m n : Nat) : Except Fault Nat :=
  if n < 64 then .ok (m <<< n % wordBound) else .error (.overflow .shiftLeft)

/-- Whether a row of entries of the given width in bytes has room in a memory. -/
def checkedRow (entries width : Nat) : Except Fault Unit :=
  if entries * width < signedBound then .ok () else .error .capacity

theorem checkedAdd_eq_ok_iff {m n k : Nat} :
    checkedAdd m n = .ok k ↔ m + n < wordBound ∧ k = m + n := by
  unfold checkedAdd
  split <;> rename_i h <;> simp [h, eq_comm]

theorem checkedSub_eq_ok {m n : Nat} (h : n ≤ m) : checkedSub m n = .ok (m - n) :=
  if_pos h

theorem checkedMul_eq_ok_iff {m n k : Nat} :
    checkedMul m n = .ok k ↔ m * n < wordBound ∧ k = m * n := by
  unfold checkedMul
  split <;> rename_i h <;> simp [h, eq_comm]

theorem checkedRow_eq_ok_iff {entries width : Nat} :
    checkedRow entries width = .ok () ↔ entries * width < signedBound := by
  unfold checkedRow
  split <;> rename_i h <;> simp [h]

end Falsifier
