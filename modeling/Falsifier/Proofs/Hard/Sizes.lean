import Falsifier.Hard.Family
import Falsifier.Proofs.Failing

/-!
# Sizes of hard families

A member is built when its variables have word numbers (`HardFamily.build_of_fits`): none of the
other sizes is larger than the last variable, and the tables of pairs are far smaller than a memory.
There is one exception. A single pigeon may have so many holes that the clause of its places, though
all of its variables are words, takes more bytes than a memory can have.
-/

namespace Falsifier

/-- Of two factors of a word, the smaller one fits half a word. -/
theorem lt_shortBound_of_mul_lt {m n : Nat} (hle : m ≤ n) (h : m * n < wordBound) :
    m < shortBound := by
  refine Nat.lt_of_not_le fun hm => ?_
  have hsquare : shortBound * shortBound ≤ m * n := Nat.mul_le_mul hm (Nat.le_trans hm hle)
  have hbound : shortBound * shortBound = wordBound := rfl
  omega

namespace HardFamily

/-- How many variables a member has. They are numbered from 1. -/
def numVars : HardFamily → Nat
  | pigeonhole holes k => (holes * k + 1) * holes
  | parity size => size * (2 * size + 1)
  | ordering size => size * (size - 1)

/-- There is one pigeon, and the clause of its places has no room in any memory. -/
def Overlong (f : HardFamily) : Prop :=
  f.build = .error .capacity ∧
    ∃ holes, f = pigeonhole holes 0 ∧ signedBound ≤ holes * literalWidth

theorem build_of_checkSizes {f : HardFamily} (h : f.checkSizes = .ok ()) :
    f.build = .ok f.formula := by
  rw [build, h]
  rfl

theorem numbered_eq_ok {n : Nat} (h : n < wordBound) : numbered n = .ok () :=
  if_pos h

/-- The sizes that are computed for pigeons, nodes and rows are no larger than the last variable,
except where there is no hole. -/
theorem checkSizes_pigeonhole {holes k : Nat} (h : (holes * k + 1) * holes < wordBound) :
    (pigeonhole holes k).checkSizes = checkedRow holes literalWidth := by
  have hpigeons : holes * k + 1 < wordBound := by
    rcases Nat.eq_zero_or_pos holes with rfl | hpos
    · rw [Nat.zero_mul]
      decide
    · exact Nat.lt_of_le_of_lt (Nat.le_mul_of_pos_right _ hpos) h
  have hmul : checkedMul holes k = .ok (holes * k) := checkedMul_eq_ok_iff.2 ⟨by omega, rfl⟩
  have hadd : checkedAdd (holes * k) 1 = .ok (holes * k + 1) :=
    checkedAdd_eq_ok_iff.2 ⟨hpigeons, rfl⟩
  simp only [checkSizes, hmul, bind, Except.bind, hadd, numbered_eq_ok h]
  cases checkedRow holes literalWidth <;> rfl

theorem checkSizes_parity {size : Nat} (h : size * (2 * size + 1) < wordBound) :
    (parity size).checkSizes = .ok () := by
  have hsize : size < shortBound := lt_shortBound_of_mul_lt (by omega) h
  unfold shortBound at hsize
  have hword : 2 * size + 1 + 1 < wordBound := by
    unfold wordBound
    omega
  have hmul : checkedMul 2 size = .ok (2 * size) := checkedMul_eq_ok_iff.2 ⟨by omega, rfl⟩
  have hadd : checkedAdd (2 * size) 1 = .ok (2 * size + 1) :=
    checkedAdd_eq_ok_iff.2 ⟨by omega, rfl⟩
  have hentries : checkedAdd (2 * size + 1) 1 = .ok (2 * size + 1 + 1) :=
    checkedAdd_eq_ok_iff.2 ⟨hword, rfl⟩
  have hrow : checkedRow (2 * size + 1 + 1) numberWidth = .ok () := by
    rw [checkedRow_eq_ok_iff]
    unfold numberWidth signedBound
    omega
  simp only [checkSizes, hmul, bind, Except.bind, hadd, hentries, hrow, numbered_eq_ok h]

theorem checkSizes_ordering {size : Nat} (h : size * (size - 1) < wordBound) :
    (ordering size).checkSizes = .ok () := by
  have hsize : size - 1 < shortBound :=
    lt_shortBound_of_mul_lt (Nat.sub_le size 1) (by rwa [Nat.mul_comm])
  unfold shortBound at hsize
  have hword : size + 1 < wordBound := by
    unfold wordBound
    omega
  have hadd : checkedAdd size 1 = .ok (size + 1) := checkedAdd_eq_ok_iff.2 ⟨hword, rfl⟩
  have hrow : checkedRow (size + 1) numberWidth = .ok () := by
    rw [checkedRow_eq_ok_iff]
    unfold numberWidth signedBound
    omega
  simp only [checkSizes, hadd, bind, Except.bind, hrow, numbered_eq_ok h]

/-- A member whose variables have word numbers is built, unless one clause is too long. -/
theorem build_of_fits {f : HardFamily} (h : f.numVars < wordBound) :
    f.build = .ok f.formula ∨ f.Overlong := by
  cases f with
  | pigeonhole holes k =>
    have hsizes := checkSizes_pigeonhole h
    by_cases hroom : holes * literalWidth < signedBound
    · rw [checkedRow_eq_ok_iff.2 hroom] at hsizes
      exact .inl (build_of_checkSizes hsizes)
    · have hrow : checkedRow holes literalWidth = .error .capacity := if_neg hroom
      refine .inr ⟨by rw [build, hsizes, hrow]; rfl, holes, ?_, Nat.not_lt.1 hroom⟩
      -- With room for a pigeon in each hole, the pigeons outnumber the holes.
      rcases Nat.eq_zero_or_pos k with rfl | hk
      · rfl
      · have hle : holes ≤ holes * k + 1 := Nat.le_succ_of_le (Nat.le_mul_of_pos_right _ hk)
        have hholes : holes < shortBound :=
          lt_shortBound_of_mul_lt hle (by rw [Nat.mul_comm]; exact h)
        unfold shortBound at hholes
        unfold literalWidth signedBound at hroom
        omega
  | parity size => exact .inl (build_of_checkSizes (checkSizes_parity h))
  | ordering size => exact .inl (build_of_checkSizes (checkSizes_ordering h))

end HardFamily
end Falsifier
