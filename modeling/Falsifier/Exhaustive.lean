import Falsifier.Message
import Falsifier.Model
import Falsifier.SolveError

/-!
# Exhaustive search

With few variables every assignment can be tried. The candidates are numbered: of the variables
1 to `n` the first is the most significant bit, and a clear bit means true. Counting upwards
therefore goes through the assignments in lexicographic order with true before false, and the first
candidate that falsifies the formula is the least falsifying assignment in that order. If there is
none, the formula is a tautology.
-/

namespace Falsifier.Exhaustive

/-- The largest variable for which a search is started. -/
def limit : Nat := 24

inductive Verdict where
  /-- The first falsifying assignment, and how many candidates were tried up to and with it. -/
  | falsified (model : Model) (tried : Nat)
  /-- No assignment to the variables up to `top` falsifies the formula. -/
  | tautology (top : Nat)
deriving DecidableEq

/-- The value of variable `v` in candidate `k` for the variables 1 to `n`. -/
def value (n k : Nat) (v : Var) : Bool :=
  !k.testBit (n - v)

/-- Whether candidate `k` makes some literal of every clause false. -/
def falsifies (f : Dnf) (n k : Nat) : Bool :=
  f.clauses.all (·.any fun l => !l.holds (value n k l.var))

/-- The first number that passes the test, among the `count` numbers from `k` on. -/
def firstFrom (test : Nat → Bool) (k : Nat) : Nat → Option Nat
  | 0 => none
  | count + 1 => if test k then some k else firstFrom test (k + 1) count

/-- The model of candidate `k`: a literal for each of the variables 1 to `n`. -/
def model (n k : Nat) : Model :=
  ⟨(List.range' 1 n).map fun v => Literal.ofValue v (value n k v)⟩

/-- Try all assignments to the variables 1 to `n`, where `n` is the largest of the formula. There are
two to the power of `n` candidates. -/
def search (f : Dnf) : Except SolveError Verdict :=
  if f.clauses.isEmpty then .error .emptyFormula
  else
    let n := f.maxVar?.getD 0
    if limit < n then .error (.tooManyVariables n limit)
    else match firstFrom (falsifies f n) 0 (1 <<< n) with
      | some k => .ok (.falsified (model n k) (k + 1))
      | none => .ok (.tautology n)

namespace Verdict

/-- The message that reports the end of a search. -/
def message : Verdict → Message
  | falsified _ tried => ⟨.debug, s!"exhaustive search falsified after {tried} assignments"⟩
  | tautology top => ⟨.debug, s!"exhaustive search proved a tautology over {top} variables"⟩

end Verdict

/-! ### The first number that passes -/

theorem firstFrom_eq_none_iff {test : Nat → Bool} {k count : Nat} :
    firstFrom test k count = none ↔ ∀ i, k ≤ i → i < k + count → test i = false := by
  induction count generalizing k with
  | zero => simp [firstFrom]; omega
  | succ count ih =>
    unfold firstFrom
    split
    · next h =>
      simp only [reduceCtorEq, false_iff]
      intro hall
      simp [hall k (Nat.le_refl k) (by omega)] at h
    · next h =>
      rw [ih]
      constructor
      · intro hall i hk hi
        rcases Nat.eq_or_lt_of_le hk with rfl | hlt
        · simpa using h
        · exact hall i hlt (by omega)
      · intro hall i hk hi
        exact hall i (by omega) (by omega)

theorem firstFrom_eq_some_iff {test : Nat → Bool} {k count i : Nat} :
    firstFrom test k count = some i ↔
      k ≤ i ∧ i < k + count ∧ test i = true ∧ ∀ j, k ≤ j → j < i → test j = false := by
  induction count generalizing k with
  | zero => simp [firstFrom]; omega
  | succ count ih =>
    unfold firstFrom
    split
    · next h =>
      simp only [Option.some.injEq]
      constructor
      · rintro rfl
        exact ⟨Nat.le_refl _, by omega, h, fun j hj hlt => absurd hlt (by omega)⟩
      · rintro ⟨hk, -, -, hall⟩
        rcases Nat.eq_or_lt_of_le hk with heq | hlt
        · exact heq
        · simp [hall k (Nat.le_refl k) hlt] at h
    · next h =>
      rw [ih]
      constructor
      · rintro ⟨hk, hi, ht, hall⟩
        refine ⟨by omega, by omega, ht, fun j hj hlt => ?_⟩
        rcases Nat.eq_or_lt_of_le hj with rfl | hlt'
        · simpa using h
        · exact hall j hlt' hlt
      · rintro ⟨hk, hi, ht, hall⟩
        refine ⟨?_, by omega, ht, fun j hj hlt => hall j (by omega) hlt⟩
        rcases Nat.eq_or_lt_of_le hk with rfl | hlt
        · exact absurd ht h
        · exact hlt

end Falsifier.Exhaustive
