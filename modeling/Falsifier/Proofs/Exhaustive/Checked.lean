import Falsifier.Exhaustive
import Falsifier.Proofs.Evaluation
import Mathlib.Data.Nat.Bitwise

/-!
# Checked exhaustive search

A machine numbers the candidates by words. It reads the value of a variable off a candidate with a
mask: the place of the variable is a difference of sizes, and the mask is one moved up to that place.
Here the search is written with all its arithmetic checked. It never faults, whatever the formula,
and it finds what the search finds (`checkedSearch_eq`): variables are at most the largest variable,
and a search is refused before more than `limit` places are needed.
-/

namespace Falsifier.Exhaustive

/-- The value of a variable in candidate `k`, read with a mask. -/
def checkedValue (n k : Nat) (v : Var) : Except Fault Bool := do
  let place ← checkedSub n v
  let mask ← checkedShift 1 place
  return k &&& mask == 0

/-- Whether candidate `k` falsifies the formula. A clause is left at its first false literal. -/
def checkedFalsifies (f : Dnf) (n k : Nat) : Except Fault Bool :=
  f.clauses.allM fun c => c.anyM fun l => return !l.holds (← checkedValue n k l.var)

/-- The first number that passes a test that may fault. -/
def checkedFirstFrom (test : Nat → Except Fault Bool) (k : Nat) : Nat → Except Fault (Option Nat)
  | 0 => return none
  | count + 1 => do if ← test k then return some k else checkedFirstFrom test (k + 1) count

/-- The model of candidate `k`. -/
def checkedModel (n k : Nat) : Except Fault Model :=
  return ⟨← (List.range' 1 n).mapM fun v => return Literal.ofValue v (← checkedValue n k v)⟩

/-- What is reported when this is the first candidate that falsifies the formula. -/
def checkedVerdict (n : Nat) : Option Nat → Except Fault Verdict
  | some k => return .falsified (← checkedModel n k) (← checkedAdd k 1)
  | none => return .tautology n

/-- Try all assignments to the variables 1 to `n`, where `n` is the largest of the formula. -/
def checkedSearch (f : Dnf) : Except Fault (Except SolveError Verdict) :=
  if f.clauses.isEmpty then return .error .emptyFormula
  else
    let n := f.maxVar?.getD 0
    if limit < n then return .error (.tooManyVariables n limit)
    else do
      let count ← checkedShift 1 n
      let first ← checkedFirstFrom (checkedFalsifies f n) 0 count
      return .ok (← checkedVerdict n first)

/-! ### Candidates up to the limit -/

/-- One, moved up within the word. -/
theorem checkedShift_one {n : Nat} (h : n < 64) : checkedShift 1 n = .ok (2 ^ n) := by
  have hlt : 2 ^ n < wordBound := Nat.pow_lt_pow_right (by decide) h
  unfold checkedShift
  rw [if_pos h, Nat.one_shiftLeft, Nat.mod_eq_of_lt hlt]

section

variable {n : Nat} (hn : n ≤ limit)
include hn

theorem checkedValue_eq {v : Var} (hv : v ≤ n) (k : Nat) :
    checkedValue n k v = .ok (value n k v) := by
  have hplace : n - v < 64 := by
    have : n ≤ 24 := hn
    omega
  have hmask : (k &&& 2 ^ (n - v) == 0) = !k.testBit (n - v) := by
    rw [Nat.and_two_pow]
    cases k.testBit (n - v) <;> simp
  unfold checkedValue
  rw [checkedSub_eq_ok hv]
  simp only [bind, Except.bind, pure, Except.pure]
  rw [checkedShift_one hplace]
  simp only [hmask]
  rfl

theorem checkedFalsifies_eq {f : Dnf} (hf : ∀ c ∈ f.clauses, ∀ l ∈ c, l.var ≤ n) (k : Nat) :
    checkedFalsifies f n k = .ok (falsifies f n k) := by
  apply allM_eq_ok
  intro c hc
  apply anyM_eq_ok
  intro l hl
  rw [checkedValue_eq hn (hf c hc l hl)]
  rfl

theorem checkedModel_eq (k : Nat) : checkedModel n k = .ok (model n k) := by
  have hliterals : (List.range' 1 n).mapM (fun v =>
      return Literal.ofValue v (← checkedValue n k v)) = Except.ok (model n k).literals := by
    apply mapM_eq_ok
    intro v hv
    have hrange := List.mem_range'_1.1 hv
    have hv' : v ≤ n := by omega
    rw [checkedValue_eq hn hv']
    rfl
  unfold checkedModel
  rw [hliterals]
  rfl

end

theorem checkedFirstFrom_eq {test : Nat → Except Fault Bool} {test' : Nat → Bool}
    (h : ∀ k, test k = .ok (test' k)) (k count : Nat) :
    checkedFirstFrom test k count = .ok (firstFrom test' k count) := by
  induction count generalizing k with
  | zero => rfl
  | succ count ih =>
      unfold checkedFirstFrom firstFrom
      rw [h k]
      cases hk : test' k with
      | true => rfl
      | false => exact ih (k + 1)

/-! ### The search -/

/-- The candidates are few enough to be counted. -/
theorem checkedVerdict_some {n k : Nat} (hn : n ≤ limit) (hk : k < 2 ^ n) :
    checkedVerdict n (some k) = .ok (.falsified (model n k) (k + 1)) := by
  -- There are at most two to the power of 24 candidates.
  have hcount : 2 ^ n ≤ 2 ^ 24 := Nat.pow_le_pow_right (by decide) hn
  have hfits : k + 1 < wordBound := by
    simp only [wordBound]
    omega
  simp only [checkedVerdict]
  rw [checkedModel_eq hn, checkedAdd_eq_ok_iff.2 ⟨hfits, rfl⟩]
  rfl

/-- **The arithmetic of the search does not fault**, for no formula at all. -/
theorem checkedSearch_eq (f : Dnf) : checkedSearch f = .ok (search f) := by
  unfold checkedSearch search
  split
  · rfl
  dsimp only
  split
  · rfl
  next hn =>
  rw [Nat.not_lt] at hn
  have hn' : f.maxVar?.getD 0 < 64 := Nat.lt_of_le_of_lt hn (by decide)
  have htest := checkedFalsifies_eq hn (f := f) fun c hc l hl =>
    Dnf.le_maxVar (Dnf.var_mem_vars hc hl)
  rw [checkedShift_one hn', Nat.one_shiftLeft]
  simp only [bind, Except.bind]
  rw [checkedFirstFrom_eq htest]
  dsimp only
  cases hfirst : firstFrom (falsifies f (f.maxVar?.getD 0)) 0 (2 ^ f.maxVar?.getD 0) with
  | none => rfl
  | some k =>
      have hk := (firstFrom_eq_some_iff.1 hfirst).2.1
      rw [Nat.zero_add] at hk
      rw [checkedVerdict_some hn hk]
      rfl

end Falsifier.Exhaustive
