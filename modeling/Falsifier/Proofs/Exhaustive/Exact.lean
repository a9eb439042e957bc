import Falsifier.Proofs.Exhaustive.Checked

/-!
# Exactness of the exhaustive search

The candidates up to two to the power of `n` are the assignments to the variables 1 to `n`, each of
them once (`value_number`), and a smaller number is an earlier assignment (`exists_place_of_lt`). So
the search misses no assignment, and the first candidate that falsifies the formula is the first
assignment that does: `search_exact`.
-/

namespace Falsifier

/-- The lexicographic order of assignments, where lower variables count first and true comes before
false: where the two differ first, `a` is true and `b` is false. -/
def Assignment.Precedes (a b : Assignment) : Prop :=
  ∃ v : Nat, a.value? v = some true ∧ b.value? v = some false ∧ ∀ w < v, a.value? w = b.value? w

/-- The assignment gives values to the variables 1 to `n` and to no others. -/
def Assignment.Covers (n : Nat) (a : Assignment) : Prop :=
  ∀ v : Nat, (a.value? v).isSome ↔ 1 ≤ v ∧ v ≤ n

namespace Exhaustive

/-- The model is the first assignment to the variables 1 to `n` that falsifies the formula. -/
structure First (f : Dnf) (n : Nat) (m : Model) : Prop where
  /-- There is one literal for each of the variables, in order. -/
  vars_eq : m.literals.map Literal.var = List.range' 1 n
  falsifies : f.falsifiedBy m.toAssignment = .ok true
  first : ∀ a : Assignment, a.Covers n → f.falsifiedBy a = .ok true →
    (∀ v, a.value? v = m.toAssignment.value? v) ∨ m.toAssignment.Precedes a
  /-- A variable that the formula does not mention is true. -/
  unmentioned : ∀ v : Nat, 1 ≤ v → v ≤ n → v ∉ f.vars → .pos v ∈ m.literals

/-! ### Numbers of assignments -/

/-- The number of the candidate that gives the variables 1 to `n` these values. -/
def number (n : Nat) (g : Valuation) : Nat :=
  Nat.ofBits fun i : Fin n => !g (n - i)

theorem number_lt (n : Nat) (g : Valuation) : number n g < 2 ^ n :=
  Nat.ofBits_lt_two_pow _

theorem value_number {n : Nat} (g : Valuation) {v : Nat} (hv : 1 ≤ v) (hn : v ≤ n) :
    value n (number n g) v = g v := by
  have hplace : n - v < n := by omega
  have hback : n - (n - v) = v := by omega
  unfold value number
  rw [Nat.testBit_ofBits_lt _ _ hplace]
  simp only [hback, Bool.not_not]

/-- Numbers are compared at the highest bit in which they differ. -/
theorem exists_testBit_of_lt {j k : Nat} (h : j < k) :
    ∃ i, j.testBit i = false ∧ k.testBit i = true ∧ ∀ p, i < p → j.testBit p = k.testBit p := by
  have hne : j ^^^ k ≠ 0 := fun hzero => Nat.ne_of_lt h (Nat.xor_eq_zero_iff.1 hzero)
  obtain ⟨i, hi, habove⟩ := Nat.exists_most_significant_bit hne
  rw [Nat.testBit_xor] at hi
  have hsame (p : Nat) (hp : i < p) : j.testBit p = k.testBit p := by
    have hxor := habove p hp
    rw [Nat.testBit_xor] at hxor
    simpa using hxor
  cases hj : j.testBit i with
  | false =>
      rw [hj, Bool.false_xor] at hi
      exact ⟨i, hj, hi, hsame⟩
  | true =>
      -- Then `k` would be the smaller number.
      have hk : k.testBit i = false := by
        rw [hj] at hi
        simpa using hi
      have hlt : k < j := Nat.lt_of_testBit i hk hj fun p hp => (hsame p hp).symm
      exact absurd h (Nat.not_lt_of_lt hlt)

/-- A smaller number is an earlier assignment. -/
theorem exists_place_of_lt {n j k : Nat} (h : j < k) (hk : k < 2 ^ n) :
    ∃ v : Nat, 1 ≤ v ∧ v ≤ n ∧ value n j v = true ∧ value n k v = false ∧
      ∀ w < v, value n j w = value n k w := by
  obtain ⟨i, hj, hki, habove⟩ := exists_testBit_of_lt h
  have hi : i < n := by
    by_contra hle
    have hlt : k < 2 ^ i := Nat.lt_of_lt_of_le hk (Nat.pow_le_pow_right (by decide) (by omega))
    rw [Nat.testBit_lt_two_pow hlt] at hki
    cases hki
  have hplace : n - (n - i) = i := by omega
  refine ⟨n - i, by omega, by omega, ?_, ?_, ?_⟩
  · unfold value
    rw [hplace, hj]
    rfl
  · unfold value
    rw [hplace, hki]
    rfl
  · intro w hw
    unfold value
    rw [habove (n - w) (by omega)]

/-! ### Models of candidates -/

/-- Literals that give the variables 1 to `n` these values. -/
def literalsTo (n : Nat) (g : Valuation) : List Literal :=
  (List.range' 1 n).map fun v => .ofValue v (g v)

section

variable {n : Nat} {g : Valuation}

theorem map_var_literalsTo : (literalsTo n g).map Literal.var = List.range' 1 n :=
  Literal.map_var_ofValue _ g

theorem ofValue_mem_literalsTo {v : Nat} (hv : 1 ≤ v) (hn : v ≤ n) :
    .ofValue v (g v) ∈ literalsTo n g :=
  List.mem_map.2 ⟨v, List.mem_range'_1.2 ⟨hv, by omega⟩, rfl⟩

theorem value?_literalsTo {v : Nat} (hv : 1 ≤ v) (hn : v ≤ n) :
    (Assignment.ofLiterals (literalsTo n g)).value? v = some (g v) :=
  Assignment.value?_ofValue List.nodup_range' g (List.mem_range'_1.2 ⟨hv, by omega⟩)

theorem value?_literalsTo_eq_none {v : Nat} (h : ¬ (1 ≤ v ∧ v ≤ n)) :
    (Assignment.ofLiterals (literalsTo n g)).value? v = none := by
  refine (Assignment.value?_foldl_bind ?_).trans (Assignment.value?_empty v)
  intro l hl hvar
  have hmem : v ∈ (literalsTo n g).map Literal.var := List.mem_map.2 ⟨l, hl, hvar⟩
  rw [map_var_literalsTo, List.mem_range'_1] at hmem
  omega

theorem covers_literalsTo : (Assignment.ofLiterals (literalsTo n g)).Covers n := by
  intro v
  by_cases hv : 1 ≤ v ∧ v ≤ n
  · simp [value?_literalsTo hv.1 hv.2, hv]
  · simp [value?_literalsTo_eq_none hv, hv]

end

theorem value?_model {n k v : Nat} (hv : 1 ≤ v) (hn : v ≤ n) :
    (model n k).toAssignment.value? v = some (value n k v) :=
  value?_literalsTo hv hn

theorem value?_model_eq_none {n k v : Nat} (h : ¬ (1 ≤ v ∧ v ≤ n)) :
    (model n k).toAssignment.value? v = none :=
  value?_literalsTo_eq_none h

/-! ### Valuations of assignments -/

/-- The values of an assignment, where a variable without a value counts as true. -/
def completion (a : Assignment) : Valuation :=
  fun v => (a.value? v).getD true

theorem completion_eq {a : Assignment} {v : Var} {b : Bool} (h : a.value? v = some b) :
    completion a v = b := by
  unfold completion
  rw [h]
  rfl

theorem value?_of_covers {n : Nat} {a : Assignment} (h : a.Covers n) {v : Nat}
    (hv : 1 ≤ v ∧ v ≤ n) : a.value? v = some (completion a v) := by
  obtain ⟨b, hb⟩ := Option.isSome_iff_exists.1 ((h v).2 hv)
  rw [completion_eq hb, hb]

theorem value?_eq_none_of_covers {n : Nat} {a : Assignment} (h : a.Covers n) {v : Nat}
    (hv : ¬ (1 ≤ v ∧ v ≤ n)) : a.value? v = none := by
  rw [← Option.not_isSome_iff_eq_none, h v]
  exact hv

/-! ### Candidates that falsify the formula -/

section

variable {f : Dnf} {n : Nat} (hvars : ∀ v ∈ f.vars, 1 ≤ v ∧ v ≤ n)
include hvars

theorem falsifies_number {g : Valuation} (h : f.falseUnder g = true) :
    falsifies f n (number n g) = true := by
  refine Dnf.falseUnder_of_agree (fun v hv => ?_) h
  exact (value_number g (hvars v hv).1 (hvars v hv).2).symm

/-- No assignment is missed, not even one that leaves variables without a value. -/
theorem falsifies_completion {a : Assignment} (h : f.falsifiedBy a = .ok true) :
    falsifies f n (number n (completion a)) = true :=
  falsifies_number hvars (Dnf.falseUnder_of_falsifiedBy (fun _ _ => completion_eq) h)

/-- The evaluator finds the truth value under the valuation. -/
theorem falsifiedBy_literalsTo (g : Valuation) :
    f.falsifiedBy (.ofLiterals (literalsTo n g)) = .ok (f.falseUnder g) := by
  apply Dnf.falsifiedBy_of_vars
  intro v hv
  exact value?_literalsTo (hvars v hv).1 (hvars v hv).2

/-- The inlined evaluation is that of the evaluator. -/
theorem falsifiedBy_model (k : Nat) :
    f.falsifiedBy (model n k).toAssignment = .ok (falsifies f n k) :=
  falsifiedBy_literalsTo hvars (value n k)

variable {k : Nat} (hfirst : ∀ j < k, falsifies f n j = false)
include hfirst

/-- An assignment that falsifies the formula is the first candidate or a later one. -/
theorem le_number {g : Valuation} (h : f.falseUnder g = true) : k ≤ number n g := by
  by_contra hlt
  rw [Nat.not_le] at hlt
  have hfalse := hfirst (number n g) hlt
  rw [falsifies_number hvars h] at hfalse
  cases hfalse

/-- Were a variable false that does not matter, then an earlier candidate would do. -/
theorem value_eq_true (hk : falsifies f n k = true) {v : Nat} (hv : 1 ≤ v) (hn : v ≤ n)
    (hmem : v ∉ f.vars) : value n k v = true := by
  let g : Valuation := fun w => if w = v then true else value n k w
  have hg : f.falseUnder g = true := by
    refine Dnf.falseUnder_of_agree (fun w hw => ?_) hk
    have hne : w ≠ v := fun h => hmem (h ▸ hw)
    exact (if_neg hne).symm
  have hgv : value n (number n g) v = true := (value_number g hv hn).trans (if_pos rfl)
  rcases Nat.eq_or_lt_of_le (le_number hvars hfirst hg) with heq | hlt
  · rw [heq]
    exact hgv
  · -- The two differ first at a variable other than `v`, where `g` has not changed anything.
    obtain ⟨w, hw, hwn, hkw, hgw, -⟩ := exists_place_of_lt hlt (number_lt n g)
    have hne : w ≠ v := by
      intro h
      rw [h, hgv] at hgw
      cases hgw
    rw [value_number g hw hwn] at hgw
    have hgw' : value n k w = false := (if_neg hne).symm.trans hgw
    rw [hkw] at hgw'
    cases hgw'

theorem first_model (hk : falsifies f n k = true) : First f n (model n k) where
  vars_eq := map_var_literalsTo
  falsifies := by
    rw [falsifiedBy_model hvars, hk]
  first a ha hfalse := by
    have hg : f.falseUnder (completion a) = true :=
      Dnf.falseUnder_of_falsifiedBy (fun _ _ => completion_eq) hfalse
    rcases Nat.eq_or_lt_of_le (le_number hvars hfirst hg) with heq | hlt
    · refine .inl fun v => ?_
      by_cases hv : 1 ≤ v ∧ v ≤ n
      · rw [value?_of_covers ha hv, value?_model hv.1 hv.2, heq, value_number _ hv.1 hv.2]
      · rw [value?_eq_none_of_covers ha hv, value?_model_eq_none hv]
    · obtain ⟨v, hv, hn, hkv, hgv, hbefore⟩ := exists_place_of_lt hlt (number_lt n _)
      refine .inr ⟨v, ?_, ?_, fun w hw => ?_⟩
      · rw [value?_model hv hn, hkv]
      · rw [value?_of_covers ha ⟨hv, hn⟩, ← value_number (completion a) hv hn, hgv]
      · by_cases hw' : 1 ≤ w
        · have hwn : w ≤ n := Nat.le_trans (Nat.le_of_lt hw) hn
          rw [value?_model hw' hwn, value?_of_covers ha ⟨hw', hwn⟩, hbefore w hw,
            value_number _ hw' hwn]
        · have hout : ¬ (1 ≤ w ∧ w ≤ n) := fun h => hw' h.1
          rw [value?_model_eq_none hout, value?_eq_none_of_covers ha hout]
  unmentioned v hv hn hmem := by
    have htrue := value_eq_true hvars hfirst hk hv hn hmem
    have hliteral := ofValue_mem_literalsTo (g := value n k) hv hn
    rw [htrue] at hliteral
    exact hliteral

end

/-! ### The search -/

/-- What a search that is not refused reports. -/
theorem search_eq {f : Dnf} (hf : f.clauses ≠ []) (hn : f.maxVar?.getD 0 ≤ limit) :
    search f = .ok (match firstFrom (falsifies f (f.maxVar?.getD 0)) 0 (2 ^ f.maxVar?.getD 0) with
      | some k => .falsified (model (f.maxVar?.getD 0) k) (k + 1)
      | none => .tautology (f.maxVar?.getD 0)) := by
  have hempty : f.clauses.isEmpty = false := by simpa using hf
  unfold search
  rw [hempty]
  simp only [Bool.false_eq_true, if_false, Nat.not_lt.2 hn, Nat.one_shiftLeft]
  cases firstFrom (falsifies f (f.maxVar?.getD 0)) 0 (2 ^ f.maxVar?.getD 0) <;> rfl

/-- A search that is not refused has clauses, and its variables are within the limit. -/
theorem accepted_of_search {f : Dnf} {v : Verdict} (h : search f = .ok v) :
    f.clauses ≠ [] ∧ f.maxVar?.getD 0 ≤ limit := by
  unfold search at h
  split at h
  · cases h
  · next hempty =>
    dsimp only at h
    split at h
    · cases h
    · next hn => exact ⟨by simpa using hempty, Nat.not_lt.1 hn⟩

/-- A search that is not refused gives a verdict. -/
theorem exists_verdict {f : Dnf} (hf : f.clauses ≠ []) (hn : f.maxVar?.getD 0 ≤ limit) :
    search f = .ok (.tautology (f.maxVar?.getD 0)) ∨
      ∃ m tried, search f = .ok (.falsified m tried) := by
  rw [search_eq hf hn]
  cases firstFrom (falsifies f (f.maxVar?.getD 0)) 0 (2 ^ f.maxVar?.getD 0) with
  | none => exact .inl rfl
  | some k => exact .inr ⟨_, _, rfl⟩

section

variable {f : Dnf} (hf : ∀ v ∈ f.vars, 1 ≤ v)
include hf

theorem vars_bounds_of_pos : ∀ v ∈ f.vars, 1 ≤ v ∧ v ≤ f.maxVar?.getD 0 :=
  fun v hv => ⟨hf v hv, Dnf.le_maxVar hv⟩

/-- A formula that is reported as a tautology is one. -/
theorem falsifiedBy_ne_of_search {top : Nat} (h : search f = .ok (.tautology top))
    (a : Assignment) : f.falsifiedBy a ≠ .ok true := by
  have hvars := vars_bounds_of_pos hf
  obtain ⟨hempty, hn⟩ := accepted_of_search h
  rw [search_eq hempty hn] at h
  cases hfirst : firstFrom (falsifies f (f.maxVar?.getD 0)) 0 (2 ^ f.maxVar?.getD 0) with
  | none =>
    -- An assignment that falsifies the formula would have been found at its number.
    intro ha
    have hnone := firstFrom_eq_none_iff.1 hfirst (number _ (completion a)) (Nat.zero_le _)
      (by rw [Nat.zero_add]; exact number_lt _ _)
    rw [falsifies_completion hvars ha] at hnone
    cases hnone
  | some k =>
    rw [hfirst] at h
    cases h

/-- The model that a search reports is the first one. -/
theorem first_of_search {m : Model} {tried : Nat} (h : search f = .ok (.falsified m tried)) :
    First f (f.maxVar?.getD 0) m := by
  have hvars := vars_bounds_of_pos hf
  obtain ⟨hempty, hn⟩ := accepted_of_search h
  rw [search_eq hempty hn] at h
  cases hfirst : firstFrom (falsifies f (f.maxVar?.getD 0)) 0 (2 ^ f.maxVar?.getD 0) with
  | none =>
    rw [hfirst] at h
    cases h
  | some k =>
    rw [hfirst] at h
    cases h
    obtain ⟨-, -, hk, hbefore⟩ := firstFrom_eq_some_iff.1 hfirst
    exact first_model hvars (fun j hj => hbefore j (Nat.zero_le j) hj) hk

end

/-- **The search is exact.** Its arithmetic does not fault, for no formula at all. Where the
variables are within the limit, it finds a tautology just when no assignment falsifies the formula,
and else the first assignment that does. -/
theorem search_exact (f : Dnf) :
    checkedSearch f = .ok (search f) ∧
      (f.clauses ≠ [] → (∀ v ∈ f.vars, 1 ≤ v ∧ v ≤ 24) →
        (search f = .ok (.tautology (f.maxVar?.getD 0)) ↔
          ∀ a : Assignment, f.falsifiedBy a ≠ .ok true) ∧
        (search f ≠ .ok (.tautology (f.maxVar?.getD 0)) →
          ∃ m tried, search f = .ok (.falsified m tried) ∧ First f (f.maxVar?.getD 0) m)) := by
  refine ⟨checkedSearch_eq f, fun hf hlimit => ?_⟩
  have hn : f.maxVar?.getD 0 ≤ limit := Dnf.maxVar_le fun v hv => (hlimit v hv).2
  have hpos : ∀ v ∈ f.vars, 1 ≤ v := fun v hv => (hlimit v hv).1
  rcases exists_verdict hf hn with htautology | ⟨m, tried, hfalsified⟩
  · have hnone := falsifiedBy_ne_of_search hpos htautology
    exact ⟨⟨fun _ => hnone, fun _ => htautology⟩, fun h => absurd htautology h⟩
  · have hfirst := first_of_search hpos hfalsified
    refine ⟨⟨fun h => ?_, fun h => ?_⟩, fun _ => ⟨m, tried, hfalsified, hfirst⟩⟩
    · rw [hfalsified] at h
      cases h
    · exact absurd hfirst.falsifies (h _)

/-- The second variable does not occur, so it is true. -/
theorem first_of_two_clauses :
    First ⟨[[.pos 1, .pos 3], [.neg 1]]⟩ 3 ⟨[.pos 1, .pos 2, .neg 3]⟩ := by
  have hrun : search ⟨[[.pos 1, .pos 3], [.neg 1]]⟩ =
      .ok (.falsified ⟨[.pos 1, .pos 2, .neg 3]⟩ 2) := rfl
  obtain ⟨-, hfalsified⟩ := (search_exact ⟨[[.pos 1, .pos 3], [.neg 1]]⟩).2 (by decide) (by decide)
  obtain ⟨m, tried, hsearch, hfirst⟩ := hfalsified fun h => nomatch hrun.symm.trans h
  cases hrun.symm.trans hsearch
  exact hfirst

end Exhaustive
end Falsifier
