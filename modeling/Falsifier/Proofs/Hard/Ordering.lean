import Mathlib.Data.Fintype.Card
import Falsifier.Proofs.Hard.Numbering
import Falsifier.Proofs.Hard.Sizes
import Falsifier.Proofs.Hard.Subsets
import Falsifier.Proofs.Satisfaction

/-!
# Ordering formulas

A valuation that satisfies the formula is a strict order on the elements (`Orders`). A finite order
on at least one element has a minimal one, which a clause forbids; without elements there is no
clause (`ordering_unsatisfiable_iff`). As soon as one element may be minimal, the usual order with
this element put first satisfies the other clauses (`satisfiable_without`).
-/

namespace Falsifier.Hard.Ordering

variable {n : Nat} {g : Valuation}

/-! ### What the clauses say -/

/-- The valuation is a strict order on the elements. -/
structure Orders (n : Nat) (g : Valuation) : Prop where
  antisymm : ∀ i ∈ numbers n, ∀ j ∈ numbers n, i ≠ j →
    g (precedes n i j) = true → g (precedes n j i) = false
  trans : ∀ i ∈ numbers n, ∀ j ∈ numbers n, ∀ k ∈ numbers n, i ≠ j → j ≠ k → i ≠ k →
    g (precedes n i j) = true → g (precedes n j k) = true → g (precedes n i k) = true

/-- A pair is listed once, and its clause looks at both directions. -/
theorem forall_holds_antisymmetric :
    (∀ d ∈ antisymmetric n, Clause.Holds g d) ↔
      ∀ i ∈ numbers n, ∀ j ∈ numbers n, i ≠ j →
        g (precedes n i j) = true → g (precedes n j i) = false := by
  have hpairs : (∀ d ∈ antisymmetric n, Clause.Holds g d) ↔
      ∀ i j, (i, j) ∈ pairs n → g (precedes n i j) = false ∨ g (precedes n j i) = false := by
    rw [antisymmetric, List.forall_mem_map]
    simp [Literal.var]
  rw [hpairs]
  constructor
  · intro h i hi j hj hne htrue
    rw [mem_numbers] at hi hj
    rcases Nat.lt_or_gt_of_ne hne with hlt | hlt
    · exact (h i j (mem_pairs.2 (by omega))).resolve_left (by simp [htrue])
    · exact (h j i (mem_pairs.2 (by omega))).resolve_right (by simp [htrue])
  · intro h i j hmem
    rw [mem_pairs] at hmem
    cases htrue : g (precedes n i j) with
    | false => exact .inl rfl
    | true =>
      exact .inr (h i (mem_numbers.2 (by omega)) j (mem_numbers.2 (by omega)) (by omega) htrue)

theorem mem_triples {i j k : Nat} :
    (i, j, k) ∈ triples n ↔
      i ∈ numbers n ∧ j ∈ numbers n ∧ k ∈ numbers n ∧ i ≠ j ∧ j ≠ k ∧ i ≠ k := by
  simp only [triples, List.mem_flatMap, List.mem_filterMap]
  constructor
  · rintro ⟨a, ha, b, hb, c, hc, heq⟩
    split at heq
    · next hne =>
      cases heq
      exact ⟨ha, hb, hc, hne⟩
    · cases heq
  · rintro ⟨hi, hj, hk, hne⟩
    exact ⟨i, hi, j, hj, k, hk, if_pos hne⟩

theorem forall_holds_transitive :
    (∀ d ∈ transitive n, Clause.Holds g d) ↔
      ∀ i ∈ numbers n, ∀ j ∈ numbers n, ∀ k ∈ numbers n, i ≠ j → j ≠ k → i ≠ k →
        g (precedes n i j) = true → g (precedes n j k) = true → g (precedes n i k) = true := by
  have htriples : (∀ d ∈ transitive n, Clause.Holds g d) ↔
      ∀ i j k, (i, j, k) ∈ triples n →
        g (precedes n i j) = false ∨ g (precedes n j k) = false ∨ g (precedes n i k) = true := by
    rw [transitive, List.forall_mem_map]
    simp [Literal.var]
  rw [htriples]
  constructor
  · intro h i hi j hj k hk hij hjk hik htrue htrue'
    simpa [htrue, htrue'] using h i j k (mem_triples.2 ⟨hi, hj, hk, hij, hjk, hik⟩)
  · intro h i j k hmem
    obtain ⟨hi, hj, hk, hij, hjk, hik⟩ := mem_triples.1 hmem
    have himp := h i hi j hj k hk hij hjk hik
    grind

theorem holds_preceded {j : Nat} :
    Clause.Holds g (preceded n j) ↔ ∃ i ∈ numbers n, i ≠ j ∧ g (precedes n i j) = true := by
  rw [preceded, Clause.holds_map_pos]
  simp [and_assoc]

/-- The formula, where only some of the elements have to be preceded. -/
theorem forall_holds_iff {demanded : List Nat} :
    (∀ d ∈ antisymmetric n ++ transitive n ++ demanded.map (preceded n), Clause.Holds g d) ↔
      Orders n g ∧ ∀ j ∈ demanded, ∃ i ∈ numbers n, i ≠ j ∧ g (precedes n i j) = true := by
  simp only [List.forall_mem_append, List.forall_mem_map, forall_holds_antisymmetric,
    forall_holds_transitive, holds_preceded]
  exact and_congr_left fun _ => ⟨fun h => ⟨h.1, h.2⟩, fun h => ⟨h.1, h.2⟩⟩

/-! ### Minimal elements -/

/-- A finite order on at least one element has a minimal one. -/
theorem Orders.exists_minimal (h : Orders n g) (hn : 1 ≤ n) :
    ∃ j ∈ numbers n, ∀ i ∈ numbers n, i ≠ j → g (precedes n i j) = false := by
  let r : {i // i ∈ numbers n} → {i // i ∈ numbers n} → Prop :=
    fun i j => i.1 ≠ j.1 ∧ g (precedes n i.1 j.1) = true
  have hirrefl : Std.Irrefl r := ⟨fun i hi => hi.1 rfl⟩
  have htrans : IsTrans _ r := by
    refine ⟨fun i j k hij hjk => ?_⟩
    -- Had the outer elements been the same, then the two would precede each other.
    have hik : i.1 ≠ k.1 := by
      intro heq
      have hfalse := h.antisymm i i.2 j j.2 hij.1 hij.2
      rw [heq, hjk.2] at hfalse
      cases hfalse
    exact ⟨hik, h.trans i i.2 j j.2 k k.2 hij.1 hjk.1 hik hij.2 hjk.2⟩
  have hwf : WellFounded r := Finite.wellFounded_of_trans_of_irrefl r
  obtain ⟨j, -, hmin⟩ := hwf.has_min Set.univ ⟨⟨1, mem_numbers.2 ⟨Nat.le_refl 1, hn⟩⟩, trivial⟩
  refine ⟨j, j.2, fun i hi hne => Bool.eq_false_iff.2 fun htrue => ?_⟩
  exact hmin ⟨i, hi⟩ trivial ⟨hne, htrue⟩

theorem not_satisfiable {size : Nat} (hsize : 1 ≤ size) : ¬ (formula size).Satisfiable := by
  rintro ⟨g, hg⟩
  obtain ⟨horders, hpreceded⟩ := forall_holds_iff.1 hg
  obtain ⟨j, hj, hmin⟩ := horders.exists_minimal hsize
  obtain ⟨i, hi, hne, htrue⟩ := hpreceded j hj
  rw [hmin i hi hne] at htrue
  cases htrue

theorem satisfiable_iff {size : Nat} : (formula size).Satisfiable ↔ size = 0 := by
  constructor
  · intro h
    by_contra hne
    exact not_satisfiable (Nat.pos_of_ne_zero hne) h
  · rintro rfl
    exact ⟨fun _ => true, fun d hd => nomatch hd⟩

/-- **Ordering formulas are unsatisfiable unless they are empty.** When the variables are words, the
formula is built. No assignment satisfies it, and its negation is a tautology, just when there are
elements; without elements there are no clauses, and every assignment satisfies the formula. -/
theorem ordering_unsatisfiable_iff {size : Nat} (hfits : size * (size - 1) < wordBound) :
    ∃ c, (HardFamily.ordering size).build = .ok c ∧
      ((∀ a : Assignment, c.satisfiedBy a ≠ .ok true) ↔ 1 ≤ size) ∧
      (c.negate.Tautology ↔ 1 ≤ size) ∧
      (size = 0 → c.clauses = [] ∧ ∀ a : Assignment, c.satisfiedBy a = .ok true) := by
  have hbuild := HardFamily.build_of_checkSizes (HardFamily.checkSizes_ordering hfits)
  have hunsat : ¬ (formula size).Satisfiable ↔ 1 ≤ size :=
    (not_congr satisfiable_iff).trans Nat.one_le_iff_ne_zero.symm
  refine ⟨formula size, hbuild, ?_, ?_, ?_⟩
  · rw [← Cnf.not_satisfiable_iff, hunsat]
  · rw [Cnf.tautology_negate_iff, hunsat]
  · rintro rfl
    exact ⟨rfl, fun a => rfl⟩

/-- Four elements cannot all be preceded, and no elements can. -/
theorem four_elements_unsatisfiable :
    (∃ c, (HardFamily.ordering 4).build = .ok c ∧
      (∀ a : Assignment, c.satisfiedBy a ≠ .ok true) ∧ c.negate.Tautology) ∧
    ∃ c, (HardFamily.ordering 0).build = .ok c ∧
      ∀ a : Assignment, c.satisfiedBy a = .ok true := by
  constructor
  · have hfits : 4 * (4 - 1) < wordBound := by decide
    obtain ⟨c, hbuild, hunsat, htautology, -⟩ := ordering_unsatisfiable_iff hfits
    exact ⟨c, hbuild, hunsat.2 (by decide), htautology.2 (by decide)⟩
  · have hfits : 0 * (0 - 1) < wordBound := by decide
    obtain ⟨c, hbuild, -, -, hempty⟩ := ordering_unsatisfiable_iff hfits
    exact ⟨c, hbuild, (hempty rfl).2⟩

/-! ### One demand less -/

/-- The place of an element in the usual order, except that `q` comes before the others. -/
def key (q i : Nat) : Nat :=
  if i = q then 0 else i

/-- All elements but one can be preceded. -/
theorem satisfiable_without {size i : Nat} (hlow : (formula size).clauses.length ≤ i + size)
    (hhigh : i < (formula size).clauses.length) : ((formula size).without i).Satisfiable := by
  have hlength : (formula size).clauses.length =
      (antisymmetric size ++ transitive size).length + size := by
    rw [formula, List.length_append, List.length_map, length_numbers]
  obtain ⟨q, hq⟩ : ∃ q, q = i - (antisymmetric size ++ transitive size).length := ⟨_, rfl⟩
  have hclauses : ((formula size).without i).clauses =
      antisymmetric size ++ transitive size ++ ((numbers size).eraseIdx q).map (preceded size) := by
    rw [← List.eraseIdx_map, hq]
    exact List.eraseIdx_append_of_length_le (by omega) _
  obtain ⟨g, hg⟩ := exists_valuation (injOn_precedes size)
    fun e => key (q + 1) e.1 < key (q + 1) e.2
  replace hg : ∀ i ∈ numbers size, ∀ j ∈ numbers size, i ≠ j →
      (g (precedes size i j) = true ↔ key (q + 1) i < key (q + 1) j) :=
    fun i hi j hj hne => hg (i, j) ⟨hi, hj, hne.symm⟩
  rw [Cnf.satisfiable_iff_holds, hclauses]
  refine ⟨g, forall_holds_iff.2 ⟨⟨?_, ?_⟩, ?_⟩⟩
  · intro i hi j hj hne htrue
    refine Bool.eq_false_iff.2 fun htrue' => ?_
    exact Nat.lt_asymm ((hg i hi j hj hne).1 htrue) ((hg j hj i hi hne.symm).1 htrue')
  · intro i hi j hj k hk hij hjk hik htrue htrue'
    exact (hg i hi k hk hik).2 <|
      Nat.lt_trans ((hg i hi j hj hij).1 htrue) ((hg j hj k hk hjk).1 htrue')
  · -- The element that comes first precedes all others.
    intro j hj
    obtain ⟨hmem, hne⟩ := mem_eraseIdx_numbers.1 hj
    have hfirst : q + 1 ∈ numbers size := mem_numbers.2 (by omega)
    refine ⟨q + 1, hfirst, hne.symm, (hg _ hfirst j hmem hne.symm).2 ?_⟩
    rw [key, key, if_pos rfl, if_neg hne]
    exact (mem_numbers.1 hmem).1

end Falsifier.Hard.Ordering
