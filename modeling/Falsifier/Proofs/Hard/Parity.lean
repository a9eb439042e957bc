import Mathlib.Algebra.BigOperators.Group.Finset.Basic
import Mathlib.Algebra.CharP.Two
import Mathlib.Data.ZMod.Basic
import Mathlib.Tactic.Choose
import Falsifier.Proofs.Hard.Numbering
import Falsifier.Proofs.Hard.Sizes
import Falsifier.Proofs.Hard.Subsets
import Falsifier.Proofs.Satisfaction

/-!
# Parity formulas

A valuation that satisfies the formula gives every node exactly one chosen edge, and so a mate. The
mates pair the nodes off, so that there would be an even number of them (`parity_unsatisfiable`). As
soon as one node need not be matched, the others are paired off in their order
(`satisfiable_without`).
-/

namespace Falsifier.Hard.Parity

variable {n : Nat} {g : Valuation}

/-! ### What the clauses say -/

/-- At most one of the edges at the node is chosen. -/
def AtMostOne (n : Nat) (g : Valuation) (i : Nat) : Prop :=
  ∀ j ∈ numbers n, ∀ k ∈ numbers n, j ≠ i → k ≠ i →
    g (edge n i j) = true → g (edge n i k) = true → j = k

theorem holds_matched {i : Nat} :
    Clause.Holds g (matched n i) ↔ ∃ j ∈ numbers n, j ≠ i ∧ g (edge n i j) = true := by
  rw [matched, Clause.holds_map_pos]
  simp [and_assoc]

/-- Two edges at the node are listed in one order only. -/
theorem forall_holds_unshared {i : Nat} :
    (∀ d ∈ unshared n i, Clause.Holds g d) ↔ AtMostOne n g i := by
  have hpairs : (∀ d ∈ unshared n i, Clause.Holds g d) ↔
      ∀ j k, (j, k) ∈ pairs n → j ≠ i → k ≠ i →
        g (edge n i j) = false ∨ g (edge n i k) = false := by
    rw [unshared, List.forall_mem_map]
    simp [Literal.var]
  rw [hpairs]
  constructor
  · intro h j hj k hk hji hki htrue htrue'
    rw [mem_numbers] at hj hk
    rcases lt_trichotomy j k with hlt | heq | hlt
    · have hfalse := h j k (mem_pairs.2 (by omega)) hji hki
      simp [htrue, htrue'] at hfalse
    · exact heq
    · have hfalse := h k j (mem_pairs.2 (by omega)) hki hji
      simp [htrue, htrue'] at hfalse
  · intro h j k hmem hji hki
    rw [mem_pairs] at hmem
    by_contra hboth
    rw [not_or, Bool.not_eq_false, Bool.not_eq_false] at hboth
    have heq := h j (mem_numbers.2 (by omega)) k (mem_numbers.2 (by omega)) hji hki hboth.1 hboth.2
    omega

/-- The formula, where only some of the nodes have to be matched. -/
theorem forall_holds_iff {demanded : List Nat} :
    (∀ d ∈ demanded.map (matched n) ++ (numbers n).flatMap (unshared n), Clause.Holds g d) ↔
      (∀ i ∈ demanded, ∃ j ∈ numbers n, j ≠ i ∧ g (edge n i j) = true) ∧
      ∀ i ∈ numbers n, AtMostOne n g i := by
  simp only [List.forall_mem_append, List.forall_mem_map, List.forall_mem_flatMap, holds_matched,
    forall_holds_unshared]

/-! ### An odd number of nodes -/

/-- What is paired off is even in number. -/
theorem even_card_of_mates {s : Finset Nat} (mate : Nat → Nat) (hmem : ∀ i ∈ s, mate i ∈ s)
    (hne : ∀ i ∈ s, mate i ≠ i) (hback : ∀ i ∈ s, mate (mate i) = i) : Even s.card := by
  have hsum : ∑ i ∈ s, (1 : ZMod 2) = 0 :=
    Finset.sum_involution (fun i _ => mate i) (fun _ _ => CharTwo.add_self_eq_zero 1)
      (fun i hi _ => hne i hi) hmem hback
  rw [Finset.sum_const, nsmul_one] at hsum
  exact (ZMod.natCast_eq_zero_iff_even).1 hsum

theorem not_satisfiable (size : Nat) : ¬ (formula size).Satisfiable := by
  rintro ⟨g, hg⟩
  obtain ⟨hmatched, hunshared⟩ := forall_holds_iff.1 hg
  choose! mate hmate hne hedge using hmatched
  -- The edge to the mate is the only one that is chosen at the mate, too.
  have hback : ∀ i ∈ numbers (nodes size), mate (mate i) = i := by
    intro i hi
    have hedge' : g (edge (nodes size) (mate i) i) = true := by
      rw [edge_comm]
      exact hedge i hi
    exact hunshared (mate i) (hmate i hi) _ (hmate _ (hmate i hi)) i hi (hne _ (hmate i hi))
      (hne i hi).symm (hedge _ (hmate i hi)) hedge'
  have heven : Even (numbers (nodes size)).toFinset.card :=
    even_card_of_mates mate (by simpa using hmate) (by simpa using hne) (by simpa using hback)
  rw [List.toFinset_card_of_nodup (nodup_numbers _), length_numbers] at heven
  exact Nat.not_even_two_mul_add_one size heven

/-- **Parity formulas are unsatisfiable.** When the variables are words, the formula is built, no
assignment satisfies it, and its negation is a tautology. -/
theorem parity_unsatisfiable {size : Nat} (hfits : size * (2 * size + 1) < wordBound) :
    ∃ c, (HardFamily.parity size).build = .ok c ∧
      (∀ a : Assignment, c.satisfiedBy a ≠ .ok true) ∧ c.negate.Tautology := by
  have hbuild := HardFamily.build_of_checkSizes (HardFamily.checkSizes_parity hfits)
  have hunsat := not_satisfiable size
  exact ⟨_, hbuild, Cnf.not_satisfiable_iff.1 hunsat, Cnf.tautology_negate_iff.2 hunsat⟩

/-- Seven nodes cannot be matched in pairs. -/
theorem seven_nodes_unsatisfiable :
    ∃ c, (HardFamily.parity 3).build = .ok c ∧
      (∀ a : Assignment, c.satisfiedBy a ≠ .ok true) ∧ c.negate.Tautology :=
  parity_unsatisfiable (by decide)

/-! ### One node less -/

/-- The nodes other than `q` are paired off in their order. -/
def Paired (q i j : Nat) : Prop :=
  i ≠ q ∧ j ≠ q ∧ rank q i / 2 = rank q j / 2

theorem Paired.symm {q i j : Nat} (h : Paired q i j) : Paired q j i :=
  ⟨h.2.1, h.1, h.2.2.symm⟩

section Paired

variable {size q : Nat} (hq : q ∈ numbers (nodes size))
include hq

theorem exists_paired {i : Nat} (hi : i ∈ numbers (nodes size)) (hne : i ≠ q) :
    ∃ j ∈ numbers (nodes size), j ≠ i ∧ Paired q i j := by
  have hlt : rank q i + 1 < 2 * size + 1 := rank_lt hq hi hne
  -- An even rank goes with the next one, and an odd rank with the one before.
  obtain ⟨r, hr, hother, hhalf⟩ :
      ∃ r, r + 1 < 2 * size + 1 ∧ r ≠ rank q i ∧ rank q i / 2 = r / 2 := by
    rcases Nat.mod_two_eq_zero_or_one (rank q i) with heven | hodd
    · exact ⟨rank q i + 1, by omega, by omega, by omega⟩
    · exact ⟨rank q i - 1, by omega, by omega, by omega⟩
  obtain ⟨j, hj, hjq, rfl⟩ := exists_rank_eq (q := q) hr
  exact ⟨j, hj, fun heq => hother (heq ▸ rfl), hne, hjq, hhalf⟩

theorem eq_of_paired {i j k : Nat} (hi : i ∈ numbers (nodes size))
    (hj : j ∈ numbers (nodes size)) (hk : k ∈ numbers (nodes size)) (hji : j ≠ i) (hki : k ≠ i)
    (hij : Paired q i j) (hik : Paired q i k) : j = k := by
  have hrankj : rank q j ≠ rank q i := fun h => hji (rank_inj hq hj hij.2.1 hi hij.1 h)
  have hrankk : rank q k ≠ rank q i := fun h => hki (rank_inj hq hk hik.2.1 hi hij.1 h)
  have hhalfj := hij.2.2
  have hhalfk := hik.2.2
  exact rank_inj hq hj hij.2.1 hk hik.2.1 (by omega)

end Paired

/-- A choice of edges can be made by any symmetric relation. -/
theorem exists_valuation_edge {R : Nat → Nat → Prop} (hsymm : ∀ i j, R i j → R j i) :
    ∃ g : Valuation, ∀ i ∈ numbers n, ∀ j ∈ numbers n, j ≠ i →
      (g (edge n i j) = true ↔ R i j) := by
  obtain ⟨g, hg⟩ := exists_valuation (injOn_edge n) fun e => R e.1 e.2
  refine ⟨g, fun i hi j hj hne => ?_⟩
  rw [mem_numbers] at hi hj
  rcases Nat.lt_or_gt_of_ne hne with hlt | hlt
  · rw [edge_comm, hg (j, i) (mem_pairs.2 (by omega))]
    exact ⟨hsymm j i, hsymm i j⟩
  · exact hg (i, j) (mem_pairs.2 (by omega))

/-- All nodes but one can be matched. -/
theorem satisfiable_without {size i : Nat} (hi : i < nodes size) :
    ((formula size).without i).Satisfiable := by
  have hq : i + 1 ∈ numbers (nodes size) := mem_numbers.2 (by omega)
  have hclauses : ((formula size).without i).clauses =
      ((numbers (nodes size)).eraseIdx i).map (matched (nodes size)) ++
        (numbers (nodes size)).flatMap (unshared (nodes size)) :=
    eraseIdx_map_append hi _ _
  obtain ⟨g, hg⟩ := exists_valuation_edge (n := nodes size) fun _ _ => Paired.symm (q := i + 1)
  rw [Cnf.satisfiable_iff_holds, hclauses]
  refine ⟨g, forall_holds_iff.2 ⟨?_, ?_⟩⟩
  · intro p hp
    obtain ⟨hmem, hne⟩ := mem_eraseIdx_numbers.1 hp
    obtain ⟨j, hj, hji, hpaired⟩ := exists_paired hq hmem hne
    exact ⟨j, hj, hji, (hg p hmem j hj hji).2 hpaired⟩
  · intro p hp j hj k hk hjp hkp htrue htrue'
    have hpaired := (hg p hp j hj hjp).1 htrue
    have hpaired' := (hg p hp k hk hkp).1 htrue'
    exact eq_of_paired hq hp hj hk hjp hkp hpaired hpaired'

end Falsifier.Hard.Parity
