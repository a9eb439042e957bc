import Mathlib.Tactic.Choose
import Falsifier.Proofs.Hard.Numbering
import Falsifier.Proofs.Hard.Sizes
import Falsifier.Proofs.Hard.Subsets
import Falsifier.Proofs.Satisfaction

/-!
# Pigeonhole formulas

A valuation that satisfies the formula seats every pigeon in a hole. There are more pigeons than
room, so some hole holds a crowd, which a clause forbids (`pigeonhole_unsatisfiable`). As soon as
one pigeon need not be placed, the others fill the holes one after the other
(`satisfiable_without`).
-/

namespace Falsifier.Hard.Pigeonhole

variable {holes k : Nat} {g : Valuation}

/-! ### What the clauses say -/

/-- The clauses that keep every hole from holding a crowd. -/
def uncrowdedAll (holes k : Nat) : List Clause :=
  (numbers holes).flatMap fun hole =>
    (combinations (pigeons holes k) (k + 1)).map (uncrowded holes hole)

theorem holds_placed {pigeon : Nat} :
    Clause.Holds g (placed holes pigeon) ↔
      ∃ hole ∈ numbers holes, g (sits holes pigeon hole) = true :=
  Clause.holds_map_pos

theorem holds_uncrowded {hole : Nat} {crowd : List Nat} :
    Clause.Holds g (uncrowded holes hole crowd) ↔
      ∃ pigeon ∈ crowd, g (sits holes pigeon hole) = false :=
  Clause.holds_map_neg

/-- The formula, where only some of the pigeons have to be placed. -/
theorem forall_holds_iff {demanded : List Nat} :
    (∀ d ∈ demanded.map (placed holes) ++ uncrowdedAll holes k, Clause.Holds g d) ↔
      (∀ pigeon ∈ demanded, ∃ hole ∈ numbers holes, g (sits holes pigeon hole) = true) ∧
      ∀ hole ∈ numbers holes, ∀ crowd ∈ combinations (pigeons holes k) (k + 1),
        ∃ pigeon ∈ crowd, g (sits holes pigeon hole) = false := by
  simp only [uncrowdedAll, List.forall_mem_append, List.forall_mem_map, List.forall_mem_flatMap,
    holds_placed, holds_uncrowded]

/-! ### Too many pigeons -/

theorem not_satisfiable (holes k : Nat) : ¬ (formula holes k).Satisfiable := by
  rintro ⟨g, hg⟩
  obtain ⟨hplaced, huncrowded⟩ := forall_holds_iff.1 hg
  choose! place hplace hsits using hplaced
  obtain ⟨hole, hhole, crowd, hcrowd, hsame⟩ := exists_crowd hplace (Nat.lt_succ_self _)
  obtain ⟨pigeon, hmem, hfalse⟩ := huncrowded hole hhole crowd hcrowd
  have hpigeon : pigeon ∈ numbers (pigeons holes k) := (mem_combinations.1 hcrowd).1.subset hmem
  have htrue := hsits pigeon hpigeon
  rw [hsame pigeon hmem, hfalse] at htrue
  cases htrue

/-- **Pigeonhole formulas are unsatisfiable.** When the variables are words, the formula is built,
unless its first clause has no room in a memory. No assignment satisfies the formula, and its
negation is a tautology. -/
theorem pigeonhole_unsatisfiable {holes k : Nat} (hfits : (holes * k + 1) * holes < wordBound) :
    (∃ c, (HardFamily.pigeonhole holes k).build = .ok c ∧
      (∀ a : Assignment, c.satisfiedBy a ≠ .ok true) ∧ c.negate.Tautology) ∨
    (HardFamily.pigeonhole holes k).Overlong := by
  have hbuilt := HardFamily.build_of_fits (f := .pigeonhole holes k) hfits
  refine hbuilt.imp_left fun hbuild => ?_
  have hunsat := not_satisfiable holes k
  exact ⟨_, hbuild, Cnf.not_satisfiable_iff.1 hunsat, Cnf.tautology_negate_iff.2 hunsat⟩

/-- Seven pigeons do not fit into two holes with room for three each. -/
theorem seven_pigeons_unsatisfiable :
    ∃ c, (HardFamily.pigeonhole 2 3).build = .ok c ∧
      (∀ a : Assignment, c.satisfiedBy a ≠ .ok true) ∧ c.negate.Tautology := by
  have hfits : (2 * 3 + 1) * 2 < wordBound := by decide
  rcases pigeonhole_unsatisfiable hfits with hbuilt | ⟨-, holes, hone, -⟩
  · exact hbuilt
  · cases hone

/-! ### One pigeon less -/

/-- The pigeons other than `q` fill one hole after the other, so no crowd of them has its places in
the same hole. -/
theorem exists_not_in_hole {q : Nat} (hq : q ∈ numbers (pigeons holes k)) {crowd : List Nat}
    (hcrowd : crowd ∈ combinations (pigeons holes k) (k + 1)) (hole : Nat) :
    ∃ pigeon ∈ crowd, ¬ (pigeon ≠ q ∧ rank q pigeon / k + 1 = hole) := by
  by_contra hall
  push Not at hall
  obtain ⟨hsub, hlength⟩ := mem_combinations.1 hcrowd
  have hmem : ∀ pigeon ∈ crowd, pigeon ∈ numbers (pigeons holes k) := fun p hp => hsub.subset hp
  have hnodup : (crowd.map (rank q)).Nodup := by
    refine List.Nodup.map_on ?_ (hsub.nodup (nodup_numbers _))
    intro p hp p' hp' heq
    exact rank_inj hq (hmem p hp) (hall p hp).1 (hmem p' hp') (hall p' hp').1 heq
  have hranks : crowd.map (rank q) ⊆ List.range' ((hole - 1) * k) k := by
    intro r hr
    obtain ⟨p, hp, rfl⟩ := List.mem_map.1 hr
    obtain ⟨hne, rfl⟩ := hall p hp
    have hk : 0 < k := by
      have hlt : rank q p + 1 < holes * k + 1 := rank_lt hq (hmem p hp) hne
      refine Nat.pos_of_ne_zero ?_
      rintro rfl
      omega
    rw [List.mem_range'_1, Nat.add_sub_cancel]
    exact ⟨Nat.div_mul_le_self _ _, Nat.lt_div_mul_add hk⟩
  -- A crowd has one pigeon more than there are such ranks.
  have hle := (List.subperm_of_subset hnodup hranks).length_le
  rw [List.length_map, List.length_range', hlength] at hle
  omega

/-- All pigeons but one can be placed. -/
theorem satisfiable_without {i : Nat} (hi : i < pigeons holes k) :
    ((formula holes k).without i).Satisfiable := by
  have hq : i + 1 ∈ numbers (pigeons holes k) := mem_numbers.2 (by omega)
  obtain ⟨g, hg⟩ := exists_valuation (injOn_sits holes (pigeons holes k))
    fun seat => seat.1 ≠ i + 1 ∧ rank (i + 1) seat.1 / k + 1 = seat.2
  have hclauses : ((formula holes k).without i).clauses =
      ((numbers (pigeons holes k)).eraseIdx i).map (placed holes) ++ uncrowdedAll holes k :=
    eraseIdx_map_append hi _ _
  rw [Cnf.satisfiable_iff_holds, hclauses]
  refine ⟨g, forall_holds_iff.2 ⟨?_, ?_⟩⟩
  · intro pigeon hpigeon
    obtain ⟨hmem, hne⟩ := mem_eraseIdx_numbers.1 hpigeon
    have hlt : rank (i + 1) pigeon + 1 < holes * k + 1 := rank_lt hq hmem hne
    have hhole : rank (i + 1) pigeon / k + 1 ∈ numbers holes := by
      have hdiv : rank (i + 1) pigeon / k < holes :=
        Nat.div_lt_of_lt_mul (by rw [Nat.mul_comm]; omega)
      exact mem_numbers.2 ⟨Nat.le_add_left 1 _, hdiv⟩
    exact ⟨_, hhole, (hg (pigeon, _) ⟨hmem, hhole⟩).2 ⟨hne, rfl⟩⟩
  · intro hole hhole crowd hcrowd
    obtain ⟨pigeon, hmem, hnot⟩ := exists_not_in_hole hq hcrowd hole
    have hpigeon : pigeon ∈ numbers (pigeons holes k) := (mem_combinations.1 hcrowd).1.subset hmem
    refine ⟨pigeon, hmem, Bool.eq_false_iff.2 fun htrue => hnot ?_⟩
    exact (hg (pigeon, hole) ⟨hpigeon, hhole⟩).1 htrue

end Falsifier.Hard.Pigeonhole
