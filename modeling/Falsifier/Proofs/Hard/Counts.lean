import Falsifier.Proofs.Hard.Combinations
import Falsifier.Proofs.Hard.Numbering

/-!
# Counting clauses

The pairs of numbers are the combinations of size 2 (`map_pairs`). To leave a number out of all
combinations is to combine the other numbers (`filter_keeping`), and three different numbers are chosen
one after the other (`triples_eq`). So the clauses of the hard families can be counted
(`HardFamily.length_clauses`).
-/

namespace Falsifier
namespace Hard

theorem length_flatMap_of_forall {α β : Type} {xs : List α} {f : α → List β} {m : Nat}
    (h : ∀ x ∈ xs, (f x).length = m) : (xs.flatMap f).length = xs.length * m := by
  rw [List.length_flatMap, List.map_congr_left h, List.map_const', List.sum_replicate, smul_eq_mul]

/-! ### Pairs -/

theorem keeping_one (xs : List Nat) : keeping 1 xs = xs.map fun x => [x] := by
  induction xs with
  | nil => rfl
  | cons x xs ih => rw [keeping, ih, List.map_cons, keeping]; rfl

/-- The pairs that start with one number come before those that start with a later one. -/
theorem flatMap_later (start k : Nat) :
    ((List.range' start k).flatMap fun i =>
      (List.range' (i + 1) (start + k - (i + 1))).map fun j => [i, j]) =
      keeping 2 (List.range' start k) := by
  induction k generalizing start with
  | zero => rfl
  | succ k ih =>
    have hfirst : start + (k + 1) - (start + 1) = k := by omega
    have hlater : start + (k + 1) = start + 1 + k := by omega
    rw [List.range'_succ, List.flatMap_cons, keeping, keeping_one, List.map_map, hfirst, hlater, ih]
    rfl

theorem map_pairs (n : Nat) : (pairs n).map (fun e => [e.1, e.2]) = combinations n 2 := by
  have hlast (i : Nat) : n - i = 1 + n - (i + 1) := by omega
  simp only [combinations, numbers, ← flatMap_later, pairs, List.map_flatMap, List.map_map,
    Function.comp_def, hlast]

theorem length_pairs (n : Nat) : (pairs n).length = n.choose 2 := by
  rw [← length_combinations, ← map_pairs, List.length_map]

theorem filter_keeping (p : Nat → Bool) (r : Nat) (xs : List Nat) :
    (keeping r xs).filter (·.all p) = keeping r (xs.filter p) := by
  induction xs generalizing r with
  | nil => cases r <;> rfl
  | cons x xs ih =>
    cases r with
    | zero => cases h : p x <;> simp [keeping]
    | succ r =>
      rw [keeping, List.filter_append, List.filter_map, ih]
      cases hx : p x with
      | true => simp [Function.comp_def, hx, keeping, ih]
      | false => simp [Function.comp_def, hx]

/-! ### Different numbers -/

theorem nodup_others (n i : Nat) : (others n i).Nodup :=
  (nodup_numbers n).filter _

theorem length_filter_ne {xs : List Nat} (hxs : xs.Nodup) {x : Nat} (hx : x ∈ xs) :
    (xs.filter (· ≠ x)).length = xs.length - 1 := by
  have herase : xs.erase x = xs.filter (· ≠ x) := by
    rw [hxs.erase_eq_filter]
    exact List.filter_congr fun y _ => Bool.eq_iff_iff.2 (by simp)
  rw [← herase, List.length_erase_of_mem hx]

theorem length_others {n i : Nat} (hi : i ∈ numbers n) : (others n i).length = n - 1 := by
  rw [others, length_filter_ne (nodup_numbers n) hi, length_numbers]

/-- Entries without a block can be left out. -/
theorem flatMap_filter_of_nil {α β : Type} {xs : List α} {p : α → Bool} {f : α → List β}
    (h : ∀ x ∈ xs, p x = false → f x = []) : (xs.filter p).flatMap f = xs.flatMap f := by
  induction xs with
  | nil => rfl
  | cons x xs ih =>
    rw [List.forall_mem_cons] at h
    cases hx : p x with
    | true => simp [hx, ih h.2]
    | false => simp [hx, ih h.2, h.1 hx]

/-- The second number is one of the others, and the third is neither of the two. -/
theorem triples_eq (n : Nat) :
    Ordering.triples n = (numbers n).flatMap fun i => (others n i).flatMap fun j =>
      ((others n i).filter (· ≠ j)).map fun k => (i, j, k) := by
  refine List.flatMap_congr fun i _ => ?_
  have hthird {j : Nat} (hne : j ≠ i) :
      ((others n i).filter (· ≠ j)).map (fun k => (i, j, k)) =
        (numbers n).filterMap fun k =>
          if i ≠ j ∧ j ≠ k ∧ i ≠ k then some (i, j, k) else none := by
    have hdifferent (k : Nat) : (decide (k ≠ j) && decide (k ≠ i)) = true ↔
        i ≠ j ∧ j ≠ k ∧ i ≠ k := by
      rw [Bool.and_eq_true, decide_eq_true_iff, decide_eq_true_iff]
      omega
    rw [others, List.filter_filter, ← List.filterMap_eq_map, List.filterMap_filter]
    simp only [hdifferent, Function.comp_apply]
  rw [← flatMap_filter_of_nil (p := (· ≠ i)), ← others]
  · exact List.flatMap_congr fun j hj => (hthird (mem_others.1 hj).2).symm
  · intro j _ hj
    simp_all

theorem length_triples (n : Nat) : (Ordering.triples n).length = n * ((n - 1) * (n - 2)) := by
  have hthird {i j : Nat} (hi : i ∈ numbers n) (hj : j ∈ others n i) :
      (((others n i).filter (· ≠ j)).map fun k => (i, j, k)).length = n - 2 := by
    rw [List.length_map, length_filter_ne (nodup_others n i) hj, length_others hi, Nat.sub_sub]
  rw [triples_eq, length_flatMap_of_forall, length_numbers]
  intro i hi
  rw [length_flatMap_of_forall fun j => hthird hi, length_others hi]

/-! ### Clauses -/

namespace Parity

/-- The pairs of edges at a node are the combinations of two other nodes. -/
theorem length_unshared {n i : Nat} (hi : i ∈ numbers n) :
    (unshared n i).length = (n - 1).choose 2 := by
  have hrows : (keeping 2 (others n i)).length =
      ((pairs n).filter fun e => [e.1, e.2].all (· ≠ i)).length := by
    rw [others, ← filter_keeping, ← combinations, ← map_pairs, List.filter_map, List.length_map]
    rfl
  rw [← length_others hi, ← length_keeping, hrows, unshared, List.length_map]
  simp

/-- How many edges there are in all. -/
theorem edgesUpTo_nodes (size : Nat) :
    edgesUpTo (nodes size) (nodes size) = size * (2 * size + 1) := by
  have hpairs : edgesUpTo (nodes size) (nodes size) = (nodes size).choose 2 := by
    rw [← length_pairs, ← List.length_map (f := fun e => edge (nodes size) e.1 e.2), map_edge,
      length_numbers]
  rw [hpairs, Nat.choose_two_right, nodes, Nat.add_sub_cancel, Nat.mul_left_comm,
    Nat.mul_div_cancel_left _ Nat.two_pos, Nat.mul_comm]

end Parity
end Hard

namespace HardFamily

/-- How many clauses a member has: one for each pigeon and each crowd in a hole, one for each node and
each two edges at it, or one for each pair, each three different elements and each element. -/
def numClauses : HardFamily → Nat
  | pigeonhole holes k => (holes * k + 1) + holes * (holes * k + 1).choose (k + 1)
  | parity size => (2 * size + 1) + (2 * size + 1) * (2 * size).choose 2
  | ordering size => size.choose 2 + size * (size - 1) * (size - 2) + size

theorem length_clauses (f : HardFamily) : f.formula.clauses.length = f.numClauses := by
  cases f with
  | pigeonhole holes k =>
    have hcrowds : ((Hard.numbers holes).flatMap fun hole =>
        (Hard.combinations (holes * k + 1) (k + 1)).map
          (Hard.Pigeonhole.uncrowded holes hole)).length =
        holes * (holes * k + 1).choose (k + 1) := by
      rw [Hard.length_flatMap_of_forall fun hole _ => ?_, Hard.length_numbers]
      rw [List.length_map, Hard.length_combinations]
    simp [formula, Hard.Pigeonhole.formula, Hard.Pigeonhole.pigeons, numClauses, hcrowds]
  | parity size =>
    have hshared : ((Hard.numbers (2 * size + 1)).flatMap
        (Hard.Parity.unshared (2 * size + 1))).length =
        (2 * size + 1) * (2 * size).choose 2 := by
      rw [Hard.length_flatMap_of_forall fun i hi => Hard.Parity.length_unshared hi,
        Hard.length_numbers, Nat.add_sub_cancel]
    simp [formula, Hard.Parity.formula, Hard.Parity.nodes, numClauses, hshared]
  | ordering size =>
    simp [formula, Hard.Ordering.formula, Hard.Ordering.antisymmetric, Hard.Ordering.transitive,
      numClauses, Hard.length_pairs, Hard.length_triples, Nat.mul_assoc, Nat.add_assoc]

end HardFamily
end Falsifier
