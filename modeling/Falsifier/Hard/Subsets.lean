/-!
# Subsets and pairs

The numbers 1 to `n`, their subsets of a given size and their pairs, as increasing lists in
lexicographic order. They index the clauses of the hard families.
-/

namespace Falsifier.Hard

/-- The numbers from 1 to `n`. -/
def numbers (n : Nat) : List Nat :=
  List.range' 1 n

/-- The ways to keep `r` entries of a list in their order, those that keep earlier entries first. -/
def keeping : Nat → List Nat → List (List Nat)
  | 0, _ => [[]]
  | _ + 1, [] => []
  | r + 1, x :: xs => (keeping r xs).map (x :: ·) ++ keeping (r + 1) xs

/-- The subsets of size `r` of the numbers from 1 to `n`. -/
def combinations (n r : Nat) : List (List Nat) :=
  keeping r (numbers n)

/-- The pairs of numbers from 1 to `n` of which the first is smaller. -/
def pairs (n : Nat) : List (Nat × Nat) :=
  (numbers n).flatMap fun i => (List.range' (i + 1) (n - i)).map fun j => (i, j)

theorem mem_numbers {n i : Nat} : i ∈ numbers n ↔ 1 ≤ i ∧ i ≤ n := by
  simp [numbers, List.mem_range'_1]
  omega

theorem mem_pairs {n i j : Nat} : (i, j) ∈ pairs n ↔ 1 ≤ i ∧ i < j ∧ j ≤ n := by
  simp only [pairs, List.mem_flatMap, mem_numbers, List.mem_map, List.mem_range'_1,
    Prod.mk.injEq]
  constructor
  · rintro ⟨a, ha, b, hb, rfl, rfl⟩
    omega
  · intro h
    exact ⟨i, by omega, j, by omega, rfl, rfl⟩

end Falsifier.Hard
