import Falsifier.Proofs.Hard.Cells
import Falsifier.Proofs.Hard.Sizes

/-!
# Variables and clauses of hard families

As long as the last variable of a member has a word number, a machine finds the number of every
variable, by arithmetic or in a table (`HardFamily.exists_numbering`). The variables are numbered
from 1 without gaps or collisions, all of them occur in the clauses, nothing else does, and the
clauses are counted by binomial coefficients (`HardFamily.shape_of_fits`).
-/

namespace Falsifier.HardFamily

open Hard

/-! ### Cells of a member -/

/-- The clauses of a member, with a cell for each variable. -/
def outline : HardFamily → List (List Indexed)
  | pigeonhole holes k => Pigeonhole.outline holes k
  | parity size => Parity.outline size
  | ordering size => Ordering.outline size

/-- The variable of a cell. -/
def varOf : HardFamily → Nat × Nat → Var
  | pigeonhole holes _, c => Pigeonhole.sits holes c.1 c.2
  | parity size, c => Parity.edge (Parity.nodes size) c.1 c.2
  | ordering size, c => Ordering.precedes size c.1 c.2

/-- The cell has a variable: it is a pigeon and a hole, or two different nodes or elements. -/
def IsCell : HardFamily → Nat × Nat → Prop
  | pigeonhole holes k, c => (1 ≤ c.1 ∧ c.1 ≤ holes * k + 1) ∧ 1 ≤ c.2 ∧ c.2 ≤ holes
  | parity size, c =>
    (1 ≤ c.1 ∧ c.1 ≤ 2 * size + 1) ∧ (1 ≤ c.2 ∧ c.2 ≤ 2 * size + 1) ∧ c.2 ≠ c.1
  | ordering size, c => (1 ≤ c.1 ∧ c.1 ≤ size) ∧ (1 ≤ c.2 ∧ c.2 ≤ size) ∧ c.2 ≠ c.1

/-- The cell is the one that stands for its variable. Of the two cells of an edge, this is the one
with the smaller node first. -/
def IsIndex : HardFamily → Nat × Nat → Prop
  | f@(parity _), c => f.IsCell c ∧ c.1 < c.2
  | f, c => f.IsCell c

theorem clauses_outline (f : HardFamily) :
    Indexed.clauses f.varOf f.outline = f.formula.clauses := by
  cases f with
  | pigeonhole holes k => exact Pigeonhole.clauses_outline holes k
  | parity size => exact Parity.clauses_outline size
  | ordering size => exact Ordering.clauses_outline size

/-- The clauses name every cell that has a variable, and no other. -/
theorem mem_outline {f : HardFamily} {c : Nat × Nat} :
    (∃ xs ∈ f.outline, ∃ x ∈ xs, x.cell = c) ↔ f.IsCell c := by
  cases f with
  | pigeonhole holes k =>
    rw [outline, Pigeonhole.mem_outline, Pigeonhole.mem_seats, mem_numbers, mem_numbers]
    rfl
  | parity size =>
    rw [outline, Parity.mem_outline, mem_orderedPairs, mem_numbers, mem_numbers]
    rfl
  | ordering size =>
    rw [outline, Ordering.mem_outline, mem_orderedPairs, mem_numbers, mem_numbers]
    rfl

/-! ### Variables of a member -/

/-- The cells that stand for the variables, in the order of the numbers. -/
def indices : HardFamily → List (Nat × Nat)
  | pigeonhole holes k => Pigeonhole.seats (holes * k + 1) holes
  | parity size => pairs (Parity.nodes size)
  | ordering size => orderedPairs size

theorem mem_indices {f : HardFamily} {c : Nat × Nat} : c ∈ f.indices ↔ f.IsIndex c := by
  cases f with
  | pigeonhole holes k =>
    rw [indices, Pigeonhole.mem_seats, mem_numbers, mem_numbers]
    rfl
  | parity size =>
    rw [indices, mem_pairs]
    simp only [IsIndex, IsCell, Parity.nodes]
    omega
  | ordering size =>
    rw [indices, mem_orderedPairs, mem_numbers, mem_numbers]
    rfl

theorem map_varOf (f : HardFamily) : f.indices.map f.varOf = numbers f.numVars := by
  cases f with
  | pigeonhole holes k => exact Pigeonhole.map_sits (holes * k + 1) holes
  | parity size => exact (Parity.map_edge _).trans (congrArg numbers (Parity.edgesUpTo_nodes size))
  | ordering size => exact Ordering.map_precedes size

theorem bijOn_varOf (f : HardFamily) :
    Set.BijOn f.varOf {c | f.IsIndex c} (Set.Icc 1 f.numVars) := by
  have h := bijOn_of_map_eq f.map_varOf
  simpa only [mem_indices] using h

/-- Every variable is the one of a cell that stands for it. -/
theorem exists_index {f : HardFamily} {c : Nat × Nat} (hc : f.IsCell c) :
    ∃ c', f.IsIndex c' ∧ f.varOf c' = f.varOf c := by
  cases f with
  | pigeonhole holes k => exact ⟨c, hc, rfl⟩
  | parity size =>
    obtain ⟨hi, hj, hne⟩ := hc
    rcases Nat.lt_or_gt_of_ne hne with hlt | hlt
    · exact ⟨c.swap, ⟨⟨hj, hi, hne.symm⟩, hlt⟩, Parity.edge_comm ..⟩
    · exact ⟨c, ⟨⟨hi, hj, hne⟩, hlt⟩, rfl⟩
  | ordering size => exact ⟨c, hc, rfl⟩

theorem IsIndex.isCell {f : HardFamily} {c : Nat × Nat} (hc : f.IsIndex c) : f.IsCell c := by
  cases f with
  | pigeonhole holes k => exact hc
  | parity size => exact hc.1
  | ordering size => exact hc

theorem mem_vars_formula {f : HardFamily} {v : Var} :
    v ∈ Clause.vars f.formula.clauses ↔ 1 ≤ v ∧ v ≤ f.numVars := by
  have hbij := f.bijOn_varOf
  rw [← clauses_outline, Indexed.mem_vars_clauses]
  constructor
  · rintro ⟨xs, hxs, x, hx, rfl⟩
    obtain ⟨c, hc, heq⟩ := exists_index (mem_outline.1 ⟨xs, hxs, x, hx, rfl⟩)
    exact heq ▸ hbij.mapsTo hc
  · intro hv
    obtain ⟨c, hc, rfl⟩ := hbij.surjOn hv
    obtain ⟨xs, hxs, x, hx, heq⟩ := mem_outline.2 (IsIndex.isCell hc)
    exact ⟨xs, hxs, x, hx, congrArg f.varOf heq⟩

/-! ### Numbers that are looked up -/

/-- How a machine finds the number of the variable at a cell. -/
def numbering : HardFamily → Except Fault (Nat × Nat → Except Fault Var)
  | pigeonhole holes _ => return Pigeonhole.checkedSits holes
  | parity size => return (← Parity.table size).read
  | ordering size => return (← Ordering.table size).read

/-- The number of every variable is found, and the table of the edges is symmetric. -/
theorem exists_numbering {f : HardFamily} (hfits : f.numVars < wordBound) :
    ∃ look, f.numbering = .ok look ∧ (∀ c, f.IsCell c → look c = .ok (f.varOf c)) ∧
      ∀ size, f = parity size → ∀ i j, i ≤ 2 * size + 1 → j ≤ 2 * size + 1 →
        look (i, j) = look (j, i) := by
  cases f with
  | pigeonhole holes k =>
    refine ⟨_, rfl, fun c hc => ?_, fun _ h => nomatch h⟩
    refine Pigeonhole.checkedSits_eq (n := holes * k + 1) hfits ?_
    rw [Pigeonhole.mem_seats, mem_numbers, mem_numbers]
    exact hc
  | parity size =>
    obtain ⟨t, ht, hread, hsymm⟩ := Parity.exists_table hfits
    refine ⟨t.read, by rw [numbering, ht]; rfl, fun c hc => hread c ?_, ?_⟩
    · rw [mem_orderedPairs, mem_numbers, mem_numbers]
      exact hc
    · intro size hsize
      cases hsize
      exact hsymm
  | ordering size =>
    obtain ⟨t, ht, hread⟩ := Ordering.exists_table hfits
    refine ⟨t.read, by rw [numbering, ht]; rfl, fun c hc => hread c ?_, fun _ h => nomatch h⟩
    rw [mem_orderedPairs, mem_numbers, mem_numbers]
    exact hc

/-- **The variables of the hard families are numbered without gaps or collisions.** A machine finds
the numbers, all of them occur in the clauses, and no other number does. -/
theorem shape_of_fits {f : HardFamily} (hfits : f.numVars < wordBound) :
    (f.build = .ok f.formula ∨ f.Overlong) ∧
    (∃ look, f.numbering = .ok look ∧ (∀ c, f.IsCell c → look c = .ok (f.varOf c)) ∧
      (∀ size, f = parity size → ∀ i j, i ≤ 2 * size + 1 → j ≤ 2 * size + 1 →
        look (i, j) = look (j, i)) ∧
      Indexed.lookUp look f.outline = .ok f.formula.clauses) ∧
    Set.BijOn f.varOf {c | f.IsIndex c} (Set.Icc 1 f.numVars) ∧
    (∀ v, v ∈ Clause.vars f.formula.clauses ↔ 1 ≤ v ∧ v ≤ f.numVars) ∧
    f.formula.clauses.length = f.numClauses := by
  refine ⟨build_of_fits hfits, ?_, f.bijOn_varOf, fun v => mem_vars_formula, f.length_clauses⟩
  obtain ⟨look, hnumbering, hlook, hsymm⟩ := exists_numbering hfits
  refine ⟨look, hnumbering, hlook, hsymm, ?_⟩
  rw [← clauses_outline]
  exact Indexed.lookUp_eq fun xs hxs x hx => hlook _ (mem_outline.1 ⟨xs, hxs, x, hx, rfl⟩)

/-- Three pigeons have 6 variables and 9 clauses, five nodes 10 and 35, three elements 6 and 12. The
table of the nodes has the last edge in both orders. -/
theorem shape_of_one_of_each :
    (∀ v, v ∈ Clause.vars (pigeonhole 2 1).formula.clauses ↔ 1 ≤ v ∧ v ≤ 6) ∧
    (pigeonhole 2 1).formula.clauses.length = 9 ∧
    (∃ look, (parity 2).numbering = .ok look ∧ look (4, 5) = .ok 10 ∧ look (5, 4) = .ok 10) ∧
    (parity 2).formula.clauses.length = 35 ∧
    Set.BijOn (ordering 3).varOf {c | (ordering 3).IsIndex c} (Set.Icc 1 6) ∧
    (ordering 3).formula.clauses.length = 12 := by
  have hpigeons : (pigeonhole 2 1).numVars < wordBound := by decide
  have hnodes : (parity 2).numVars < wordBound := by decide
  have helements : (ordering 3).numVars < wordBound := by decide
  obtain ⟨-, -, -, hvars, hclauses⟩ := shape_of_fits hpigeons
  obtain ⟨-, ⟨look, hnumbering, hlook, hsymm, -⟩, -, -, hclauses'⟩ := shape_of_fits hnodes
  obtain ⟨-, -, hbij, -, hclauses''⟩ := shape_of_fits helements
  have hlast : look (4, 5) = .ok 10 := hlook (4, 5) (by simp [IsCell])
  refine ⟨hvars, hclauses, ⟨look, hnumbering, hlast, ?_⟩, hclauses', hbij, hclauses''⟩
  exact (hsymm 2 rfl 5 4 (by decide) (by decide)).trans hlast

end Falsifier.HardFamily
