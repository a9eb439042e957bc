import Falsifier.Proofs.Hard.Ordering
import Falsifier.Proofs.Hard.Parity
import Falsifier.Proofs.Hard.Pigeonhole

/-!
# Formulas with one demand less

Each hard family demands that something exists for every pigeon, node or element, and forbids that
too much does. The demands of a member are only just too many: without any single one of them its
formula can be satisfied (`HardFamily.satisfiable_without_demand`). The demands are clauses at known
positions (`HardFamily.getElem?_of_demands`).
-/

namespace Falsifier.HardFamily

/-- Whether the clause at a position demands that something exists: a hole for a pigeon, an edge at
a node or an element before another. These clauses come first among the pigeons and the nodes, and
last among the elements. -/
def Demands (c : Cnf) : HardFamily → Nat → Prop
  | pigeonhole holes k, i => i < holes * k + 1
  | parity size, i => i < 2 * size + 1
  | ordering size, i => c.clauses.length ≤ i + size ∧ i < c.clauses.length

/-- The clause at a position that demands something: the pigeon with the next number is placed, the
node is matched, or some element precedes the one whose place among the last clauses this is. -/
def demandAt (c : Cnf) : HardFamily → Nat → Clause
  | pigeonhole holes _, i => Hard.Pigeonhole.placed holes (i + 1)
  | parity size, i => Hard.Parity.matched (Hard.Parity.nodes size) (i + 1)
  | ordering size, i => Hard.Ordering.preceded size (i + size - c.clauses.length + 1)

theorem getElem?_of_demands {f : HardFamily} {i : Nat} (hi : f.Demands f.formula i) :
    f.formula.clauses[i]? = some (f.demandAt f.formula i) := by
  cases f with
  | pigeonhole holes k => exact Hard.getElem?_map_append hi _ _
  | parity size => exact Hard.getElem?_map_append hi _ _
  | ordering size =>
    obtain ⟨hlow, hhigh⟩ := hi
    let before := Hard.Ordering.antisymmetric size ++ Hard.Ordering.transitive size
    have hlength : (ordering size).formula.clauses.length = before.length + size := by
      rw [formula, Hard.Ordering.formula, List.length_append, List.length_map, Hard.length_numbers]
    have hfirst : before.length ≤ i := by omega
    have hlast : i < before.length + size := by omega
    have hplace : i + size - (ordering size).formula.clauses.length = i - before.length := by omega
    rw [demandAt, hplace]
    exact Hard.getElem?_append_map hfirst hlast _

/-- **The families are not over-constrained.** When any one of the demands is taken out of a formula,
some assignment satisfies what is left. -/
theorem satisfiable_without_demand {f : HardFamily} (hfits : f.numVars < wordBound) :
    (∃ c, f.build = .ok c ∧
      ∀ i, f.Demands c i → c.clauses[i]? = some (f.demandAt c i) ∧
        ∃ a : Assignment, (c.without i).satisfiedBy a = .ok true) ∨
    f.Overlong := by
  refine (build_of_fits hfits).imp_left fun hbuild => ⟨f.formula, hbuild, fun i hi => ?_⟩
  refine ⟨getElem?_of_demands hi, ?_⟩
  rw [← Cnf.satisfiable_iff_satisfiedBy]
  cases f with
  | pigeonhole holes k => exact Hard.Pigeonhole.satisfiable_without hi
  | parity size => exact Hard.Parity.satisfiable_without hi
  | ordering size => exact Hard.Ordering.satisfiable_without hi.1 hi.2

/-- The demand of the second of three pigeons, of the last of five nodes or of the second of three
elements is left out. -/
theorem satisfiable_without_one_of_each :
    (∃ c, (pigeonhole 2 1).build = .ok c ∧ c.clauses[1]? = some [.pos 3, .pos 4] ∧
      ∃ a : Assignment, (c.without 1).satisfiedBy a = .ok true) ∧
    (∃ c, (parity 2).build = .ok c ∧
      c.clauses[4]? = some [.pos 4, .pos 7, .pos 9, .pos 10] ∧
      ∃ a : Assignment, (c.without 4).satisfiedBy a = .ok true) ∧
    ∃ c, (ordering 3).build = .ok c ∧ c.clauses[10]? = some [.pos 1, .pos 6] ∧
      ∃ a : Assignment, (c.without 10).satisfiedBy a = .ok true := by
  have hpigeons : (pigeonhole 2 1).numVars < wordBound := by decide
  have hnodes : (parity 2).numVars < wordBound := by decide
  have helements : (ordering 3).numVars < wordBound := by decide
  refine ⟨?_, ?_, ?_⟩
  · rcases satisfiable_without_demand hpigeons with ⟨c, hbuild, hsat⟩ | ⟨-, holes, hone, -⟩
    · exact ⟨c, hbuild, hsat 1 (by decide : 1 < 2 * 1 + 1)⟩
    · cases hone
  · rcases satisfiable_without_demand hnodes with ⟨c, hbuild, hsat⟩ | ⟨-, holes, hone, -⟩
    · exact ⟨c, hbuild, hsat 4 (by decide : 4 < 2 * 2 + 1)⟩
    · cases hone
  · rcases satisfiable_without_demand helements with ⟨c, hbuild, hsat⟩ | ⟨-, holes, hone, -⟩
    · have hbuilt : (ordering 3).build = .ok (Hard.Ordering.formula 3) := rfl
      cases hbuilt.symm.trans hbuild
      exact ⟨_, hbuild, hsat 10 ⟨by decide, by decide⟩⟩
    · cases hone

end Falsifier.HardFamily
