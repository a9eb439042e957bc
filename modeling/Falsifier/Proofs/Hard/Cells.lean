import Falsifier.Proofs.Hard.Counts
import Falsifier.Proofs.Hard.Ordering
import Falsifier.Proofs.Hard.Tables

/-!
# Numbers from tables

The clauses of a hard family name a variable by its two indices, its cell (`HardFamily.outline`). A
machine computes the number of a pigeon and a hole, and reads the number of two nodes or of two
elements from a table that a counter has filled (`HardFamily.numbering`). At every cell that a clause
names this is the number of the variable (`HardFamily.exists_numbering`).
-/

namespace Falsifier
namespace Hard

/-! ### Clauses of cells -/

/-- A literal that names its variable by a cell. -/
inductive Indexed where
  | pos (cell : Nat × Nat)
  | neg (cell : Nat × Nat)

namespace Indexed

def cell : Indexed → Nat × Nat
  | pos c => c
  | neg c => c

/-- The literal, when its variable has this number. -/
def literal (v : Var) : Indexed → Literal
  | pos _ => .pos v
  | neg _ => .neg v

@[simp] theorem var_literal (v : Var) (x : Indexed) : (x.literal v).var = v := by
  cases x <;> rfl

/-- The clauses, when the cells have these numbers. -/
def clauses (number : Nat × Nat → Var) (o : List (List Indexed)) : List Clause :=
  o.map (·.map fun x => x.literal (number x.cell))

/-- The clauses, when the numbers are looked up one after the other. -/
def lookUp (look : Nat × Nat → Except Fault Var) (o : List (List Indexed)) :
    Except Fault (List Clause) :=
  o.mapM (·.mapM fun x => return x.literal (← look x.cell))

theorem lookUp_eq {look : Nat × Nat → Except Fault Var} {number : Nat × Nat → Var}
    {o : List (List Indexed)} (h : ∀ xs ∈ o, ∀ x ∈ xs, look x.cell = .ok (number x.cell)) :
    lookUp look o = .ok (clauses number o) := by
  refine mapM_eq_ok fun xs hxs => mapM_eq_ok fun x hx => ?_
  rw [h xs hxs x hx]
  rfl

theorem mem_vars_clauses {number : Nat × Nat → Var} {o : List (List Indexed)} {v : Var} :
    v ∈ Clause.vars (clauses number o) ↔ ∃ xs ∈ o, ∃ x ∈ xs, number x.cell = v := by
  simp [Clause.mem_vars, Clause.mem_mentioned, clauses]

end Indexed

namespace Pigeonhole

/-- The clauses of the formula, with a cell for a pigeon and a hole. -/
def outline (holes k : Nat) : List (List Indexed) :=
  ((numbers (pigeons holes k)).map fun pigeon =>
      (numbers holes).map fun hole => .pos (pigeon, hole)) ++
    (numbers holes).flatMap fun hole =>
      (combinations (pigeons holes k) (k + 1)).map fun crowd =>
        crowd.map fun pigeon => .neg (pigeon, hole)

theorem clauses_outline (holes k : Nat) :
    Indexed.clauses (fun c => sits holes c.1 c.2) (outline holes k) =
      (formula holes k).clauses := by
  simp only [Indexed.clauses, outline, List.map_append, List.map_flatMap, List.map_map,
    Function.comp_def, Indexed.literal, Indexed.cell]
  rfl

theorem mem_outline {holes k : Nat} {c : Nat × Nat} :
    (∃ xs ∈ outline holes k, ∃ x ∈ xs, x.cell = c) ↔ c ∈ seats (pigeons holes k) holes := by
  obtain ⟨pigeon, hole⟩ := c
  rw [mem_seats]
  constructor
  · rintro ⟨xs, hxs, x, hx, hcell⟩
    rw [outline, List.mem_append, List.mem_map, List.mem_flatMap] at hxs
    obtain ⟨pigeon', hpigeon, rfl⟩ | ⟨hole', hhole, hxs⟩ := hxs
    · obtain ⟨hole', hhole, rfl⟩ := List.mem_map.1 hx
      cases hcell
      exact ⟨hpigeon, hhole⟩
    · obtain ⟨crowd, hcrowd, rfl⟩ := List.mem_map.1 hxs
      obtain ⟨pigeon', hpigeon, rfl⟩ := List.mem_map.1 hx
      cases hcell
      exact ⟨(mem_combinations.1 hcrowd).1.subset hpigeon, hhole⟩
  · rintro ⟨hpigeon, hhole⟩
    exact ⟨_, List.mem_append_left _ (List.mem_map_of_mem hpigeon), _, List.mem_map_of_mem hhole,
      rfl⟩

/-- The number of a seat, with every step checked. -/
def checkedSits (holes : Nat) (c : Nat × Nat) : Except Fault Var := do
  checkedAdd (← checkedMul (← checkedSub c.1 1) holes) c.2

theorem checkedSits_eq {n holes : Nat} (hfits : n * holes < wordBound) {c : Nat × Nat}
    (hc : c ∈ seats n holes) : checkedSits holes c = .ok (sits holes c.1 c.2) := by
  have hlast : (c.1 - 1) * holes + c.2 ≤ n * holes :=
    ((bijOn_of_map_eq (map_sits n holes)).mapsTo hc).2
  have hpigeon : 1 ≤ c.1 := (mem_numbers.1 (mem_seats.1 hc).1).1
  have hmul : checkedMul (c.1 - 1) holes = .ok ((c.1 - 1) * holes) :=
    checkedMul_eq_ok_iff.2 ⟨by omega, rfl⟩
  have hadd : checkedAdd ((c.1 - 1) * holes) c.2 = .ok (sits holes c.1 c.2) :=
    checkedAdd_eq_ok_iff.2 ⟨by omega, rfl⟩
  simp only [checkedSits, checkedSub_eq_ok hpigeon, hmul, hadd, bind, Except.bind]

end Pigeonhole

namespace Parity

/-- The clauses of the formula, with a cell for two nodes. -/
def outline (size : Nat) : List (List Indexed) :=
  ((numbers (nodes size)).map fun i => (others (nodes size) i).map fun j => .pos (i, j)) ++
    (numbers (nodes size)).flatMap fun i =>
      ((pairs (nodes size)).filter fun (j, k) => j ≠ i && k ≠ i).map fun (j, k) =>
        [.neg (i, j), .neg (i, k)]

theorem clauses_outline (size : Nat) :
    Indexed.clauses (fun c => edge (nodes size) c.1 c.2) (outline size) =
      (formula size).clauses := by
  simp only [Indexed.clauses, outline, List.map_append, List.map_flatMap, List.map_map,
    Function.comp_def, Indexed.literal, Indexed.cell]
  rfl

theorem mem_outline {size : Nat} {c : Nat × Nat} :
    (∃ xs ∈ outline size, ∃ x ∈ xs, x.cell = c) ↔ c ∈ orderedPairs (nodes size) := by
  obtain ⟨i, j⟩ := c
  constructor
  · rintro ⟨xs, hxs, x, hx, hcell⟩
    rw [outline, List.mem_append, List.mem_map, List.mem_flatMap] at hxs
    obtain ⟨i', hi, rfl⟩ | ⟨i', hi, hxs⟩ := hxs
    · obtain ⟨j', hj, rfl⟩ := List.mem_map.1 hx
      cases hcell
      exact List.mem_flatMap.2 ⟨_, hi, List.mem_map_of_mem hj⟩
    · obtain ⟨⟨j', k⟩, hpair, rfl⟩ := List.mem_map.1 hxs
      simp only [List.mem_filter, mem_pairs, Bool.and_eq_true, decide_eq_true_eq] at hpair
      have hends : (i', j') ∈ orderedPairs (nodes size) ∧ (i', k) ∈ orderedPairs (nodes size) := by
        simp only [mem_orderedPairs, mem_numbers] at hi ⊢
        omega
      rcases List.mem_pair.1 hx with rfl | rfl
      · exact hcell ▸ hends.1
      · exact hcell ▸ hends.2
  · intro hc
    obtain ⟨i', hi, hc⟩ := List.mem_flatMap.1 hc
    obtain ⟨j', hj, hc⟩ := List.mem_map.1 hc
    exact ⟨_, List.mem_append_left _ (List.mem_map_of_mem hi), _, List.mem_map_of_mem hj, hc⟩

/-- The table of the edges. A number is written into both cells of an edge. -/
def table (size : Nat) : Except Fault (Table (nodes size + 1)) :=
  Table.fill _ ((pairs (nodes size)).map fun e => [e, e.swap])

theorem mem_cells_pairs {n : Nat} {c : Nat × Nat} :
    c ∈ (pairs n).flatMap (fun e => [e, e.swap]) ↔ c ∈ orderedPairs n := by
  obtain ⟨i, j⟩ := c
  rw [List.mem_flatMap, mem_orderedPairs, mem_numbers, mem_numbers]
  constructor
  · rintro ⟨⟨a, b⟩, hpair, hc⟩
    rw [mem_pairs] at hpair
    rcases List.mem_pair.1 hc with hc | hc <;> cases hc <;> omega
  · rintro ⟨hi, hj, hne⟩
    rcases Nat.lt_or_gt_of_ne hne with hlt | hlt
    · exact ⟨(j, i), mem_pairs.2 (by omega), by simp⟩
    · exact ⟨(i, j), mem_pairs.2 (by omega), by simp⟩

/-- The table has the numbers of the edges, and it is symmetric, also where there is no edge. -/
theorem exists_table {size : Nat} (hfits : size * (2 * size + 1) < wordBound) :
    ∃ t, table size = .ok t ∧
      (∀ c ∈ orderedPairs (nodes size), t.read c = .ok (edge (nodes size) c.1 c.2)) ∧
      ∀ i j, i ≤ nodes size → j ≤ nodes size → t.read (i, j) = t.read (j, i) := by
  have hnumbers := edgesUpTo_nodes size ▸ map_edge (nodes size)
  have hcells : ∀ e ∈ pairs (nodes size), ∀ c ∈ [e, e.swap],
      edge (nodes size) c.1 c.2 = edge (nodes size) e.1 e.2 ∧
        c.1 < nodes size + 1 ∧ c.2 < nodes size + 1 := by
    rintro ⟨i, j⟩ hpair c hc
    rw [mem_pairs] at hpair
    rcases List.mem_pair.1 hc with rfl | rfl
    · exact ⟨rfl, by omega⟩
    · exact ⟨edge_comm .., by rw [Prod.fst_swap, Prod.snd_swap]; omega⟩
  obtain ⟨t, ht, hshows⟩ := Table.exists_fill hnumbers hfits hcells
  simp only [mem_cells_pairs] at hshows
  refine ⟨t, ht, fun c hc => ?_, fun i j hi hj => ?_⟩
  · have hrange := mem_orderedPairs.1 hc
    rw [mem_numbers, mem_numbers] at hrange
    exact (hshows c.1 c.2 (by omega) (by omega)).trans (congrArg Except.ok (if_pos hc))
  · rw [hshows i j (by omega) (by omega), hshows j i (by omega) (by omega)]
    simp only [mem_orderedPairs_comm (i := i), edge_comm _ i]

end Parity

namespace Ordering

/-- The clauses of the formula, with a cell for two elements. -/
def outline (n : Nat) : List (List Indexed) :=
  ((pairs n).map fun (i, j) => [.neg (i, j), .neg (j, i)]) ++
    ((triples n).map fun (i, j, k) => [.neg (i, j), .neg (j, k), .pos (i, k)]) ++
    (numbers n).map fun j => (others n j).map fun i => .pos (i, j)

theorem clauses_outline (size : Nat) :
    Indexed.clauses (fun c => precedes size c.1 c.2) (outline size) = (formula size).clauses := by
  simp only [Indexed.clauses, outline, List.map_append, List.map_map, Function.comp_def]
  rfl

theorem mem_outline {n : Nat} {c : Nat × Nat} :
    (∃ xs ∈ outline n, ∃ x ∈ xs, x.cell = c) ↔ c ∈ orderedPairs n := by
  obtain ⟨i, j⟩ := c
  rw [mem_orderedPairs]
  constructor
  · rintro ⟨xs, hxs, x, hx, hcell⟩
    rw [outline, List.mem_append, List.mem_append, List.mem_map, List.mem_map, List.mem_map] at hxs
    obtain (⟨⟨a, b⟩, hpair, rfl⟩ | ⟨⟨a, b, d⟩, htriple, rfl⟩) | ⟨b, hb, rfl⟩ := hxs
    · rw [mem_pairs] at hpair
      rw [mem_numbers, mem_numbers]
      rcases List.mem_pair.1 hx with rfl | rfl <;> cases hcell <;> omega
    · obtain ⟨ha, hb, hd, hab, hbd, had⟩ := mem_triples.1 htriple
      simp only [List.mem_cons, List.not_mem_nil, or_false] at hx
      rcases hx with rfl | rfl | rfl <;> cases hcell
      · exact ⟨ha, hb, hab.symm⟩
      · exact ⟨hb, hd, hbd.symm⟩
      · exact ⟨ha, hd, had.symm⟩
    · obtain ⟨a, ha, rfl⟩ := List.mem_map.1 hx
      cases hcell
      rw [mem_others] at ha
      exact ⟨ha.1, hb, ha.2.symm⟩
  · rintro ⟨hi, hj, hne⟩
    have hother : i ∈ others n j := mem_others.2 ⟨hi, hne.symm⟩
    exact ⟨_, List.mem_append_right _ (List.mem_map_of_mem hj), _, List.mem_map_of_mem hother, rfl⟩

/-- The table of the elements before others. -/
def table (size : Nat) : Except Fault (Table (size + 1)) :=
  Table.fill _ ((orderedPairs size).map fun c => [c])

theorem exists_table {size : Nat} (hfits : size * (size - 1) < wordBound) :
    ∃ t, table size = .ok t ∧
      ∀ c ∈ orderedPairs size, t.read c = .ok (precedes size c.1 c.2) := by
  have hcells : ∀ e ∈ orderedPairs size, ∀ c ∈ [e],
      precedes size c.1 c.2 = precedes size e.1 e.2 ∧ c.1 < size + 1 ∧ c.2 < size + 1 := by
    rintro ⟨i, j⟩ hpair c hc
    rw [mem_orderedPairs, mem_numbers, mem_numbers] at hpair
    cases List.mem_singleton.1 hc
    exact ⟨rfl, by omega⟩
  obtain ⟨t, ht, hshows⟩ := Table.exists_fill (map_precedes size) hfits hcells
  simp only [List.flatMap_singleton'] at hshows
  refine ⟨t, ht, fun c hc => ?_⟩
  have hrange := mem_orderedPairs.1 hc
  rw [mem_numbers, mem_numbers] at hrange
  exact (hshows c.1 c.2 (by omega) (by omega)).trans (congrArg Except.ok (if_pos hc))

end Ordering
end Hard
end Falsifier
