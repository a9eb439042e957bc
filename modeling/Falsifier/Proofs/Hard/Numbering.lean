import Mathlib.Data.Set.Function
import Falsifier.Hard.Family
import Falsifier.Proofs.Evaluation
import Falsifier.Proofs.Hard.Subsets

/-!
# Numbering

The variables of a hard family are numbered block by block: a block for each pigeon, for the edges
from each node to the later ones, or for each element. So the indices of the variables, in the order
in which they are listed, have the numbers 1, 2, 3 and so on (`Pigeonhole.map_sits`,
`Parity.map_edge`, `Ordering.map_precedes`). Different indices have different variables, no number is
left out (`bijOn_of_map_eq`), and every property of the indices is what some valuation says of them
(`exists_valuation`).
-/

namespace Falsifier.Hard

/-! ### Numbers in blocks -/

theorem numbers_add (m k : Nat) : numbers (m + k) = numbers m ++ List.range' (m + 1) k := by
  rw [numbers, numbers, Nat.add_comm m 1, List.range'_append_1]

/-- Blocks of numbers that follow each other. The block of `i` ends at `last i`. -/
theorem flatMap_blocks (last width : Nat → Nat) (hzero : last 0 = 0)
    (hnext : ∀ i, last (i + 1) = last i + width (i + 1)) (m : Nat) :
    (numbers m).flatMap (fun i => List.range' (last (i - 1) + 1) (width i)) =
      numbers (last m) := by
  induction m with
  | zero => rw [hzero]; rfl
  | succ m ih =>
    rw [numbers_add, List.flatMap_append, ih, hnext, numbers_add]
    simp

/-- Where the numbers are given in the order of a list, different entries have different numbers, and
every number up to the last is given. -/
theorem bijOn_of_map_eq {α : Type} {number : α → Nat} {xs : List α} {m : Nat}
    (h : xs.map number = numbers m) : Set.BijOn number {x | x ∈ xs} (Set.Icc 1 m) := by
  have hmem (v : Nat) : v ∈ Set.Icc 1 m ↔ ∃ x ∈ xs, number x = v := by
    rw [← List.mem_map, h, mem_numbers]
    rfl
  refine ⟨fun x hx => (hmem _).2 ⟨x, hx, rfl⟩, ?_, fun v hv => (hmem v).1 hv⟩
  have hnodup : (xs.map number).Nodup := h ▸ nodup_numbers m
  exact fun x hx y hy => List.inj_on_of_nodup_map hnodup hx hy

theorem exists_valuation {α : Type} {number : α → Var} {s : Set α} (h : s.InjOn number)
    (P : α → Prop) : ∃ g : Valuation, ∀ x ∈ s, g (number x) = true ↔ P x := by
  classical
  refine ⟨fun v => decide (∃ y ∈ s, number y = v ∧ P y), fun x hx => ?_⟩
  rw [decide_eq_true_iff]
  constructor
  · rintro ⟨y, hy, heq, hPy⟩
    rwa [← h hy hx heq]
  · intro hPx
    exact ⟨x, hx, rfl, hPx⟩

/-! ### Numbers other than one -/

/-- The numbers other than `i`. -/
def others (n i : Nat) : List Nat :=
  (numbers n).filter (· ≠ i)

theorem mem_others {n i j : Nat} : j ∈ others n i ↔ j ∈ numbers n ∧ j ≠ i := by
  rw [others, List.mem_filter, decide_eq_true_iff]

/-- Two different numbers, in both orders. -/
def orderedPairs (n : Nat) : List (Nat × Nat) :=
  (numbers n).flatMap fun i => (others n i).map fun j => (i, j)

theorem mem_orderedPairs {n i j : Nat} :
    (i, j) ∈ orderedPairs n ↔ i ∈ numbers n ∧ j ∈ numbers n ∧ j ≠ i := by
  simp [orderedPairs, mem_others]

theorem mem_orderedPairs_comm {n i j : Nat} :
    (i, j) ∈ orderedPairs n ↔ (j, i) ∈ orderedPairs n := by
  rw [mem_orderedPairs, mem_orderedPairs, and_left_comm, ne_comm]

/-- The others can be numbered from 1 on, with those above `i` moved down. -/
theorem map_others {n i : Nat} (hi : i ∈ numbers n) :
    (others n i).map (fun j => if j < i then j else j - 1) = numbers (n - 1) := by
  rw [mem_numbers] at hi
  obtain ⟨a, rfl⟩ := Nat.exists_eq_add_of_le' hi.1
  obtain ⟨b, rfl⟩ := Nat.exists_eq_add_of_le hi.2
  have hbefore : ∀ j ∈ numbers a, j < a + 1 := fun j hj => Nat.lt_succ_of_le (mem_numbers.1 hj).2
  have hafter : ∀ j ∈ List.range' (a + 1 + 1) b, a + 1 < j :=
    fun j hj => (List.mem_range'_1.1 hj).1
  have hothers : others (a + 1 + b) (a + 1) = numbers a ++ List.range' (a + 1 + 1) b := by
    rw [others, numbers_add, numbers_add, List.filter_append, List.filter_append,
      List.filter_eq_self.2 fun j hj => decide_eq_true (Nat.ne_of_lt (hbefore j hj)),
      List.filter_eq_self.2 fun j hj => decide_eq_true (Nat.ne_of_gt (hafter j hj))]
    simp
  have hlow : (numbers a).map (fun j => if j < a + 1 then j else j - 1) = numbers a :=
    (List.map_congr_left fun j hj => if_pos (hbefore j hj)).trans (List.map_id _)
  have hhigh : (List.range' (a + 1 + 1) b).map (fun j => if j < a + 1 then j else j - 1) =
      List.range' (a + 1) b :=
    (List.map_congr_left fun j hj => if_neg (Nat.lt_asymm (hafter j hj))).trans
      (List.map_sub_range' (Nat.le_add_left 1 (a + 1)) b)
  rw [hothers, List.map_append, hlow, hhigh, ← numbers_add]
  congr 1
  omega

/-! ### Pigeons in holes -/

namespace Pigeonhole

/-- Every place in every hole, for one pigeon after the other. -/
def seats (n holes : Nat) : List (Nat × Nat) :=
  (numbers n).flatMap fun pigeon => (numbers holes).map fun hole => (pigeon, hole)

theorem mem_seats {n holes pigeon hole : Nat} :
    (pigeon, hole) ∈ seats n holes ↔ pigeon ∈ numbers n ∧ hole ∈ numbers holes := by
  simp [seats]

theorem map_sits (n holes : Nat) :
    (seats n holes).map (fun e => sits holes e.1 e.2) = numbers (n * holes) := by
  have hblock (pigeon : Nat) : (numbers holes).map (sits holes pigeon) =
      List.range' ((pigeon - 1) * holes + 1) holes := List.map_add_range' ..
  rw [← flatMap_blocks (· * holes) (fun _ => holes) (Nat.zero_mul holes)
    (fun i => Nat.succ_mul i holes), seats, List.map_flatMap]
  simp only [List.map_map, Function.comp_def, hblock]

/-- Different seats have different variables. -/
theorem injOn_sits (holes n : Nat) :
    Set.InjOn (fun seat : Nat × Nat => sits holes seat.1 seat.2)
      {seat | seat.1 ∈ numbers n ∧ seat.2 ∈ numbers holes} :=
  (bijOn_of_map_eq (map_sits n holes)).injOn.mono fun _ => mem_seats.2

end Pigeonhole

/-! ### Edges -/

namespace Parity

theorem edge_comm (n i j : Nat) : edge n i j = edge n j i := by
  unfold edge
  rw [Nat.min_comm, Nat.max_comm]

theorem edge_of_lt {n i j : Nat} (h : i < j) : edge n i j = edgesUpTo n (i - 1) + (j - i) := by
  rw [edge, Nat.min_eq_left (Nat.le_of_lt h), Nat.max_eq_right (Nat.le_of_lt h)]

theorem map_edge (n : Nat) :
    (pairs n).map (fun e => edge n e.1 e.2) = numbers (edgesUpTo n n) := by
  have hblock (i : Nat) : (List.range' (i + 1) (n - i)).map (edge n i) =
      List.range' (edgesUpTo n (i - 1) + 1) (n - i) := by
    have hplaces : (List.range' (i + 1) (n - i)).map (· - i) = List.range' 1 (n - i) := by
      rw [List.map_sub_range' (by omega), Nat.add_sub_cancel_left]
    calc (List.range' (i + 1) (n - i)).map (edge n i)
        = (List.range' (i + 1) (n - i)).map fun j => edgesUpTo n (i - 1) + (j - i) :=
          List.map_congr_left fun j hj => edge_of_lt (List.mem_range'_1.1 hj).1
      _ = ((List.range' (i + 1) (n - i)).map (· - i)).map (edgesUpTo n (i - 1) + ·) := by
          rw [List.map_map]
          rfl
      _ = List.range' (edgesUpTo n (i - 1) + 1) (n - i) := by
          rw [hplaces, List.map_add_range']
  rw [← flatMap_blocks (edgesUpTo n) (n - ·) rfl (fun i => rfl), pairs,
    List.map_flatMap]
  simp only [List.map_map, Function.comp_def, hblock]

/-- Different edges have different variables. -/
theorem injOn_edge (n : Nat) : Set.InjOn (fun e : Nat × Nat => edge n e.1 e.2)
    {e | (e.1, e.2) ∈ pairs n} :=
  (bijOn_of_map_eq (map_edge n)).injOn

end Parity

/-! ### Elements before others -/

namespace Ordering

theorem map_precedes (n : Nat) :
    (orderedPairs n).map (fun e => precedes n e.1 e.2) = numbers (n * (n - 1)) := by
  have hblock : ∀ i ∈ numbers n, (others n i).map (precedes n i) =
      List.range' ((i - 1) * (n - 1) + 1) (n - 1) := by
    intro i hi
    have h := congrArg (List.map ((i - 1) * (n - 1) + ·)) (map_others hi)
    rw [List.map_map, numbers, List.map_add_range'] at h
    exact h
  rw [← flatMap_blocks (· * (n - 1)) (fun _ => n - 1) (Nat.zero_mul _)
    (fun i => Nat.succ_mul i _), orderedPairs, List.map_flatMap]
  simp only [List.map_map, Function.comp_def]
  exact List.flatMap_congr hblock

/-- Different pairs have different variables. -/
theorem injOn_precedes (n : Nat) : Set.InjOn (fun e : Nat × Nat => precedes n e.1 e.2)
    {e | e.1 ∈ numbers n ∧ e.2 ∈ numbers n ∧ e.2 ≠ e.1} :=
  (bijOn_of_map_eq (map_precedes n)).injOn.mono fun _ => mem_orderedPairs.2

end Ordering
end Falsifier.Hard
