import Mathlib.Data.List.Sort
import Mathlib.Data.Nat.Choose.Basic
import Falsifier.Proofs.Hard.Subsets

/-!
# All combinations, each once

The combinations of size `r` are the increasing rows of `r` numbers from 1 to `n`, in lexicographic
order and without repetition (`combinations_exact`). They can also be found by backtracking: a row is
shared by the whole search, which puts one number after the other at its end and takes it off again
(`Backtracking.extend_eq_combinations`).
-/

namespace Falsifier.Hard

/-! ### Which rows there are -/

theorem pairwise_numbers (n : Nat) : (numbers n).Pairwise (· < ·) :=
  List.pairwise_lt_range'

/-- An increasing row keeps some of the numbers in their order. -/
theorem sublist_numbers_iff {n : Nat} {c : List Nat} :
    c.Sublist (numbers n) ↔ c.Pairwise (· < ·) ∧ ∀ i ∈ c, 1 ≤ i ∧ i ≤ n := by
  constructor
  · intro h
    exact ⟨(pairwise_numbers n).sublist h, fun i hi => mem_numbers.1 (h.subset hi)⟩
  · rintro ⟨hc, hrange⟩
    have hsub : c.Subperm (numbers n) :=
      List.subperm_of_subset (hc.imp Nat.ne_of_lt) fun i hi => mem_numbers.2 (hrange i hi)
    exact List.sublist_of_subperm_of_pairwise hsub (hc.imp Nat.le_of_lt)
      ((pairwise_numbers n).imp Nat.le_of_lt)

theorem length_keeping (r : Nat) (xs : List Nat) :
    (keeping r xs).length = xs.length.choose r := by
  induction xs generalizing r with
  | nil => cases r <;> rfl
  | cons x xs ih =>
    cases r with
    | zero => rfl
    | succ r =>
      rw [keeping, List.length_append, List.length_map, ih, ih, List.length_cons,
        Nat.choose_succ_succ]

theorem length_combinations (n r : Nat) : (combinations n r).length = n.choose r := by
  rw [combinations, length_keeping, length_numbers]

/-! ### Their order -/

/-- Rows that keep the first entry come before those that start with a later one. -/
theorem pairwise_keeping {xs : List Nat} (hxs : xs.Pairwise (· < ·)) (r : Nat) :
    (keeping r xs).Pairwise (List.Lex (· < ·)) := by
  induction xs generalizing r with
  | nil => cases r <;> simp [keeping]
  | cons x xs ih =>
    cases r with
    | zero => exact List.pairwise_singleton _ _
    | succ r =>
      obtain ⟨hx, hxs⟩ := List.pairwise_cons.1 hxs
      rw [keeping, List.pairwise_append, List.pairwise_map]
      refine ⟨(ih hxs r).imp .cons, ih hxs (r + 1), ?_⟩
      intro c hc d hd
      obtain ⟨c, -, rfl⟩ := List.mem_map.1 hc
      obtain ⟨hsub, hlength⟩ := mem_keeping.1 hd
      obtain ⟨y, d, rfl⟩ := List.exists_cons_of_length_eq_add_one hlength
      exact .rel (hx y (hsub.subset List.mem_cons_self))

/-! ### Backtracking -/

/-- The row that all branches of a search share, and the rows found so far. -/
structure Backtracking where
  row : List Nat
  found : List (List Nat)

namespace Backtracking

def push (s : Backtracking) (i : Nat) : Backtracking :=
  { s with row := s.row ++ [i] }

def pop (s : Backtracking) : Backtracking :=
  { s with row := s.row.dropLast }

/-- Find the rows of `r` numbers that continue the present one by numbers from `start` to `n`. -/
def extend (n r start : Nat) (s : Backtracking) : Backtracking :=
  if s.row.length = r then { s with found := s.found ++ [s.row] }
  else
    (List.range' start (n + 1 - start)).attach.foldl
      (fun s i => (extend n r (i.1 + 1) (s.push i.1)).pop) s
termination_by n + 1 - start
decreasing_by
  have hi := List.mem_range'_1.1 i.2
  omega

/-- One round of the loop: a number is put at the end of the row and taken off again. -/
def round (n r : Nat) (s : Backtracking) (i : Nat) : Backtracking :=
  (extend n r (i + 1) (s.push i)).pop

theorem extend_eq (n r start : Nat) (s : Backtracking) :
    extend n r start s =
      if s.row.length = r then { s with found := s.found ++ [s.row] }
      else (List.range' start (n + 1 - start)).foldl (round n r) s := by
  rw [extend, ← List.foldl_attach (f := round n r)]
  rfl

/-- All rows that continue the present one by `r` of the numbers are found. The present row stays. -/
def add (s : Backtracking) (r : Nat) (xs : List Nat) : Backtracking :=
  { s with found := s.found ++ (keeping r xs).map (s.row ++ ·) }

theorem add_zero (s : Backtracking) (xs : List Nat) :
    s.add 0 xs = { s with found := s.found ++ [s.row] } := by
  unfold add
  rw [keeping, List.map_singleton, List.append_nil]

theorem add_nil (s : Backtracking) (r : Nat) : s.add (r + 1) [] = s := by
  unfold add
  rw [keeping, List.map_nil, List.append_nil]

/-- The rows with a number come before those without it. -/
theorem add_cons (s : Backtracking) (r i : Nat) (xs : List Nat) :
    s.add (r + 1) (i :: xs) = ((s.push i).add r xs).pop.add (r + 1) xs := by
  unfold add push pop
  rw [keeping, List.map_append, List.map_map, List.append_assoc, List.dropLast_concat]
  simp [Function.comp_def]

variable {n r : Nat}

theorem extend_eq_add_of_loop {start k : Nat} {s : Backtracking} (hk : s.row.length + k = r)
    (hloop : ∀ j, k = j + 1 → (List.range' start (n + 1 - start)).foldl (round n r) s =
      s.add k (List.range' start (n + 1 - start))) :
    extend n r start s = s.add k (List.range' start (n + 1 - start)) := by
  rw [extend_eq]
  cases k with
  | zero => exact (if_pos hk).trans (add_zero s _).symm
  | succ j => rw [if_neg (by omega), hloop j rfl]

theorem foldl_round_eq_add {start k : Nat} {s : Backtracking} (hk : s.row.length + (k + 1) = r) :
    (List.range' start (n + 1 - start)).foldl (round n r) s =
      s.add (k + 1) (List.range' start (n + 1 - start)) := by
  -- The search that a round starts and the rounds after it have the same numbers left.
  induction hleft : n + 1 - start generalizing start k s with
  | zero => exact (add_nil s k).symm
  | succ left ih =>
    obtain rfl : left = n + 1 - (start + 1) := by omega
    have hpush : (s.push start).row.length + k = r := by
      simp only [push, List.length_append, List.length_singleton]
      omega
    have hround : round n r s start =
        ((s.push start).add k (List.range' (start + 1) (n + 1 - (start + 1)))).pop := by
      unfold round
      rw [extend_eq_add_of_loop hpush]
      rintro j rfl
      exact ih hpush rfl
    rw [List.range'_succ, List.foldl_cons, hround, add_cons]
    refine ih ?_ rfl
    simpa [push, pop, add] using hk

/-- A search finds all rows that continue the present one, and leaves it as it was. -/
theorem extend_eq_add {start k : Nat} {s : Backtracking} (hk : s.row.length + k = r) :
    extend n r start s = s.add k (List.range' start (n + 1 - start)) := by
  apply extend_eq_add_of_loop hk
  rintro j rfl
  exact foldl_round_eq_add hk

theorem extend_eq_combinations (n r : Nat) : extend n r 1 ⟨[], []⟩ = ⟨[], combinations n r⟩ := by
  rw [extend_eq_add (Nat.zero_add r)]
  simp [add, combinations, numbers]

end Backtracking

/-- **Combinations are complete, in order and without repetition.** They are the increasing rows of
`r` numbers from 1 to `n`, and they are what backtracking finds. -/
theorem combinations_exact (n r : Nat) :
    (∀ c, c ∈ combinations n r ↔
      c.Pairwise (· < ·) ∧ (∀ i ∈ c, 1 ≤ i ∧ i ≤ n) ∧ c.length = r) ∧
    (combinations n r).Nodup ∧ (combinations n r).Pairwise (List.Lex (· < ·)) ∧
    (combinations n r).length = n.choose r ∧
    combinations n 0 = [[]] ∧ (combinations n r = [] ↔ n < r) ∧
    Backtracking.extend n r 1 ⟨[], []⟩ = ⟨[], combinations n r⟩ := by
  have horder : (combinations n r).Pairwise (List.Lex (· < ·)) :=
    pairwise_keeping (pairwise_numbers n) r
  refine ⟨fun c => ?_, ?_, horder, length_combinations n r, ?_, ?_,
    Backtracking.extend_eq_combinations n r⟩
  · rw [mem_combinations, sublist_numbers_iff, and_assoc]
  · refine horder.imp ?_
    rintro c _ hlex rfl
    exact List.lex_irrefl Nat.lt_irrefl c hlex
  · cases n <;> rfl
  · rw [← List.length_eq_zero_iff, length_combinations, Nat.choose_eq_zero_iff]

example : combinations 3 2 = [[1, 2], [1, 3], [2, 3]] := by decide

end Falsifier.Hard
