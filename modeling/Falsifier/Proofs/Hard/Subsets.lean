import Mathlib.Data.List.Nodup
import Mathlib.Data.List.InsertIdx
import Mathlib.Combinatorics.Pigeonhole
import Falsifier.Hard.Subsets

/-!
# Subsets of the numbers from 1

The combinations of size `r` are the sublists of that length (`mem_combinations`), so when there are
more numbers than places for `k` each, one of the combinations of size `k + 1` shares a place
(`exists_crowd`). The numbers other than a given one are counted by their `rank`.
-/

namespace Falsifier.Hard

theorem nodup_numbers (n : Nat) : (numbers n).Nodup :=
  List.nodup_range'

@[simp] theorem length_numbers (n : Nat) : (numbers n).length = n :=
  List.length_range'

/-! ### Positions -/

theorem getElem?_map_numbers {α : Type} {n i : Nat} (hi : i < n) (f : Nat → α) :
    ((numbers n).map f)[i]? = some (f (i + 1)) := by
  rw [List.getElem?_map, numbers, List.getElem?_range' hi, Option.map_some, Nat.one_mul, Nat.add_comm]

theorem getElem?_map_append {α : Type} {n i : Nat} (hi : i < n) (f : Nat → α) (xs : List α) :
    ((numbers n).map f ++ xs)[i]? = some (f (i + 1)) := by
  rw [List.getElem?_append_left (by simpa using hi), getElem?_map_numbers hi]

theorem getElem?_append_map {α : Type} {xs : List α} {n i : Nat} (hlow : xs.length ≤ i)
    (hhigh : i < xs.length + n) (f : Nat → α) :
    (xs ++ (numbers n).map f)[i]? = some (f (i - xs.length + 1)) := by
  rw [List.getElem?_append_right hlow, getElem?_map_numbers (by omega)]

/-! ### Combinations -/

theorem mem_keeping {r : Nat} {xs c : List Nat} :
    c ∈ keeping r xs ↔ c.Sublist xs ∧ c.length = r := by
  -- Along the recursion: the first entry is kept, and one fewer of the others, or it is not.
  induction xs generalizing r c with
  | nil =>
    cases r with
    | zero => simp [keeping]
    | succ r =>
      simp only [keeping, List.not_mem_nil, List.sublist_nil, false_iff, not_and]
      rintro rfl
      exact Nat.zero_ne_add_one r
  | cons x xs ih =>
    cases r with
    | zero =>
      rw [keeping, List.mem_singleton, List.length_eq_zero_iff]
      exact ⟨fun h => ⟨h ▸ List.nil_sublist _, h⟩, fun h => h.2⟩
    | succ r =>
      rw [keeping, List.mem_append, List.mem_map, ih, List.sublist_cons_iff]
      constructor
      · rintro (⟨d, hd, rfl⟩ | ⟨hc, hlength⟩)
        · obtain ⟨hd, hlength⟩ := ih.1 hd
          exact ⟨.inr ⟨d, rfl, hd⟩, congrArg Nat.succ hlength⟩
        · exact ⟨.inl hc, hlength⟩
      · rintro ⟨hc | ⟨d, rfl, hd⟩, hlength⟩
        · exact .inr ⟨hc, hlength⟩
        · exact .inl ⟨d, ih.2 ⟨hd, Nat.succ.inj hlength⟩, rfl⟩

theorem mem_combinations {n r : Nat} {c : List Nat} :
    c ∈ combinations n r ↔ c.Sublist (numbers n) ∧ c.length = r :=
  mem_keeping

/-- **The pigeonhole principle**, for places with room for `k` numbers each. -/
theorem exists_crowd {n m k : Nat} {place : Nat → Nat}
    (hplace : ∀ i ∈ numbers n, place i ∈ numbers m) (hn : m * k < n) :
    ∃ p ∈ numbers m, ∃ c ∈ combinations n (k + 1), ∀ i ∈ c, place i = p := by
  have hmaps : ∀ i ∈ (numbers n).toFinset, place i ∈ (numbers m).toFinset := by
    simpa using hplace
  have hcard : (numbers m).toFinset.card * k < (numbers n).toFinset.card := by
    rw [List.toFinset_card_of_nodup (nodup_numbers m),
      List.toFinset_card_of_nodup (nodup_numbers n), length_numbers, length_numbers]
    exact hn
  obtain ⟨p, hp, hk⟩ := Finset.exists_lt_card_fiber_of_mul_lt_card_of_maps_to hmaps hcard
  refine ⟨p, List.mem_toFinset.1 hp, ((numbers n).filter (place · = p)).take (k + 1), ?_, ?_⟩
  · have hlength : k < ((numbers n).filter (place · = p)).length := by
      rw [← List.toFinset_card_of_nodup ((nodup_numbers n).filter _), List.toFinset_filter]
      simpa using hk
    refine mem_combinations.2 ⟨(List.take_sublist _ _).trans List.filter_sublist, ?_⟩
    rw [List.length_take]
    omega
  · intro i hi
    simpa using (List.mem_filter.1 (List.mem_of_mem_take hi)).2

/-! ### Leaving one number out -/

theorem mem_eraseIdx_numbers {n i p : Nat} :
    p ∈ (numbers n).eraseIdx i ↔ p ∈ numbers n ∧ p ≠ i + 1 := by
  rw [List.mem_eraseIdx_iff_getElem, mem_numbers]
  simp only [numbers, List.getElem_range', List.length_range']
  constructor
  · rintro ⟨j, hj, hne, rfl⟩
    omega
  · rintro ⟨hp, hne⟩
    exact ⟨p - 1, by omega, by omega, by omega⟩

theorem eraseIdx_map_append {α : Type} {n i : Nat} (hi : i < n) (f : Nat → α) (xs : List α) :
    ((numbers n).map f ++ xs).eraseIdx i = ((numbers n).eraseIdx i).map f ++ xs := by
  rw [← List.eraseIdx_map]
  exact List.eraseIdx_append_of_lt_length (by simpa using hi) xs

/-- How many of the numbers from 1 are below `p`, when `q` is left out. -/
def rank (q p : Nat) : Nat :=
  if p < q then p - 1 else p - 2

/-- The ranks have no gaps. -/
theorem exists_rank_eq {n q r : Nat} (hr : r + 1 < n) :
    ∃ p ∈ numbers n, p ≠ q ∧ rank q p = r := by
  by_cases hlow : r + 1 < q
  · refine ⟨r + 1, mem_numbers.2 (by omega), by omega, ?_⟩
    rw [rank, if_pos hlow, Nat.add_sub_cancel]
  · refine ⟨r + 2, mem_numbers.2 (by omega), by omega, ?_⟩
    rw [rank, if_neg (by omega), Nat.add_sub_cancel]

section Rank

variable {n q : Nat} (hq : q ∈ numbers n)
include hq

theorem rank_lt {p : Nat} (hp : p ∈ numbers n) (hne : p ≠ q) : rank q p + 1 < n := by
  rw [mem_numbers] at hp hq
  unfold rank
  split <;> omega

theorem rank_inj {p p' : Nat} (hp : p ∈ numbers n) (hne : p ≠ q) (hp' : p' ∈ numbers n)
    (hne' : p' ≠ q) (h : rank q p = rank q p') : p = p' := by
  rw [mem_numbers] at hp hp' hq
  unfold rank at h
  split at h <;> split at h <;> omega

end Rank

end Falsifier.Hard
