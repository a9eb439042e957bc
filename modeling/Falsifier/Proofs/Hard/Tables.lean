import Mathlib.Data.List.Forall2
import Falsifier.Word
import Falsifier.Proofs.Hard.Subsets

/-!
# Tables of numbers

A machine numbers pairs with a counter, which it writes into the cells of a table, and looks the
numbers up later. A cell that was never written has the number 0. With every index and every sum
checked, a table can be filled as long as its cells are in range and its numbers are words, and it
then shows the place of a pair in the list of all pairs (`Table.exists_fill`).
-/

namespace Falsifier.Hard

/-! ### Tables -/

/-- A square table of numbers. Rows and columns are counted from 0. -/
abbrev Table (n : Nat) := Vector (Vector Nat n) n

namespace Table

variable {n : Nat}

def zeros (n : Nat) : Table n :=
  .replicate n (.replicate n 0)

/-- The number in a cell, which must be in range. -/
def read (t : Table n) (cell : Nat × Nat) : Except Fault Nat :=
  if hi : cell.1 < n then
    if hj : cell.2 < n then .ok t[cell.1][cell.2] else .error (.outOfBounds cell.2 n)
  else .error (.outOfBounds cell.1 n)

/-- Write a number into a cell, which must be in range. -/
def write (x : Nat) (t : Table n) (cell : Nat × Nat) : Except Fault (Table n) :=
  if hi : cell.1 < n then
    if hj : cell.2 < n then .ok (t.set cell.1 (t[cell.1].set cell.2 x))
    else .error (.outOfBounds cell.2 n)
  else .error (.outOfBounds cell.1 n)

/-- The cells of the table have these numbers. -/
def Shows (t : Table n) (number : Nat × Nat → Nat) : Prop :=
  ∀ i j, i < n → j < n → t.read (i, j) = .ok (number (i, j))

theorem shows_zeros : (zeros n).Shows fun _ => 0 := by
  intro i j hi hj
  simp [read, zeros, hi, hj]

theorem Shows.write {t : Table n} {number : Nat × Nat → Nat} (h : t.Shows number)
    {cell : Nat × Nat} (hcell : cell.1 < n ∧ cell.2 < n) (x : Nat) :
    ∃ t' : Table n, t.write x cell = .ok t' ∧
      t'.Shows fun c => if c = cell then x else number c := by
  obtain ⟨a, b⟩ := cell
  obtain ⟨ha, hb⟩ := hcell
  refine ⟨t.set a (t[a].set b x), ?_, ?_⟩
  · unfold Table.write
    rw [dif_pos ha, dif_pos hb]
  · intro i j hi hj
    have hread := h i j hi hj
    unfold read at hread ⊢
    rw [dif_pos hi, dif_pos hj] at hread ⊢
    by_cases hrow : a = i
    · subst hrow
      by_cases hcolumn : b = j
      · subst hcolumn
        simp
      · simpa [hcolumn, Ne.symm hcolumn] using hread
    · simpa [hrow, Ne.symm hrow] using hread

/-- Write a number into several cells. -/
theorem Shows.foldlM_write {t : Table n} {number : Nat × Nat → Nat} (h : t.Shows number)
    {cells : List (Nat × Nat)} (hcells : ∀ c ∈ cells, c.1 < n ∧ c.2 < n) (x : Nat) :
    ∃ t' : Table n, cells.foldlM (Table.write x) t = .ok t' ∧
      t'.Shows fun c => if c ∈ cells then x else number c := by
  induction cells generalizing t number with
  | nil => exact ⟨t, rfl, by simpa using h⟩
  | cons cell cells ih =>
    rw [List.forall_mem_cons] at hcells
    obtain ⟨t₁, hwrite, h₁⟩ := h.write hcells.1 x
    obtain ⟨t₂, hrest, h₂⟩ := ih h₁ hcells.2
    refine ⟨t₂, ?_, fun i j hi hj => ?_⟩
    · rw [List.foldlM_cons, hwrite]
      exact hrest
    · rw [h₂ i j hi hj]
      by_cases heq : (i, j) = cell <;> simp [heq]

end Table

/-! ### Counting -/

/-- A table that is filled with the numbers of a counter, and the last of these numbers. -/
structure Counted (n : Nat) where
  last : Nat
  table : Table n

namespace Counted

variable {n : Nat}

/-- Count on, and write the new number into the cells. -/
def next (s : Counted n) (cells : List (Nat × Nat)) : Except Fault (Counted n) := do
  let x ← checkedAdd s.last 1
  return ⟨x, ← cells.foldlM (Table.write x) s.table⟩

theorem foldlM_next {s : Counted n} {number before : Nat × Nat → Nat} (h : s.table.Shows before)
    {groups : List (List (Nat × Nat))}
    (hrange : ∀ cells ∈ groups, ∀ c ∈ cells, c.1 < n ∧ c.2 < n)
    (hnumber : List.Forall₂ (fun cells x => ∀ c ∈ cells, number c = x) groups
      (List.range' (s.last + 1) groups.length))
    (hfits : s.last + groups.length < wordBound) :
    ∃ s' : Counted n, groups.foldlM next s = .ok s' ∧
      s'.table.Shows fun c => if c ∈ groups.flatten then number c else before c := by
  induction groups generalizing s before with
  | nil => exact ⟨s, rfl, by simpa using h⟩
  | cons cells groups ih =>
    rw [List.forall_mem_cons] at hrange
    rw [List.length_cons, List.range'_succ, List.forall₂_cons] at hnumber
    rw [List.length_cons] at hfits
    have hadd : checkedAdd s.last 1 = .ok (s.last + 1) := checkedAdd_eq_ok_iff.2 ⟨by omega, rfl⟩
    obtain ⟨t, hwrite, ht⟩ := h.foldlM_write hrange.1 (s.last + 1)
    have hnext : s.next cells = .ok ⟨s.last + 1, t⟩ := by
      simp only [next, hadd, hwrite, bind, Except.bind]
      rfl
    obtain ⟨s', hrest, h'⟩ := ih (s := ⟨s.last + 1, t⟩) ht hrange.2 hnumber.2 (by simp only; omega)
    refine ⟨s', ?_, fun i j hi hj => ?_⟩
    · rw [List.foldlM_cons, hnext]
      exact hrest
    · rw [h' i j hi hj]
      by_cases hmem : (i, j) ∈ groups.flatten
      · simp [hmem]
      · by_cases hcell : (i, j) ∈ cells
        · simp [hmem, hcell, hnumber.1 _ hcell]
        · simp [hmem, hcell]

end Counted

/-- Number groups of cells one after the other. The other cells keep 0. -/
def Table.fill (n : Nat) (groups : List (List (Nat × Nat))) : Except Fault (Table n) :=
  return (← groups.foldlM Counted.next ⟨0, zeros n⟩).table

/-- Each index of a list has some cells, and the list is numbered in its order. -/
theorem Table.exists_fill {n m : Nat} {xs : List (Nat × Nat)} {number : Nat × Nat → Nat}
    {cells : Nat × Nat → List (Nat × Nat)} (h : xs.map number = numbers m) (hfits : m < wordBound)
    (hcells : ∀ x ∈ xs, ∀ c ∈ cells x, number c = number x ∧ c.1 < n ∧ c.2 < n) :
    ∃ t : Table n, Table.fill n (xs.map cells) = .ok t ∧
      t.Shows fun c => if c ∈ xs.flatMap cells then number c else 0 := by
  have hlength : (xs.map cells).length = m := by
    rw [List.length_map, ← List.length_map (f := number), h, length_numbers]
  have hnumber : List.Forall₂ (fun cells x => ∀ c ∈ cells, number c = x) (xs.map cells)
      (List.range' (0 + 1) (xs.map cells).length) := by
    rw [hlength, Nat.zero_add, ← numbers, ← h, List.forall₂_map_left_iff,
      List.forall₂_map_right_iff, List.forall₂_same]
    exact fun x hx c hc => (hcells x hx c hc).1
  have hrange : ∀ cs ∈ xs.map cells, ∀ c ∈ cs, c.1 < n ∧ c.2 < n := by
    rw [List.forall_mem_map]
    exact fun x hx c hc => (hcells x hx c hc).2
  obtain ⟨s, hs, hshows⟩ := Counted.foldlM_next (s := ⟨0, zeros n⟩) shows_zeros hrange hnumber
    (by rw [hlength, Nat.zero_add]; exact hfits)
  refine ⟨s.table, ?_, hshows⟩
  unfold fill
  rw [hs]
  rfl

end Falsifier.Hard
