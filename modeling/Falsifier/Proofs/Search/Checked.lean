import Falsifier.Proofs.Search.Score
import Falsifier.Word

/-!
# Checked neighbours

A machine finds the fitness of a neighbour in place: it counts the true clauses at the occurrences,
changes the value, counts again, and changes the value back. Every entry it reads must exist, and
the count before the change must not exceed the fitness it is taken from. Here the computation is
written with these checks, and so is the translation of variables into positions. For a prepared
formula neither faults, and they give what the search works with: `compileClauses_eq` and
`flipFitness_eq`.
-/

namespace Falsifier.Search

/-- The entry at an index, which must be in range. -/
def entry {α : Type} (xs : Array α) (i : Nat) : Except Fault α :=
  match xs[i]? with
  | some x => .ok x
  | none => .error (.outOfBounds i xs.size)

theorem entry_eq {α : Type} {xs : Array α} {i : Nat} {x : α} (h : xs[i]? = some x) :
    entry xs i = .ok x := by
  unfold entry
  rw [h]

/-! ### Positions -/

/-- The position of a variable, which must be in the list. -/
def position (vars : List Var) (v : Var) : Except Fault Nat :=
  match vars.idxOf? v with
  | some i => .ok i
  | none => .error (.missing v)

/-- Translate the clauses of a formula, literal by literal. -/
def compileClauses (f : Dnf) : Except Fault (List (List Spot)) :=
  f.clauses.mapM fun c => c.mapM fun l => return ⟨← position f.vars l.var, l.positive⟩

theorem position_eq {vars : List Var} {v : Var} (h : v ∈ vars) :
    position vars v = .ok (vars.idxOf v) := by
  have hlt : vars.idxOf v < vars.length := List.idxOf_lt_length_of_mem h
  have hfound : vars.idxOf? v = some (vars.idxOf v) := by
    rw [List.idxOf?_eq_some_iff]
    exact ⟨hlt, List.getElem_idxOf hlt, fun j hj => by simpa using List.not_of_lt_findIdx hj⟩
  unfold position
  rw [hfound]

/-- **Every variable is found.** -/
theorem compileClauses_eq (f : Dnf) :
    compileClauses f = .ok (Landscape.ofDnf f).clauses.toList := by
  unfold compileClauses
  apply mapM_eq_ok
  intro c hc
  apply mapM_eq_ok
  intro l hl
  rw [position_eq (Dnf.var_mem_vars hc hl)]
  rfl

/-! ### Counting in place -/

/-- Whether the clause with a given index stays true. -/
def checkedSurvives (L : Landscape) (current : Array Bool) (k : Nat) : Except Fault Bool := do
  (← entry L.clauses k).allM fun s => return (← entry current s.position) == s.positive

/-- How many of the clauses with the given indices stay true. -/
def checkedFitnessAmong (L : Landscape) (indices : List Nat) (current : Array Bool) :
    Except Fault Nat :=
  indices.foldlM (fun n k => return if ← checkedSurvives L current k then n + 1 else n) 0

/-- Change the value at a position. -/
def flipEntry (current : Array Bool) (i : Nat) : Except Fault (Array Bool) :=
  return current.set! i !(← entry current i)

/-- The fitness of the neighbour at position `i`, found in place from the present fitness. The values
that it leaves behind come with it. -/
def flipFitness (L : Landscape) (fitness i : Nat) (current : Array Bool) :
    Except Fault (Nat × Array Bool) := do
  let touched ← entry L.occurrences i
  let before ← checkedFitnessAmong L touched.toList current
  let current ← flipEntry current i
  let after ← checkedFitnessAmong L touched.toList current
  let current ← flipEntry current i
  return ((← checkedSub fitness before) + after, current)

/-! ### Counting does not fault -/

/-- There is a clause with this index, and every literal of it has a position below `n`. -/
def InRange (L : Landscape) (n k : Nat) : Prop :=
  ∃ c, L.clauses[k]? = some c ∧ ∀ s ∈ c, s.position < n

theorem checkedSurvives_eq {L : Landscape} {current : Array Bool} {k : Nat}
    (h : InRange L current.size k) :
    checkedSurvives L current k = .ok (survives (L.clauses.getD k []) (valuesOf current)) := by
  obtain ⟨c, hc, hrange⟩ := h
  unfold checkedSurvives
  rw [entry_eq hc, Array.getD_eq_getD_getElem?, hc]
  apply allM_eq_ok
  intro s hs
  have hget := Array.getElem?_eq_getElem (hrange s hs)
  rw [entry_eq hget]
  unfold Spot.holds valuesOf
  rw [Array.getD_eq_getD_getElem?, hget]
  rfl

theorem foldlM_count_eq {ε α : Type} {p : α → Except ε Bool} {q : α → Bool} {xs : List α}
    (h : ∀ x ∈ xs, p x = .ok (q x)) (n : Nat) :
    xs.foldlM (fun n x => return if ← p x then n + 1 else n) n = .ok (n + xs.countP q) := by
  induction xs generalizing n with
  | nil => rfl
  | cons x xs ih =>
      have ih' := ih fun y hy => h y (by simp [hy])
      rw [List.foldlM_cons, h x (by simp), List.countP_cons]
      cases hx : q x with
      | true => exact (ih' (n + 1)).trans (by congr 1; simp; omega)
      | false => exact (ih' n).trans (by simp)

theorem checkedFitnessAmong_eq {L : Landscape} {indices : Array Nat} {current : Array Bool}
    (h : ∀ k ∈ indices, InRange L current.size k) :
    checkedFitnessAmong L indices.toList current =
      .ok (L.fitnessAmong indices (valuesOf current)) := by
  unfold checkedFitnessAmong Landscape.fitnessAmong
  rw [← Array.countP_toList, ← Nat.zero_add (List.countP _ _)]
  exact foldlM_count_eq (fun k hk => checkedSurvives_eq (h k (Array.mem_toList_iff.1 hk))) 0

theorem flipEntry_eq {current : Array Bool} {i : Nat} (hi : i < current.size) :
    flipEntry current i = .ok (current.modify i (!·)) := by
  have hget := Array.getElem?_eq_getElem hi
  unfold flipEntry
  rw [entry_eq hget]
  refine congrArg Except.ok (Array.ext_getElem? fun j => ?_)
  rw [Array.getElem?_modify, Array.set!_eq_setIfInBounds, Array.getElem?_setIfInBounds]
  by_cases hj : i = j
  · subst hj
    simp [hi]
  · rw [if_neg hj, if_neg hj]

/-- Changing a value twice leaves the values as they were. -/
theorem modify_not_modify_not (current : Array Bool) (i : Nat) :
    (current.modify i (!·)).modify i (!·) = current := by
  apply Array.ext_getElem?
  intro j
  rw [Array.getElem?_modify, Array.getElem?_modify]
  by_cases hj : i = j
  · simp [hj, Function.comp_def]
  · rw [if_neg hj, if_neg hj]

theorem valuesOf_modify {current : Array Bool} {i : Nat} (hi : i < current.size) :
    valuesOf (current.modify i (!·)) = flipped (valuesOf current) i := by
  rw [valuesOf_eq_listed, valuesOf_eq_listed, Array.toList_modify]
  exact listed_modify (by simpa using hi)

/-! ### Prepared formulas -/

/-- The occurrences of a prepared formula are indices of its clauses, whose positions are those of
its variables. -/
theorem inRange_of_mem_occurrences {f : Dnf} {i k : Nat} {row : Array Nat}
    (hi : i < f.vars.length) (hrow : (Landscape.ofDnf f).occurrences[i]? = some row)
    (hk : k ∈ row) : InRange (Landscape.ofDnf f) f.vars.length k := by
  rw [Landscape.occurrences_ofDnf hi, Option.some.injEq] at hrow
  subst hrow
  obtain ⟨-, spots, hspots, -⟩ := Landscape.mem_indicesFrom.1 (List.mem_toArray.1 hk)
  rw [Nat.sub_zero] at hspots
  refine ⟨spots, ?_, fun s hs => ?_⟩
  · show (List.toArray _)[k]? = _
    rw [List.getElem?_toArray, hspots]
  · rw [List.getElem?_map, Option.map_eq_some_iff] at hspots
    obtain ⟨c, hc, rfl⟩ := hspots
    obtain ⟨l, hl, rfl⟩ := List.mem_map.1 hs
    exact (List.getElem?_eq_some_iff.1 (getElem?_position (List.mem_of_getElem? hc) hl)).1

/-- **Looking at a neighbour does not fault.** It gives the fitness of the changed values, and the
values are left as they were. -/
theorem flipFitness_eq {f : Dnf} {current : Array Bool} (hsize : current.size = f.vars.length)
    {i : Nat} (hi : i < f.vars.length) :
    flipFitness (Landscape.ofDnf f) ((Landscape.ofDnf f).fitness (valuesOf current)) i current =
      .ok ((Landscape.ofDnf f).fitness (flipped (valuesOf current) i), current) := by
  have hrow := Landscape.occurrences_ofDnf hi
  have hrange (k : Nat) (hk : k ∈ (Landscape.ofDnf f).occurrences.getD i #[]) :
      InRange (Landscape.ofDnf f) current.size k := by
    rw [Array.getD_eq_getD_getElem?, hrow] at hk
    rw [hsize]
    exact inRange_of_mem_occurrences hi hrow hk
  have htouched : entry (Landscape.ofDnf f).occurrences i =
      .ok ((Landscape.ofDnf f).occurrences.getD i #[]) := by
    rw [entry_eq hrow, Array.getD_eq_getD_getElem?, hrow]
    rfl
  have hflip := flipEntry_eq (hsize ▸ hi)
  have hback : flipEntry (current.modify i (!·)) i = .ok current := by
    rw [flipEntry_eq (by simp [hsize, hi]), modify_not_modify_not]
  -- No clause is listed twice at a position, so the count taken away is part of the fitness.
  have hle := Landscape.fitnessAmong_occurrences_le hi (valuesOf current)
  rw [← Landscape.neighbourFitness_eq hi]
  unfold flipFitness
  rw [htouched]
  simp only [bind, Except.bind, pure, Except.pure]
  rw [checkedFitnessAmong_eq hrange]
  simp only [hflip, hback, checkedSub_eq_ok hle]
  rw [checkedFitnessAmong_eq (by simpa using hrange), valuesOf_modify (hsize ▸ hi)]
  rfl

end Falsifier.Search
