import Falsifier.Proofs.Evaluation
import Falsifier.Search.Landscape

/-!
# Prepared formulas

What preparing a formula for local search keeps of it. The fitness is the number of clauses that
are not false (`Landscape.fitness_ofDnf`), the occurrences at a position are the indices of the
clauses that mention its variable, each once and in order (`Landscape.occurrences_ofDnf`), and so
the fitness of a neighbour that is found from the occurrences is the fitness that counting all
clauses would give (`Landscape.neighbourFitness_eq`).
-/

namespace Falsifier.Search

/-! ### Positions and valuations -/

/-- The valuation that gives each of the variables the value at its position. -/
def valuation (vars : List Var) (values : Nat → Bool) : Valuation :=
  fun v => values (vars.idxOf v)

theorem survives_map_ofLiteral (vars : List Var) (values : Nat → Bool) (c : Clause) :
    survives (c.map (Spot.ofLiteral vars)) values = !c.falseUnder (valuation vars values) := by
  unfold survives Clause.falseUnder
  rw [List.all_map, List.not_any_eq_all_not]
  congr 1
  funext l
  rw [Bool.not_not]
  rfl

/-- The variable of a literal stands at the position that the literal is given. -/
theorem getElem?_position {f : Dnf} {c : Clause} {l : Literal} (hc : c ∈ f.clauses) (hl : l ∈ c) :
    f.vars[(Spot.ofLiteral f.vars l).position]? = some l.var := by
  have hlt : f.vars.idxOf l.var < f.vars.length :=
    List.idxOf_lt_length_of_mem (Dnf.var_mem_vars hc hl)
  show f.vars[f.vars.idxOf l.var]? = _
  rw [List.getElem?_eq_getElem hlt, List.getElem_idxOf]

/-! ### Changing one value -/

/-- Whether a clause has a literal at a position. -/
def mentions (i : Nat) (c : List Spot) : Bool :=
  c.any (·.position == i)

/-- A clause that does not mention the position is not affected by a change there. -/
theorem survives_flipped {i : Nat} {c : List Spot} (h : mentions i c = false)
    (values : Nat → Bool) : survives c (flipped values i) = survives c values := by
  unfold survives
  rw [Bool.eq_iff_iff, List.all_eq_true, List.all_eq_true]
  unfold mentions at h
  rw [List.any_eq_false] at h
  apply forall₂_congr
  intro s hs
  have hne : s.position ≠ i := by simpa using h s hs
  unfold Spot.holds flipped
  rw [if_neg hne]

/-! ### Occurrences -/

namespace Landscape

/-- The indices of the clauses that mention position `i`, when the first clause has the index
`start`. -/
def indicesFrom (i : Nat) : Nat → List (List Spot) → List Nat
  | _, [] => []
  | start, c :: cs =>
    if mentions i c then start :: indicesFrom i (start + 1) cs else indicesFrom i (start + 1) cs

theorem mem_indicesFrom {i start k : Nat} {cs : List (List Spot)} :
    k ∈ indicesFrom i start cs ↔
      start ≤ k ∧ ∃ c, cs[k - start]? = some c ∧ mentions i c = true := by
  induction cs generalizing start with
  | nil => simp [indicesFrom]
  | cons c cs ih =>
      -- The indices that follow come from the clauses after the first.
      have later : k ∈ indicesFrom i (start + 1) cs ↔
          start < k ∧ ∃ c', (c :: cs)[k - start]? = some c' ∧ mentions i c' = true := by
        rw [ih]
        apply and_congr_right
        intro hk
        obtain ⟨d, hd⟩ : ∃ d, k - start = d + 1 := ⟨k - start - 1, by omega⟩
        have hd' : k - (start + 1) = d := by omega
        rw [hd, hd', List.getElem?_cons_succ]
      unfold indicesFrom
      by_cases hc : mentions i c = true
      · rw [if_pos hc, List.mem_cons, later]
        constructor
        · rintro (rfl | ⟨hk, h⟩)
          · exact ⟨Nat.le_refl _, c, by simp, hc⟩
          · exact ⟨Nat.le_of_lt hk, h⟩
        · rintro ⟨hk, h⟩
          rcases Nat.eq_or_lt_of_le hk with rfl | hk
          · exact Or.inl rfl
          · exact Or.inr ⟨hk, h⟩
      · rw [if_neg hc, later]
        constructor
        · rintro ⟨hk, h⟩
          exact ⟨Nat.le_of_lt hk, h⟩
        · rintro ⟨hk, c', hc', hm⟩
          -- The first clause does not mention the position, so the index is not its own.
          refine ⟨Nat.lt_of_le_of_ne hk ?_, c', hc', hm⟩
          rintro rfl
          rw [Nat.sub_self, List.getElem?_cons_zero, Option.some.injEq] at hc'
          exact hc (hc' ▸ hm)

theorem pairwise_indicesFrom (i start : Nat) (cs : List (List Spot)) :
    (indicesFrom i start cs).Pairwise (· < ·) := by
  induction cs generalizing start with
  | nil => exact List.Pairwise.nil
  | cons c cs ih =>
      unfold indicesFrom
      split
      · refine List.pairwise_cons.2 ⟨fun k hk => ?_, ih _⟩
        exact (mem_indicesFrom.1 hk).1
      · exact ih _

/-- Counting over the indices is counting over the clauses that mention the position. -/
theorem countP_indicesFrom (p : List Spot → Bool) (i : Nat) (before cs : List (List Spot)) :
    (indicesFrom i before.length cs).countP (fun k => p ((before ++ cs).getD k [])) =
      cs.countP fun c => mentions i c && p c := by
  -- An index points into the whole list, so the clauses passed by are kept in `before`.
  induction cs generalizing before with
  | nil => rfl
  | cons c cs ih =>
      have hget : (before ++ c :: cs).getD before.length [] = c := by simp
      have ih' := ih (before ++ [c])
      rw [List.length_append, List.length_singleton, List.append_assoc, List.singleton_append] at ih'
      rw [List.countP_cons]
      unfold indicesFrom
      by_cases hc : mentions i c = true
      · rw [if_pos hc, List.countP_cons, ih', hget, hc, Bool.true_and]
      · rw [if_neg hc, ih']
        simp [hc]

/-- A prepared clause mentions the position of a variable when the clause mentions the variable. -/
theorem mentions_map_ofLiteral {f : Dnf} {c : Clause} (hc : c ∈ f.clauses) {i : Nat} {v : Var}
    (hv : f.vars[i]? = some v) :
    mentions i (c.map (Spot.ofLiteral f.vars)) = true ↔ ∃ l ∈ c, l.var = v := by
  unfold mentions
  rw [List.any_map, List.any_eq_true]
  apply exists_congr
  intro l
  apply and_congr_right
  intro hl
  have hposition := getElem?_position hc hl
  have hlt := (List.getElem?_eq_some_iff.1 hposition).1
  rw [Function.comp_apply, beq_iff_eq]
  constructor
  · rintro rfl
    exact Option.some.inj (hposition.symm.trans hv)
  · rintro rfl
    exact (List.getElem?_inj hlt f.nodup_vars).1 (hposition.trans hv.symm)

/-! ### Collecting the occurrences -/

theorem enter_enter (k : Nat) (row : Array Nat) : enter k (enter k row) = enter k row := by
  by_cases h : row.back? = some k
  · simp [enter, h]
  · simp [enter, h]

/-- However often a clause mentions a position, its index is entered there once. -/
theorem getElem?_enterClause (rows : Array (Array Nat)) (k : Nat) (c : List Spot) (i : Nat) :
    (enterClause rows k c)[i]? =
      rows[i]?.map fun row => if mentions i c then enter k row else row := by
  induction c generalizing rows with
  | nil => simp [enterClause, mentions]
  | cons s c ih =>
      have hstep : enterClause rows k (s :: c) =
          enterClause (rows.modify s.position (enter k)) k c := rfl
      have hcons : mentions i (s :: c) = (s.position == i || mentions i c) := rfl
      rw [hstep, ih, Array.getElem?_modify, hcons]
      by_cases hs : s.position = i
      · rw [if_pos hs, Option.map_map, beq_iff_eq.2 hs, Bool.true_or]
        congr 1
        funext row
        rw [Function.comp_apply, if_pos rfl]
        -- The index is entered now, and once more if the rest mentions the position too.
        split
        · exact enter_enter k row
        · rfl
      · rw [if_neg hs, beq_eq_false_iff_ne.2 hs, Bool.false_or]

/-- The rows that the pass has made hold indices below the next one, which is therefore not the last
of a row. -/
theorem getElem?_foldl_enterClause {cs : List (List Spot)} {start : Nat}
    {rows : Array (Array Nat)} {i : Nat} {row : Array Nat} (hrow : rows[i]? = some row)
    (hlt : ∀ k ∈ row, k < start) :
    ((cs.zipIdx start).foldl (fun rows (c, k) => enterClause rows k c) rows)[i]? =
      some (row ++ (indicesFrom i start cs).toArray) := by
  induction cs generalizing start rows row with
  | nil => simp [indicesFrom, hrow]
  | cons c cs ih =>
      have hnext := getElem?_enterClause rows start c i
      rw [hrow, Option.map_some] at hnext
      have hnew : enter start row = row.push start := by
        unfold enter
        rw [if_neg]
        intro hback
        exact Nat.lt_irrefl start (hlt start (Array.mem_of_back? hback))
      rw [List.zipIdx_cons, List.foldl_cons]
      unfold indicesFrom
      by_cases hc : mentions i c = true
      · rw [if_pos hc, hnew] at hnext
        rw [if_pos hc, ih hnext]
        · simp
        · intro k hk
          rcases Array.mem_push.1 hk with hk | rfl
          · exact Nat.lt_succ_of_lt (hlt k hk)
          · exact Nat.lt_succ_self k
      · rw [if_neg hc] at hnext
        rw [if_neg hc, ih hnext fun k hk => Nat.lt_succ_of_lt (hlt k hk)]

theorem size_foldl_enterClause (cs : List (List Spot × Nat)) (rows : Array (Array Nat)) :
    (cs.foldl (fun rows (c, k) => enterClause rows k c) rows).size = rows.size := by
  have hclause (rows : Array (Array Nat)) (k : Nat) (c : List Spot) :
      (enterClause rows k c).size = rows.size := by
    unfold enterClause
    induction c generalizing rows with
    | nil => rfl
    | cons s c ih => rw [List.foldl_cons, ih, Array.size_modify]
  induction cs generalizing rows with
  | nil => rfl
  | cons c cs ih => rw [List.foldl_cons, ih, hclause]

theorem getElem?_occurrencesOf {n i : Nat} (hi : i < n) (cs : List (List Spot)) :
    (occurrencesOf n cs)[i]? = some (indicesFrom i 0 cs).toArray := by
  have hrow : (Array.replicate n (#[] : Array Nat))[i]? = some #[] := by
    rw [Array.getElem?_replicate, if_pos hi]
  unfold occurrencesOf
  rw [getElem?_foldl_enterClause hrow (by simp), Array.empty_append]

/-- The occurrences at a position are the indices of the clauses that mention it. -/
theorem occurrences_ofDnf {f : Dnf} {i : Nat} (hi : i < f.vars.length) :
    (ofDnf f).occurrences[i]? =
      some (indicesFrom i 0 (f.clauses.map (·.map (Spot.ofLiteral f.vars)))).toArray :=
  getElem?_occurrencesOf hi _

/-- The row of a variable lists the clauses that mention it, each once and in order. -/
theorem exists_row {f : Dnf} {i : Nat} {v : Var} (hv : (ofDnf f).vars[i]? = some v) :
    ∃ row, (ofDnf f).occurrences[i]? = some row ∧ row.toList.Pairwise (· < ·) ∧
      ∀ k, k ∈ row ↔ ∃ c, f.clauses[k]? = some c ∧ ∃ l ∈ c, l.var = v := by
  have hv' : f.vars[i]? = some v := by
    rw [← hv]
    exact List.getElem?_toArray.symm
  refine ⟨_, occurrences_ofDnf (List.getElem?_eq_some_iff.1 hv').1, pairwise_indicesFrom _ _ _, ?_⟩
  intro k
  rw [List.mem_toArray, mem_indicesFrom, Nat.sub_zero, List.getElem?_map]
  constructor
  · rintro ⟨-, spots, hspots, hm⟩
    obtain ⟨c, hc, rfl⟩ := Option.map_eq_some_iff.1 hspots
    exact ⟨c, hc, (mentions_map_ofLiteral (List.mem_of_getElem? hc) hv').1 hm⟩
  · rintro ⟨c, hc, hm⟩
    refine ⟨Nat.zero_le k, _, Option.map_eq_some_iff.2 ⟨c, hc, rfl⟩, ?_⟩
    exact (mentions_map_ofLiteral (List.mem_of_getElem? hc) hv').2 hm

/-- Reading the positions back gives the literals. -/
theorem map_clauses_ofDnf (f : Dnf) :
    (ofDnf f).clauses.toList.map (·.map fun p => ((ofDnf f).vars[p.position]?, p.positive)) =
      f.clauses.map (·.map fun l => (some l.var, l.positive)) := by
  show (f.clauses.map (·.map (Spot.ofLiteral f.vars))).map _ = _
  rw [List.map_map]
  apply List.map_congr_left
  intro c hc
  rw [Function.comp_apply, List.map_map]
  apply List.map_congr_left
  intro l hl
  have hget : (ofDnf f).vars[(Spot.ofLiteral f.vars l).position]? = some l.var :=
    List.getElem?_toArray.trans (getElem?_position hc hl)
  rw [Function.comp_apply, hget]
  rfl

/-- Every position is that of a variable. -/
theorem position_lt {f : Dnf} (c : List Spot) (hc : c ∈ (ofDnf f).clauses) (p : Spot)
    (hp : p ∈ c) : p.position < (ofDnf f).vars.size := by
  obtain ⟨c', hc', rfl⟩ := List.mem_map.1 (List.mem_toArray.1 hc)
  obtain ⟨l, hl, rfl⟩ := List.mem_map.1 hp
  exact (List.getElem?_eq_some_iff.1 (getElem?_position hc' hl)).1

theorem size_occurrences_ofDnf (f : Dnf) : (ofDnf f).occurrences.size = f.vars.length := by
  show (occurrencesOf _ _).size = _
  unfold occurrencesOf
  rw [size_foldl_enterClause, Array.size_replicate]

/-! ### Fitness -/

theorem fitness_ofDnf (f : Dnf) (values : Nat → Bool) :
    (ofDnf f).fitness values =
      f.clauses.countP fun c => !c.falseUnder (valuation f.vars values) := by
  show (f.clauses.map (·.map (Spot.ofLiteral f.vars))).countP (survives · values) = _
  rw [List.countP_map]
  congr 1
  funext c
  exact survives_map_ofLiteral f.vars values c

theorem fitness_ofDnf_le (f : Dnf) (values : Nat → Bool) :
    (ofDnf f).fitness values ≤ f.clauses.length := by
  rw [fitness_ofDnf]
  exact List.countP_le_length

/-- The clauses at the occurrences are the true clauses that mention the position. -/
theorem fitnessAmong_occurrences {f : Dnf} {i : Nat} (hi : i < f.vars.length)
    (values : Nat → Bool) :
    (ofDnf f).fitnessAmong ((ofDnf f).occurrences.getD i #[]) values =
      (ofDnf f).clauses.toList.countP fun c => mentions i c && survives c values := by
  have hget (k : Nat) : (ofDnf f).clauses.getD k [] = (ofDnf f).clauses.toList.getD k [] := by
    rw [Array.getD_eq_getD_getElem?, List.getD_eq_getElem?_getD, Array.getElem?_toList]
  rw [Array.getD_eq_getD_getElem?, occurrences_ofDnf hi, Option.getD_some]
  unfold fitnessAmong
  simp only [List.countP_toArray, hget]
  exact countP_indicesFrom (survives · values) i [] _

/-- Of the true clauses, some mention a position and the others do not. -/
theorem fitness_eq_add (L : Landscape) (values : Nat → Bool) (i : Nat) :
    L.fitness values =
      L.clauses.toList.countP (fun c => mentions i c && survives c values) +
        L.clauses.toList.countP fun c => !mentions i c && survives c values := by
  unfold fitness
  rw [List.countP_eq_countP_filter_add _ _ (mentions i), List.countP_filter, List.countP_filter]
  simp only [Bool.and_comm]

/-- The clauses that do not mention a position are not affected by a change there. -/
theorem untouched_flipped (L : Landscape) (values : Nat → Bool) (i : Nat) :
    L.clauses.toList.countP (fun c => !mentions i c && survives c (flipped values i)) =
      L.clauses.toList.countP fun c => !mentions i c && survives c values := by
  congr 1
  funext c
  cases hc : mentions i c with
  | true => rfl
  | false => rw [survives_flipped hc]

/-- The clauses at the occurrences are part of those that the fitness counts. -/
theorem fitnessAmong_occurrences_le {f : Dnf} {i : Nat} (hi : i < f.vars.length)
    (values : Nat → Bool) :
    (ofDnf f).fitnessAmong ((ofDnf f).occurrences.getD i #[]) values ≤
      (ofDnf f).fitness values := by
  rw [fitnessAmong_occurrences hi, fitness_eq_add _ _ i]
  exact Nat.le_add_right _ _

/-- **The fitness of a neighbour** is found from the clauses that mention the changed position. -/
theorem neighbourFitness_eq {f : Dnf} {i : Nat} (hi : i < f.vars.length) (values : Nat → Bool) :
    (ofDnf f).neighbourFitness values ((ofDnf f).fitness values) i =
      (ofDnf f).fitness (flipped values i) := by
  -- Both split into the clauses that mention the position and the others, which stay the same.
  have before := fitness_eq_add (ofDnf f) values i
  have after := fitness_eq_add (ofDnf f) (flipped values i) i
  have untouched := untouched_flipped (ofDnf f) values i
  simp only [neighbourFitness, fitnessAmong_occurrences hi]
  omega

end Landscape

/-! ### The best neighbours -/

theorem leaders_succ (score : Nat → Nat) (n : Nat) :
    leaders score (n + 1) = consider (leaders score n) n (score n) := by
  unfold leaders
  rw [List.range_succ, List.foldl_append, List.foldl_cons, List.foldl_nil]

theorem min?_map_range_succ {score : Nat → Nat} {n least : Nat}
    (h : ((List.range n).map score).min? = some least) :
    ((List.range (n + 1)).map score).min? = some (min least (score n)) := by
  rw [List.min?_eq_some_iff] at h ⊢
  obtain ⟨hmem, hle⟩ := h
  rw [List.range_succ, List.map_append, List.map_singleton]
  constructor
  · rcases Nat.le_total least (score n) with h | h
    · rw [Nat.min_eq_left h]
      exact List.mem_append_left _ hmem
    · rw [Nat.min_eq_right h]
      exact List.mem_append_right _ (List.mem_singleton.2 rfl)
  · intro b hb
    rcases List.mem_append.1 hb with hb | hb
    · exact Nat.le_trans (Nat.min_le_left _ _) (hle b hb)
    · rw [List.mem_singleton.1 hb]
      exact Nat.min_le_right _ _

/-- The single pass over the scores finds the least of them and the positions that reach it, in
increasing order. -/
theorem leaders_eq (score : Nat → Nat) (n : Nat) :
    leaders score n = ((List.range n).map score).min?.map fun least =>
      (least, ((List.range n).filter (score · = least)).toArray) := by
  induction n with
  | zero => rfl
  | succ n ih =>
      rw [leaders_succ, ih]
      cases h : ((List.range n).map score).min? with
      | none =>
          obtain rfl : n = 0 := by simpa using h
          simp [consider, List.range_succ]
      | some least =>
          have hle : ∀ i ∈ List.range n, least ≤ score i := fun i hi =>
            (List.min?_eq_some_iff.1 h).2 _ (List.mem_map_of_mem hi)
          rw [min?_map_range_succ h]
          simp only [Option.map_some, consider, List.range_succ, List.filter_append]
          -- The new score is better than all before, as good as the best of them, or worse.
          rcases Nat.lt_trichotomy (score n) least with hlt | heq | hgt
          · have hnone : (List.range n).filter (score · = score n) = [] := by
              rw [List.filter_eq_nil_iff]
              intro i hi
              have := hle i hi
              simp only [decide_eq_true_eq]
              omega
            rw [if_pos hlt, Nat.min_eq_right (Nat.le_of_lt hlt), hnone]
            simp
          · rw [if_neg (by omega), if_pos heq, heq, Nat.min_self]
            simp [heq]
          · rw [if_neg (by omega), if_neg (by omega), Nat.min_eq_left (Nat.le_of_lt hgt)]
            simp [Nat.ne_of_gt hgt]

theorem bestFlips?_eq (L : Landscape) (values : Nat → Bool) (current : Nat) :
    L.bestFlips? values current =
      ((List.range L.vars.size).map (L.neighbourFitness values current)).min?.bind fun least =>
        if least < current then
          some (least, (List.range L.vars.size).filter (L.neighbourFitness values current · = least))
        else none := by
  unfold Landscape.bestFlips?
  rw [leaders_eq, Option.bind_map]
  rfl

/-- The best neighbours, when the fitness of each neighbour is known. -/
theorem bestFlips?_eq_of_score {L : Landscape} {values : Nat → Bool} {current : Nat}
    {score : Nat → Nat} (h : ∀ i < L.vars.size, L.neighbourFitness values current i = score i) :
    L.bestFlips? values current =
      ((List.range L.vars.size).map score).min?.bind fun least =>
        if least < current then some (least, (List.range L.vars.size).filter (score · = least))
        else none := by
  have hmap : (List.range L.vars.size).map (L.neighbourFitness values current) =
      (List.range L.vars.size).map score :=
    List.map_congr_left fun i hi => h i (List.mem_range.1 hi)
  have hfilter (least : Nat) :
      (List.range L.vars.size).filter (L.neighbourFitness values current · = least) =
        (List.range L.vars.size).filter (score · = least) :=
    List.filter_congr fun i hi => by rw [h i (List.mem_range.1 hi)]
  rw [bestFlips?_eq, hmap]
  simp only [hfilter]

theorem of_mem_bestFlips? {L : Landscape} {values : Nat → Bool} {current target : Nat}
    {ties : List Nat} (h : L.bestFlips? values current = some (target, ties)) {i : Nat}
    (hi : i ∈ ties) : i < L.vars.size ∧ L.neighbourFitness values current i = target := by
  rw [bestFlips?_eq, Option.bind_eq_some_iff] at h
  obtain ⟨least, -, h⟩ := h
  split at h
  · cases h
    rw [List.mem_filter, List.mem_range] at hi
    exact ⟨hi.1, of_decide_eq_true hi.2⟩
  · cases h

/-- The best neighbours are better than the present values. -/
theorem lt_of_bestFlips? {L : Landscape} {values : Nat → Bool} {current target : Nat}
    {ties : List Nat} (h : L.bestFlips? values current = some (target, ties)) :
    target < current := by
  rw [bestFlips?_eq, Option.bind_eq_some_iff] at h
  obtain ⟨least, -, h⟩ := h
  split at h
  · next hlt =>
    cases h
    exact hlt
  · cases h

end Falsifier.Search
