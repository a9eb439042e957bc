import Mathlib.Data.List.Basic
import Falsifier.Formula.Display
import Falsifier.Proofs.Dimacs.Text

/-!
# Formulas are known by their text

A literal is shown with digits and `!`, the literals of a clause are kept apart by `&`, and the
clauses by `|`. No part of a text has the mark that keeps it apart from the others, so the parts can
be read off the text (`intercalate_map_inj`). Parentheses are put around several literals, and only
the empty clause and the empty formula are shown with letters. So formulas with the same text are the
same (`Dnf.display_inj`).
-/

namespace Falsifier

/-! ### Parts between separators -/

section Separators

variable {m : Char}

/-- A text can be cut in one way only at the first place of a mark. -/
theorem eq_of_append_cons_eq {before before' after after' : List Char} (h : m ∉ before)
    (h' : m ∉ before') (heq : before ++ m :: after = before' ++ m :: after') :
    before = before' ∧ after = after' := by
  have hlength : before.length = before'.length := by
    have hplace := congrArg (List.idxOf m) heq
    rw [List.idxOf_append_of_notMem h, List.idxOf_append_of_notMem h', List.idxOf_cons_self,
      List.idxOf_cons_self] at hplace
    exact hplace
  obtain ⟨hbefore, hrest⟩ := List.append_inj heq hlength
  exact ⟨hbefore, (List.cons.inj hrest).2⟩

/-- Parts without a mark that the separator has can be read off the text. -/
theorem intercalate_inj {sep : List Char} (hm : m ∈ sep) {xs ys : List (List Char)} (hx : xs ≠ [])
    (hy : ys ≠ []) (hxs : ∀ x ∈ xs, m ∉ x) (hys : ∀ y ∈ ys, m ∉ y)
    (h : sep.intercalate xs = sep.intercalate ys) : xs = ys := by
  obtain ⟨start, rest, hsep, hstart⟩ := List.eq_append_cons_of_mem hm
  induction xs generalizing ys with
  | nil => exact absurd rfl hx
  | cons x xs ih =>
    obtain ⟨y, ys, rfl⟩ := List.exists_cons_of_ne_nil hy
    rw [List.forall_mem_cons] at hxs hys
    rcases xs with _ | ⟨x', xs⟩ <;> rcases ys with _ | ⟨y', ys⟩
    · rw [List.intercalate_singleton, List.intercalate_singleton] at h
      rw [h]
    · rw [List.intercalate_singleton, List.intercalate_cons_cons] at h
      exact absurd (by rw [h]; simp [hm]) hxs.1
    · rw [List.intercalate_singleton, List.intercalate_cons_cons] at h
      exact absurd (by rw [← h]; simp [hm]) hys.1
    · -- Before the first mark stand the first part and the start of the separator.
      have hcut (p q : List Char) : p ++ sep ++ q = (p ++ start) ++ m :: (rest ++ q) := by
        simp [hsep]
      rw [List.intercalate_cons_cons, List.intercalate_cons_cons, hcut, hcut] at h
      obtain ⟨hfirst, hothers⟩ :=
        eq_of_append_cons_eq (by simp [hxs.1, hstart]) (by simp [hys.1, hstart]) h
      rw [List.append_cancel_right hfirst,
        ih (by simp) (by simp) hxs.2 hys.2 (List.append_cancel_left hothers)]

theorem intercalate_map_inj {α : Type} {sep : String} (hm : m ∈ sep.toList) {f : α → String}
    (hf : Function.Injective f) (hfree : ∀ x, m ∉ (f x).toList) {xs ys : List α} (hx : xs ≠ [])
    (hy : ys ≠ []) (h : sep.intercalate (xs.map f) = sep.intercalate (ys.map f)) : xs = ys := by
  have htexts := congrArg String.toList h
  rw [String.toList_intercalate, String.toList_intercalate, List.map_map, List.map_map] at htexts
  have hparts : ∀ zs : List α, ∀ text ∈ zs.map (String.toList ∘ f), m ∉ text := by
    intro zs
    rw [List.forall_mem_map]
    exact fun z _ => hfree z
  have hlists := intercalate_inj hm (by simpa using hx) (by simpa using hy) (hparts xs) (hparts ys)
    htexts
  exact List.map_injective_iff.2 (fun x y hxy => hf (String.toList_injective hxy)) hlists

theorem notMem_intercalate {sep : String} {xs : List String} (hsep : m ∉ sep.toList)
    (hxs : ∀ x ∈ xs, m ∉ x.toList) : m ∉ (sep.intercalate xs).toList := by
  rw [String.toList_intercalate]
  exact Dimacs.notMem_intercalate hsep (List.forall_mem_map.2 hxs)

end Separators

/-! ### Literals -/

theorem Literal.display_injective : Function.Injective Literal.display := by
  have hnumber {v w : Nat} (h : toString v = toString w) : v = w := by
    have hv := (Dimacs.digits_toString v).value_eq
    rw [h, (Dimacs.digits_toString w).value_eq] at hv
    exact hv.symm
  have hsign (v w : Nat) : toString v ≠ "!" ++ toString w := by
    intro h
    have hcons : (toString v).toList = '!' :: (toString w).toList := by
      rw [h, String.toList_append]
      rfl
    exact (Dimacs.digits_toString v).head_ne rfl hcons
  intro l l' h
  cases l with
  | pos v =>
    cases l' with
    | pos w => exact congrArg pos (hnumber h)
    | neg w => exact absurd h (hsign v w)
  | neg v =>
    cases l' with
    | pos w => exact absurd h.symm (hsign w v)
    | neg w => exact congrArg neg (hnumber ((String.append_right_inj "!").1 h))

/-- A literal is shown with digits and `!`. -/
theorem Literal.notMem_display {c : Char} (hmark : c ≠ '!') (hdigit : c.isDigit = false)
    (l : Literal) : c ∉ l.display.toList := by
  have hnumber (v : Nat) : c ∉ (toString v).toList := by
    intro hmem
    have hc := (Dimacs.digits_toString v).isDigit c hmem
    rw [hdigit] at hc
    cases hc
  cases l with
  | pos v => exact hnumber v
  | neg v =>
    show c ∉ ("!" ++ toString v).toList
    rw [String.toList_append, List.mem_append, not_or]
    exact ⟨fun hmem => hmark (List.mem_singleton.1 hmem), hnumber v⟩

/-! ### Clauses -/

namespace Clause

/-- Literals can be read off the text between the parentheses. -/
theorem eq_of_intercalate_eq {ls ms : Clause} (hl : ls ≠ []) (hm : ms ≠ [])
    (h : " & ".intercalate (ls.map Literal.display) = " & ".intercalate (ms.map Literal.display)) :
    ls = ms :=
  intercalate_map_inj (m := '&') (by decide) Literal.display_injective
    (Literal.notMem_display (by decide) rfl) hl hm h

/-- Letters are used for the empty clause only. -/
theorem notMem_display {c : Char} (hmark : c ∉ "!() &".toList) (hdigit : c.isDigit = false)
    {ls : Clause} (hempty : ls = [] → c ∉ "true".toList) : c ∉ ls.display.toList := by
  have hmarks : ∀ text ∈ ["!", "(", " & ", ")"], ∀ d ∈ text.toList, d ∈ "!() &".toList := by simp
  have hfree {text : String} (htext : text ∈ ["!", "(", " & ", ")"]) : c ∉ text.toList :=
    fun hc => hmark (hmarks text htext c hc)
  have hliteral : ∀ l : Literal, c ∉ l.display.toList :=
    Literal.notMem_display (fun heq => hmark (heq ▸ by decide)) hdigit
  rcases ls with _ | ⟨l, _ | ⟨l', ls⟩⟩
  · exact hempty rfl
  · exact hliteral l
  · have hrow : c ∉ (" & ".intercalate ((l :: l' :: ls).map Literal.display)).toList :=
      notMem_intercalate (hfree (by simp)) (List.forall_mem_map.2 fun l _ => hliteral l)
    show c ∉ ("(" ++ " & ".intercalate ((l :: l' :: ls).map Literal.display) ++ ")").toList
    rw [String.toList_append, String.toList_append, List.mem_append, List.mem_append, not_or, not_or]
    exact ⟨⟨hfree (by simp), hrow⟩, hfree (by simp)⟩

/-- Parentheses are put around several literals, and not around one. -/
theorem display_singleton_ne (l m m' : Literal) (ms : Clause) :
    display [l] ≠ display (m :: m' :: ms) := by
  intro h
  refine Literal.notMem_display (c := '(') (by decide) rfl l ?_
  show '(' ∈ (display [l]).toList
  rw [h]
  show '(' ∈ ("(" ++ " & ".intercalate ((m :: m' :: ms).map Literal.display) ++ ")").toList
  simp

theorem display_ne_true {ls : Clause} (hls : ls ≠ []) : ls.display ≠ display [] := by
  intro h
  refine notMem_display (c := 't') (by decide) rfl (fun heq => absurd heq hls) ?_
  rw [h]
  decide

theorem display_injective : Function.Injective display := by
  intro ls ms h
  rcases ls with _ | ⟨l, _ | ⟨l', ls⟩⟩ <;> rcases ms with _ | ⟨m, _ | ⟨m', ms⟩⟩
  · rfl
  · exact absurd h.symm (display_ne_true (List.cons_ne_nil _ _))
  · exact absurd h.symm (display_ne_true (List.cons_ne_nil _ _))
  · exact absurd h (display_ne_true (List.cons_ne_nil _ _))
  · exact congrArg ([·]) (Literal.display_injective h)
  · exact absurd h (display_singleton_ne l m m' ms)
  · exact absurd h (display_ne_true (List.cons_ne_nil _ _))
  · exact absurd h.symm (display_singleton_ne m l l' ls)
  · exact eq_of_intercalate_eq (List.cons_ne_nil _ _) (List.cons_ne_nil _ _)
      ((String.append_right_inj "(").1 ((String.append_left_inj ")").1 h))

end Clause

/-! ### Formulas -/

namespace Dnf

theorem display_ne_false {cs : List Clause} (hcs : cs ≠ []) : display ⟨cs⟩ ≠ display ⟨[]⟩ := by
  intro h
  have hclause (ls : Clause) : 'f' ∉ ls.display.toList :=
    Clause.notMem_display (by decide) rfl fun _ => by decide
  have hrow : 'f' ∉ (" | ".intercalate (cs.map Clause.display)).toList :=
    notMem_intercalate (by decide) (List.forall_mem_map.2 fun ls _ => hclause ls)
  obtain ⟨c, cs, rfl⟩ := List.exists_cons_of_ne_nil hcs
  refine hrow ?_
  show 'f' ∈ (display ⟨c :: cs⟩).toList
  rw [h]
  decide

/-- **Formulas are known by their text.** Two formulas are shown alike only when they have the same
clauses with the same literals, in the same order. -/
theorem display_inj {f g : Dnf} : f.display = g.display ↔ f = g := by
  refine ⟨fun h => ?_, congrArg display⟩
  obtain ⟨cs⟩ := f
  obtain ⟨ds⟩ := g
  rcases cs with _ | ⟨c, cs⟩ <;> rcases ds with _ | ⟨d, ds⟩
  · rfl
  · exact absurd h.symm (display_ne_false (List.cons_ne_nil _ _))
  · exact absurd h (display_ne_false (List.cons_ne_nil _ _))
  · have hclause (ls : Clause) : '|' ∉ ls.display.toList :=
      Clause.notMem_display (by decide) rfl fun _ => by decide
    exact congrArg mk (intercalate_map_inj (by decide) Clause.display_injective hclause
      (List.cons_ne_nil _ _) (List.cons_ne_nil _ _) h)

end Dnf
end Falsifier
