import Falsifier.Script
import Falsifier.Proofs.Evaluation

/-!
# The outcome of a script

A script whose pieces can all be produced is delivered in full to a sink without a limit
(`Script.deliver_ok`), and its text is what arrives there (`Script.text_ok`). If only one kind of
fault occurs in a script, it is the outcome of the script (`Script.text_error`).
-/

namespace Falsifier.Script

theorem deliverAfter_ok (arrived : String) (texts : List String) :
    deliverAfter arrived none (texts.map .ok) = ⟨arrived ++ String.join texts, none⟩ := by
  induction texts generalizing arrived with
  | nil =>
    show (⟨arrived, none⟩ : Delivery) = _
    rw [String.join_nil, String.append_empty]
  | cons text texts ih =>
    show deliverAfter (arrived ++ text) none (texts.map .ok) = _
    rw [ih, String.join_cons, String.append_assoc]

theorem deliver_ok (texts : List String) :
    deliver none (texts.map .ok) = ⟨String.join texts, none⟩ :=
  (deliverAfter_ok "" texts).trans (by rw [String.empty_append])

theorem text_ok (texts : List String) : text (texts.map .ok) = .ok (String.join texts) := by
  have hpieces : (texts.map .ok).mapM id = (.ok texts : Except Fault (List String)) := by
    have heach : ∀ t ∈ texts, (id ∘ Except.ok) t = (.ok (id t) : Except Fault String) :=
      fun _ _ => rfl
    rw [List.mapM_map, mapM_eq_ok heach, List.map_id]
  unfold text
  rw [hpieces]
  rfl

theorem text_error {s : Script} {f : Fault} (hmem : .error f ∈ s) (hall : ∀ g, .error g ∈ s → g = f) :
    text s = .error f := by
  have hpieces : s.mapM id = .error f := by
    induction s with
    | nil => cases hmem
    | cons piece s ih =>
      rw [List.mapM_cons]
      cases piece with
      | error g => rw [hall g (by simp)]; rfl
      | ok text =>
        rw [ih (by simpa using hmem) fun g hg => hall g (by simp [hg])]
        rfl
  unfold text
  rw [hpieces]
  rfl

/-! ### Separators -/

section Separators

variable {α β : Type}

theorem map_intersperse (f : α → β) (sep : α) (xs : List α) :
    (xs.intersperse sep).map f = (xs.map f).intersperse (f sep) := by
  induction xs with
  | nil => rfl
  | cons x xs ih =>
    rcases xs with _ | ⟨y, xs⟩
    · rfl
    · rw [List.intersperse_cons_cons, List.map_cons, List.map_cons, ih]
      rfl

theorem mem_intersperse {x sep : α} {xs : List α} (h : x ≠ sep) :
    x ∈ xs.intersperse sep ↔ x ∈ xs := by
  induction xs with
  | nil => rfl
  | cons y xs ih =>
    rcases xs with _ | ⟨z, xs⟩
    · rfl
    · rw [List.intersperse_cons_cons, List.mem_cons, List.mem_cons, ih, List.mem_cons (b := y)]
      simp [h]

end Separators

end Falsifier.Script
