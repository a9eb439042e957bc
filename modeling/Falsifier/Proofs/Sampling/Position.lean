import Falsifier.Sampling.Source

/-!
# Positions in a stream

A source gives its words one after another, so all that a draw can do to it is to take some of them,
and the source after a draw is determined by their number (`Source.skip`). Most draws take equally
many words from every source (`Source.Takes`). A choice may refuse words, and how many it takes
depends on the words that come (`Source.choiceWords`).

Several operations can draw from one source in turn. `Shared` is for such operations when they may be
refused: it keeps the source in the one case as in the other, so that a refusal with words already
drawn could be told from one without.
-/

namespace Falsifier.Sampling

namespace Source

variable {σ : Type} [Generator σ]

/-- The source from which `n` more words have been taken. -/
def skip (s : Source σ) : Nat → Source σ
  | 0 => s
  | n + 1 => (s.skip n).word.2

theorem skip_add (s : Source σ) (m n : Nat) : s.skip (m + n) = (s.skip m).skip n := by
  induction n with
  | zero => rfl
  | succ n ih =>
    show (s.skip (m + n)).word.2 = ((s.skip m).skip n).word.2
    rw [ih]

@[simp] theorem drawn_skip (s : Source σ) (n : Nat) : (s.skip n).drawn = s.drawn + n := by
  induction n with
  | zero => rfl
  | succ n ih =>
    show (s.skip n).word.2.drawn = _
    rw [drawn_word, ih, Nat.add_assoc]

/-! ### Draws of a fixed length -/

/-- The draw takes `k` words from every source. -/
def Takes {α : Type} (draw : Source σ → α × Source σ) (k : Nat) : Prop :=
  ∀ s, (draw s).2 = s.skip k

theorem takes_bool : Takes (σ := σ) bool 1 := fun _ => rfl

theorem takes_wide : Takes (σ := σ) wide 2 := fun _ => rfl

theorem Takes.collect {α : Type} {draw : Source σ → α × Source σ} {k : Nat} (h : Takes draw k)
    (n : Nat) : Takes (·.collect draw n) (k * n) := by
  intro s
  induction n generalizing s with
  | zero => rfl
  | succ n ih =>
    show (s.collect draw (n + 1)).2 = _
    rw [collect_succ, Nat.mul_succ, Nat.add_comm, skip_add, ← h s]
    exact ih (draw s).2

theorem takes_bools (n : Nat) : Takes (σ := σ) (·.bools n) n := by
  intro s
  have hcollect := takes_bool.collect n s
  rwa [Nat.one_mul] at hcollect

omit [Generator σ] in
/-- More draws begin with the same results. -/
theorem collect_add {α : Type} (draw : Source σ → α × Source σ) (m n : Nat) (s : Source σ) :
    (s.collect draw (m + n)).1 = (s.collect draw m).1 ++ ((s.collect draw m).2.collect draw n).1 := by
  induction m generalizing s with
  | zero => simp
  | succ m ih =>
    rw [Nat.succ_add, collect_succ, collect_succ, ih]
    rfl

/-! ### Choices -/

theorem exists_chooseWithin_eq_skip (n k : Nat) (s : Source σ) :
    ∃ taken, 1 ≤ taken ∧ (s.chooseWithin n k).2 = s.skip taken := by
  induction k generalizing s with
  | zero => exact ⟨1, Nat.le_refl 1, rfl⟩
  | succ k ih =>
    unfold chooseWithin
    dsimp only
    split
    · exact ⟨1, Nat.le_refl 1, rfl⟩
    · -- The word was refused, and the choice is made from those after it.
      obtain ⟨taken, -, hrest⟩ := ih (s.skip 1)
      refine ⟨1 + taken, Nat.le_add_right 1 taken, ?_⟩
      rw [skip_add]
      exact hrest

/-- How many words a choice among `n` takes. -/
def choiceWords (n : Nat) (s : Source σ) : Nat :=
  (s.choose n).2.drawn - s.drawn

/-- A choice takes a word at least. -/
theorem choose_snd (n : Nat) (s : Source σ) :
    1 ≤ s.choiceWords n ∧ (s.choose n).2 = s.skip (s.choiceWords n) := by
  obtain ⟨taken, hpos, hskip⟩ := exists_chooseWithin_eq_skip n refusals s
  have htaken : s.choiceWords n = taken := by
    unfold choiceWords choose
    rw [hskip, drawn_skip, Nat.add_sub_cancel_left]
  rw [htaken]
  exact ⟨hpos, hskip⟩

end Source

/-! ### Shared sources -/

/-- A computation that draws from a source which others use after it, and which may be refused. -/
abbrev Shared (σ ε : Type) := ExceptT ε (StateM (Source σ))

namespace Shared

variable {σ ε α β : Type}

/-- Make a draw from the shared source. -/
def draw (d : Source σ → α × Source σ) : Shared σ ε α :=
  modifyGetThe (Source σ) d

variable {first : Shared σ ε α} {s t : Source σ}

theorem run_bind_of_ok {a : α} (h : first.run s = (.ok a, t)) (next : α → Shared σ ε β) :
    (first >>= next).run s = (next a).run t := by
  rw [ExceptT.run_bind]
  show StateT.bind first.run _ s = _
  rw [StateT.bind, h]
  rfl

theorem run_bind_of_error {e : ε} (h : first.run s = (.error e, t)) (next : α → Shared σ ε β) :
    (first >>= next).run s = (.error e, t) := by
  rw [ExceptT.run_bind]
  show StateT.bind first.run _ s = _
  rw [StateT.bind, h]
  rfl

end Shared

end Falsifier.Sampling
