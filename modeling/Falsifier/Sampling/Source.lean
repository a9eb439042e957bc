import Falsifier.Word

/-!
# Random sources

A random source is a stream of 32-bit words, together with the number of words drawn from it so
far. Everything random is made of words drawn in order, so two runs that start from the same source
make the same choices, and operations that share a source each begin where the one before stopped.
-/

namespace Falsifier.Sampling

/-- A state from which a stream of words unfolds. -/
class Generator (σ : Type) where
  /-- The next word, and the state after it. -/
  next : σ → UInt32 × σ

/-- A choice between two generators is a generator. -/
instance {σ τ : Type} [Generator σ] [Generator τ] : Generator (σ ⊕ τ) where
  next
    | .inl s => let (w, s) := Generator.next s; (w, .inl s)
    | .inr t => let (w, t) := Generator.next t; (w, .inr t)

/-- A generator with the count of words drawn. -/
structure Source (σ : Type) where
  generator : σ
  drawn : Nat

namespace Source

variable {σ : Type}

/-- The source from which nothing has been drawn yet. -/
def fresh (g : σ) : Source σ := ⟨g, 0⟩

/-! ### Repeated draws -/

/-- Make `n` draws in turn; `acc` holds the results before them, the last one first. -/
def collectAfter {α : Type} (draw : Source σ → α × Source σ) :
    Nat → List α → Source σ → List α × Source σ
  | 0, acc, s => (acc.reverse, s)
  | n + 1, acc, s => let (a, s) := draw s; collectAfter draw n (a :: acc) s

def collect {α : Type} (draw : Source σ → α × Source σ) (n : Nat) (s : Source σ) :
    List α × Source σ :=
  collectAfter draw n [] s

theorem collectAfter_eq {α : Type} (draw : Source σ → α × Source σ) (n : Nat) (acc : List α)
    (s : Source σ) :
    collectAfter draw n acc s = (acc.reverse ++ (s.collect draw n).1, (s.collect draw n).2) := by
  unfold collect
  induction n generalizing acc s with
  | zero => simp [collectAfter]
  | succ n ih =>
    simp only [collectAfter]
    rw [ih (_ :: acc), ih [_]]
    simp

@[simp] theorem collect_zero {α : Type} (draw : Source σ → α × Source σ) (s : Source σ) :
    s.collect draw 0 = ([], s) := rfl

theorem collect_succ {α : Type} (draw : Source σ → α × Source σ) (n : Nat) (s : Source σ) :
    s.collect draw (n + 1) =
      ((draw s).1 :: ((draw s).2.collect draw n).1, ((draw s).2.collect draw n).2) := by
  show collectAfter draw n [(draw s).1] (draw s).2 = _
  rw [collectAfter_eq]
  simp

@[simp] theorem length_collect {α : Type} (draw : Source σ → α × Source σ) (n : Nat)
    (s : Source σ) : (s.collect draw n).1.length = n := by
  induction n generalizing s with
  | zero => rfl
  | succ n ih => simp [collect_succ, ih]

/-! ### Single draws -/

variable [Generator σ]

def word (s : Source σ) : UInt32 × Source σ :=
  let (w, g) := Generator.next s.generator
  (w, ⟨g, s.drawn + 1⟩)

/-- Draw a truth value: the top bit of a word. -/
def bool (s : Source σ) : Bool × Source σ :=
  let (w, s) := s.word
  (decide (shortBound ≤ 2 * w.toNat), s)

/-- Draw 64 bits: two words, the low half first. -/
def wide (s : Source σ) : UInt64 × Source σ :=
  let (low, s) := s.word
  let (high, s) := s.word
  (high.toUInt64 <<< 32 ||| low.toUInt64, s)

def bools (n : Nat) (s : Source σ) : List Bool × Source σ :=
  s.collect bool n

theorem length_bools (n : Nat) (s : Source σ) : (s.bools n).1.length = n :=
  length_collect _ _ _

/-! ### Choices

To choose among `n` things a word `w` is scaled to the fraction `w * n / shortBound`. Its whole part
is the choice. Words whose fractional part lies above the `zone` are drawn again: the zone is `n`
doubled as often as fits in 32 bits, less one, so that every choice keeps equally many words. -/

/-- The largest fractional part that is accepted for a choice among `n`. -/
def zone (n : Nat) : Nat :=
  n <<< (31 - n.log2) - 1

/-- How many words in a row may be refused. The next one is then taken as it is, so that a choice
ends whatever the source yields. -/
def refusals : Nat := shortBound

/-- Choose a number below `n`, refusing at most the given count of words. -/
def chooseWithin (n : Nat) : Nat → Source σ → Nat × Source σ
  | 0, s => let (w, s) := s.word; (w.toNat * n / shortBound, s)
  | k + 1, s =>
    let (w, s) := s.word
    if w.toNat * n % shortBound ≤ zone n then (w.toNat * n / shortBound, s) else chooseWithin n k s

def choose (n : Nat) (s : Source σ) : Nat × Source σ :=
  chooseWithin n refusals s

theorem chooseWithin_lt {n : Nat} (hn : 0 < n) (k : Nat) (s : Source σ) :
    (chooseWithin n k s).1 < n := by
  have scaled (w : UInt32) : w.toNat * n / shortBound < n := by
    rw [Nat.div_lt_iff_lt_mul (by decide), Nat.mul_comm]
    exact Nat.mul_lt_mul_of_pos_left w.toNat_lt hn
  induction k generalizing s with
  | zero => exact scaled _
  | succ k ih =>
    unfold chooseWithin
    dsimp only
    split
    · exact scaled _
    · exact ih _

theorem choose_lt {n : Nat} (hn : 0 < n) (s : Source σ) : (s.choose n).1 < n :=
  chooseWithin_lt hn _ s

/-- Choose one of the entries of a list that has some. -/
def pick {α : Type} (x : α) (xs : List α) (s : Source σ) : α × Source σ :=
  let choice := s.choose (x :: xs).length
  ((x :: xs).get ⟨choice.1, choose_lt (by simp) s⟩, choice.2)

theorem mem_pick {α : Type} (x : α) (xs : List α) (s : Source σ) : (s.pick x xs).1 ∈ x :: xs :=
  List.get_mem _ _

/-! ### How many words are drawn -/

@[simp] theorem drawn_word (s : Source σ) : s.word.2.drawn = s.drawn + 1 := rfl

@[simp] theorem drawn_bool (s : Source σ) : s.bool.2.drawn = s.drawn + 1 := rfl

@[simp] theorem drawn_wide (s : Source σ) : s.wide.2.drawn = s.drawn + 2 := rfl

end Source
end Falsifier.Sampling
