import Falsifier.SolveError

/-!
# Settings of the local search

The local search gives up after a number of iterations, and starts afresh when it has made many
moves since its last start. Both numbers must be positive.
-/

namespace Falsifier.Search

/-- The limits of a local search. -/
structure Config where
  /-- Iterations before the search gives up. -/
  maxIterations : Nat
  /-- Moves that may follow a start before a new start is forced. -/
  maxStall : Nat
deriving DecidableEq

namespace Config

/-- The limits that are used when none are given. -/
def standard : Config := ⟨1000, 80⟩

/-- Refuse limits of zero. -/
def check (c : Config) : Except ConfigError Unit :=
  if c.maxIterations = 0 then .error .zeroIterations
  else if c.maxStall = 0 then .error .zeroStall
  else .ok ()

theorem check_eq_ok_iff {c : Config} :
    c.check = .ok () ↔ 0 < c.maxIterations ∧ 0 < c.maxStall := by
  unfold check
  split
  · simp [*]
  · split
    · simp [*]
    · simp only [true_iff]
      omega

end Config
end Falsifier.Search
