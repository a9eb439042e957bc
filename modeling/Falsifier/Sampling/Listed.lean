import Falsifier.Sampling.Source

/-!
# Listed words

A source that yields given words in order. When they run out it goes on with a linear congruential
sequence that starts from the last of them.
-/

namespace Falsifier.Sampling

/-- The words still to come, and the number from which the sequence after them goes on. -/
structure Listed where
  words : List UInt32
  seed : UInt32

namespace Listed

/-- The source of these words. -/
def ofWords (ws : List UInt32) : Listed :=
  ⟨ws, ws.getLastD 0⟩

/-- The number after `x` in the sequence that follows the listed words. -/
def successor (x : UInt32) : UInt32 :=
  x * 1664525 + 1013904223

instance : Generator Listed where
  next
    | ⟨w :: ws, x⟩ => (w, ⟨ws, x⟩)
    | ⟨[], x⟩ => (successor x, ⟨[], successor x⟩)

end Listed
end Falsifier.Sampling
