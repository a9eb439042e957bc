import Falsifier.Sampling.Source

/-!
# The ChaCha stream

A source made of the ChaCha block function with 20 rounds. Its state is a key of eight words, and
block after block of sixteen words is computed from the key and a 64-bit counter. A key can be
given directly or expanded from a 64-bit seed by a permuted congruential sequence.
-/

namespace Falsifier.Sampling

/-- Sixteen words of state or output. -/
abbrev Block := Vector UInt32 16

/-- Eight words that select a stream. -/
abbrev Key := Vector UInt32 8

namespace Block

/-- Rotate a word to the left. -/
def rotateLeft (x n : UInt32) : UInt32 :=
  (x <<< n) ||| (x >>> (32 - n))

/-- Mix four words of the state. -/
def quarterRound (a b c d : Fin 16) (s : Block) : Block :=
  let wa := s.get a + s.get b
  let wd := rotateLeft (s.get d ^^^ wa) 16
  let wc := s.get c + wd
  let wb := rotateLeft (s.get b ^^^ wc) 12
  let wa := wa + wb
  let wd := rotateLeft (wd ^^^ wa) 8
  let wc := wc + wd
  let wb := rotateLeft (wb ^^^ wc) 7
  (((s.set a wa).set b wb).set c wc).set d wd

/-- Mix the four columns, then the four diagonals. -/
def doubleRound (s : Block) : Block :=
  let s := quarterRound 0 4 8 12 s
  let s := quarterRound 1 5 9 13 s
  let s := quarterRound 2 6 10 14 s
  let s := quarterRound 3 7 11 15 s
  let s := quarterRound 0 5 10 15 s
  let s := quarterRound 1 6 11 12 s
  let s := quarterRound 2 7 8 13 s
  quarterRound 3 4 9 14 s

/-- The words that open every state. -/
def constants : Vector UInt32 4 :=
  #v[0x61707865, 0x3320646e, 0x79622d32, 0x6b206574]

/-- The words that close a state: the counter with its low word first, and two zeros. -/
def closing (counter : UInt64) : Vector UInt32 4 :=
  #v[counter.toUInt32, (counter >>> 32).toUInt32, 0, 0]

/-- The state before the rounds. -/
def initial (key : Key) (counter : UInt64) : Block :=
  constants ++ key ++ closing counter

/-- The output words of a block: twenty rounds, and the state before them added back. -/
def output (key : Key) (counter : UInt64) : Block :=
  let start := initial key counter
  (Nat.repeat doubleRound 10 start).zipWith (· + ·) start

end Block

namespace Key

/-- The congruential sequence from which a seed is expanded. -/
def expansion (seed : UInt64) : Nat → UInt64
  | 0 => seed
  | n + 1 => expansion seed n * 6364136223846793005 + 11634580027462260723

/-- The word that a number of the sequence yields: some of its upper bits, rotated to the right by
its top five. -/
def permuted (s : UInt64) : UInt32 :=
  let x := (((s >>> 18) ^^^ s) >>> 27).toUInt32
  let n := (s >>> 59).toUInt32
  (x >>> n) ||| (x <<< (32 - n))

/-- The key that a seed expands to. -/
def ofSeed (seed : UInt64) : Key :=
  Vector.ofFn fun i : Fin 8 => permuted (expansion seed (i + 1))

end Key

/-- A stream in progress: the key, the number of the next block, and the current block with the
count of its words already used. -/
structure ChaCha where
  key : Key
  counter : UInt64
  block : Block
  used : Nat

namespace ChaCha

/-- The stream of a key, from its beginning. -/
def ofKey (key : Key) : ChaCha :=
  ⟨key, 0, Vector.replicate 16 0, 16⟩

/-- The stream of a seed, from its beginning. -/
def ofSeed (seed : UInt64) : ChaCha :=
  ofKey (.ofSeed seed)

instance : Generator ChaCha where
  next c :=
    if h : c.used < 16 then (c.block[c.used], { c with used := c.used + 1 })
    else
      let block := Block.output c.key c.counter
      (block[0], { c with counter := c.counter + 1, block, used := 1 })

end ChaCha
end Falsifier.Sampling
