import Falsifier.Sampling.Source

/-!
# Weighted slots

When a random clause is made, each variable falls into one of three slots: it occurs positively,
occurs negatively, or is absent. The slots have weights, which are doubles and need not add up
to one. Before anything is drawn, weights are rejected when one of them is negative or all are zero,
and the range below their sum faults when the sum is infinite or no number.
-/

namespace Falsifier.Sampling

/-- The weights of the three slots. -/
structure Weights where
  positive : Float
  negative : Float
  absent : Float

/-- Where a variable falls. -/
inductive Slot where
  | positive
  | negative
  | absent
deriving DecidableEq

/-- Why weights are rejected. -/
inductive WeightError where
  | negative
  | allZero
deriving DecidableEq

namespace WeightError

def name : WeightError → String
  | negative => "InvalidWeight"
  | allZero => "AllWeightsZero"

def message : WeightError → String
  | negative => "A weight is invalid."
  | allZero => "All weights are zero."

end WeightError

/-- Why weights cannot be made ready: they are rejected, or the range below their sum faults. -/
inductive WeightFailure where
  | rejected (e : WeightError)
  | fault (f : Fault)
deriving DecidableEq

namespace WeightFailure

/-- The fault of a failure that was ruled out. -/
def unexpected (expectation : String) : WeightFailure → Fault
  | rejected e => .unexpected expectation e.name
  | fault f => f

end WeightFailure

namespace Weights

/-- Weights that favour different shapes of formula. -/
def table : List Weights :=
  [⟨0.8, 0.1, 0.1⟩, ⟨0.1, 0.8, 0.1⟩, ⟨0.1, 0.1, 0.8⟩, ⟨0.6, 0.3, 0.1⟩, ⟨0.1, 0.6, 0.3⟩,
   ⟨0.3, 0.1, 0.6⟩, ⟨0.1, 0.3, 0.6⟩, ⟨0.6, 0.1, 0.3⟩, ⟨0.3, 0.6, 0.1⟩,
   ⟨1.0 / 3.0, 1.0 / 3.0, 1.0 / 3.0⟩, ⟨0.45, 0.45, 0.1⟩, ⟨0.1, 0.45, 0.45⟩, ⟨0.45, 0.1, 0.45⟩]

def total (w : Weights) : Float :=
  w.positive + w.negative + w.absent

/-- Whether the weights are accepted: first each of them, then all. -/
def check (w : Weights) : Except WeightError Unit :=
  if w.positive < 0.0 || w.negative < 0.0 || w.absent < 0.0 then .error .negative
  else if w.total == 0.0 then .error .allZero
  else .ok ()

end Weights

/-- Weights made ready for drawing: the sums of the first and of the first two, and the width of the
range from which a number is drawn. -/
structure Sampler where
  first : Float
  second : Float
  width : Float

namespace Sampler

/-- The distance between neighbouring doubles from 1 to 2. -/
def unit : Float := Float.ofBits 0x3CB0000000000000

/-- The width of the range below `total`: the total, or the next smaller double where the largest
fraction of the total would round up to the total. This happens only to subnormal totals, and one
step down is enough for them. -/
def widthBelow (total : Float) : Float :=
  if total * (1.0 - unit) ≥ total then Float.ofBits (total.toBits - 1) else total

/-- The width of the range from 0 up to `total`. -/
def checkedWidth (total : Float) : Except Fault Float :=
  if !(total > 0.0) then .error .emptyRange
  else if total.isInf then .error .endlessRange
  else .ok (widthBelow total)

/-- Make weights ready for drawing. -/
def ofWeights (w : Weights) : Except WeightFailure Sampler := do
  w.check.mapError .rejected
  let width ← (checkedWidth w.total).mapError .fault
  return ⟨w.positive, w.positive + w.negative, width⟩

/-- The slot for 64 random bits: their upper 52 are a fraction of the width, and the first sum above
that point decides. -/
def slot (d : Sampler) (bits : UInt64) : Slot :=
  let point := (bits >>> 12).toFloat * unit * d.width
  if d.first > point then .positive
  else if d.second > point then .negative
  else .absent

def draw {σ : Type} [Generator σ] (d : Sampler) (s : Source σ) : Slot × Source σ :=
  let (bits, s) := s.wide
  (d.slot bits, s)

end Sampler
end Falsifier.Sampling
