import SpikingNeuralP.Topology.EffectMatrix
import SpikingNeuralP.Step.Release

/-!
# Gain

The spikes a neuron gains in a step: the sum of its row of the effect matrix,
each cell taken as often as its rule acts or receives a spike.  The sum is exact
as long as no partial sum leaves sixty-four signed bits, and a spike count must
fit thirty-two.
-/

namespace SpikingNeuralP

/-- The value itself if it fits a signed word of sixty-four bits. -/
def within64? (value : Int) : Option Int :=
  if Int64.minValue.toInt ≤ value ∧ value ≤ Int64.maxValue.toInt then some value else none

/-- The spike count of the given value if it fits a signed word of thirty-two
bits. -/
def spikeCount? (value : Int) : Option Int32 :=
  if Int32.minValue.toInt ≤ value ∧ value ≤ Int32.maxValue.toInt then
    some (Int32.ofInt value)
  else
    none

/-- How often a rule contributes its cell: once if it acts, and once for each
spike from the environment. -/
def multiplicity (acting : List Bool) (train : Option (List UInt32)) (rule : Nat) : Nat :=
  (acting.getD rule false).toNat + (arrivals train rule).toNat

/-- Adds the cells of a row to `total`, the first of them belonging to `rule`;
`none` when a product or a partial sum does not fit. -/
def gainFrom (acting : List Bool) (train : Option (List UInt32)) :
    Nat → Int → List Int32 → Option Int
  | _, total, [] => some total
  | rule, total, cell :: cells =>
      if cell = 0 then
        gainFrom acting train (rule + 1) total cells
      else
        let times := multiplicity acting train rule
        if times = 0 then
          gainFrom acting train (rule + 1) total cells
        else do
          let product ← within64? (Int.ofNat times * cell.toInt)
          let sum ← within64? (total + product)
          gainFrom acting train (rule + 1) sum cells

def EffectMatrix.gain? (matrix : EffectMatrix) (neuron : Nat) (acting : List Bool)
    (train : Option (List UInt32)) : Option Int :=
  gainFrom acting train 0 0 (matrix.row neuron)

/-- Whether a step adds its gain or takes it back. -/
inductive Direction where
  | forward
  | backward
  deriving DecidableEq, Repr

def Direction.apply (direction : Direction) (spikes : Int32) (gain : Int) : Int :=
  match direction with
  | .forward => spikes.toInt + gain
  | .backward => spikes.toInt - gain

/-- The spike count of one neuron after the step, `none` when it cannot be
held. -/
def EffectMatrix.settle? (matrix : EffectMatrix) (acting : List Bool)
    (train : Option (List UInt32)) (direction : Direction) (neuron : Nat) (spikes : Int32) :
    Option Int32 := do
  let gain ← matrix.gain? neuron acting train
  let moved ← within64? (direction.apply spikes gain)
  spikeCount? moved

/-- A neuron whose cooldown is not zero keeps its spikes and cannot overflow. -/
def EffectMatrix.settle (matrix : EffectMatrix) (spikes : List Int32) (cooldown : List UInt32)
    (acting : List Bool) (train : Option (List UInt32)) (direction : Direction) :
    Except StepError (List Int32) :=
  spikes.zipIdx.mapM fun (count, neuron) =>
    if cooldown.getD neuron 0 = 0 then
      match matrix.settle? acting train direction neuron count with
      | some settled => .ok settled
      | none => .error (.spikeOverflow neuron)
    else
      .ok count

end SpikingNeuralP
