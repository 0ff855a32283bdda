import SpikingNeuralP.Topology.RuleRange
import SpikingNeuralP.Topology.EffectMatrix

/-!
# Topology

The part of a system that no step changes: how many rules each neuron has, the
delay of each rule and the effect matrix.  The three agree on the number of
neurons and of rules, and the type says so.
-/

namespace SpikingNeuralP

structure Topology where
  counts : List Nat
  delays : List UInt32
  matrix : EffectMatrix
  delays_length : delays.length = (RuleRanges.ofCounts counts).ruleCount
  matrix_neurons : matrix.neurons = counts.length
  matrix_rules : matrix.rules = (RuleRanges.ofCounts counts).ruleCount

namespace Topology

/-- The first part that does not fit the rule counts is refused: delays, then
rows, then columns. -/
def build (counts : List Nat) (delays : List UInt32) (matrix : EffectMatrix) :
    Except StepError Topology :=
  let ruleCount := (RuleRanges.ofCounts counts).ruleCount
  if hdelays : delays.length = ruleCount then
    if hrows : matrix.neurons = counts.length then
      if hcolumns : matrix.rules = ruleCount then
        .ok ⟨counts, delays, matrix, hdelays, hrows, hcolumns⟩
      else
        .error (.lengthMismatch "transition matrix columns" ruleCount matrix.rules)
    else
      .error (.lengthMismatch "transition matrix rows" counts.length matrix.neurons)
  else
    .error (.lengthMismatch "delay vector" ruleCount delays.length)

def neuronCount (topology : Topology) : Nat :=
  topology.counts.length

def ruleCount (topology : Topology) : Nat :=
  topology.delays.length

def ranges (topology : Topology) : RuleRanges :=
  .ofCounts topology.counts

@[simp]
theorem neuronCount_ranges (topology : Topology) :
    topology.ranges.neuronCount = topology.neuronCount :=
  RuleRanges.neuronCount_ofCounts topology.counts

end Topology

end SpikingNeuralP
