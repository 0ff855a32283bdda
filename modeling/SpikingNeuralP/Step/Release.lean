import SpikingNeuralP.Topology.RuleRange

/-!
# Release

Which rules act in a step, which are in flight after it and which neurons fire.
Spikes can also reach a rule from the environment, which makes its neuron fire
as if the rule had acted.
-/

namespace SpikingNeuralP

/-- The spikes the environment adds at a rule; without a train there are none. -/
def arrivals (train : Option (List UInt32)) (rule : Nat) : UInt32 :=
  (train.getD []).getD rule 0

/-- A rule acts when its neuron is open after the step and the rule is either
chosen without delay or was in flight. -/
def actingRules (cooldown : List UInt32) (decision inFlight : List Bool) (delays : List UInt32)
    (ranges : RuleRanges) : List Bool :=
  ranges.enumerate.flatMap fun (neuron, range) =>
    range.rules.map fun rule =>
      cooldown.getD neuron 0 == 0 &&
        (decision.getD rule false && delays.getD rule 0 == 0 || inFlight.getD rule false)

/-- A rule stays in flight until it acts, and takes off when it is chosen with a
delay. -/
def nextInFlight (inFlight acting decision : List Bool) (delays : List UInt32) : List Bool :=
  inFlight.zipIdx.map fun (flying, rule) =>
    flying && !acting.getD rule false ||
      decision.getD rule false && decide (0 < delays.getD rule 0)

def firingNeurons (acting : List Bool) (train : Option (List UInt32)) (ranges : RuleRanges) :
    List Bool :=
  ranges.enumerate.map fun (_, range) =>
    range.any fun rule => acting.getD rule false || decide (0 < arrivals train rule)

@[simp]
theorem length_nextInFlight (inFlight acting decision : List Bool) (delays : List UInt32) :
    (nextInFlight inFlight acting decision delays).length = inFlight.length := by
  simp [nextInFlight]

@[simp]
theorem length_firingNeurons (acting : List Bool) (train : Option (List UInt32))
    (ranges : RuleRanges) :
    (firingNeurons acting train ranges).length = ranges.neuronCount := by
  simp [firingNeurons]

end SpikingNeuralP
