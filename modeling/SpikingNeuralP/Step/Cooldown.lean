import SpikingNeuralP.Topology.RuleRange

/-!
# Cooldown

How long each neuron stays closed: the count goes down by one on every step, an
open neuron takes over the delay of the rule it chose, and the count before a
step is recovered from the rules that were in flight then.
-/

namespace SpikingNeuralP

/-- A neuron that is still closed counts down and ignores the decision. -/
def nextCooldown (cooldown : List UInt32) (decision : List Bool) (delays : List UInt32)
    (ranges : RuleRanges) : List UInt32 :=
  ranges.enumerate.map fun (neuron, range) =>
    let remaining := cooldown.getD neuron 0
    if 0 < remaining then
      remaining - 1
    else
      match range.firstSet? decision with
      | some rule => delays.getD rule 0
      | none => 0

/-- One more than `remaining`, except that the largest word stays. -/
def oneLonger (remaining : UInt32) : UInt32 :=
  if remaining + 1 = 0 then remaining else remaining + 1

/-- A neuron with a rule in flight was counting down, any other was open. -/
def previousCooldown (cooldown : List UInt32) (inFlight : List Bool) (ranges : RuleRanges) :
    List UInt32 :=
  ranges.enumerate.map fun (neuron, range) =>
    if range.anySet inFlight then
      oneLonger (cooldown.getD neuron 0)
    else
      0

@[simp]
theorem length_nextCooldown (cooldown : List UInt32) (decision : List Bool)
    (delays : List UInt32) (ranges : RuleRanges) :
    (nextCooldown cooldown decision delays ranges).length = ranges.neuronCount := by
  simp [nextCooldown]

@[simp]
theorem length_previousCooldown (cooldown : List UInt32) (inFlight : List Bool)
    (ranges : RuleRanges) :
    (previousCooldown cooldown inFlight ranges).length = ranges.neuronCount := by
  simp [previousCooldown]

end SpikingNeuralP
