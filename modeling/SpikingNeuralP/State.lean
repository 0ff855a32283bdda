import SpikingNeuralP.Topology.Basic

/-!
# State

What a run changes: the spikes of every neuron, the steps every neuron stays
closed, the rules waiting out their delay and the neurons that fired last.
-/

namespace SpikingNeuralP

structure State where
  spikes : List Int32
  /-- Steps until the neuron opens again; zero for an open neuron. -/
  cooldown : List UInt32
  inFlight : List Bool
  /-- The neurons that fired in the last forward step. -/
  firing : List Bool
  deriving DecidableEq, Repr

namespace State

/-- Nothing is delayed and nothing fires at the start. -/
def initial (topology : Topology) (spikes : List Int32) : Except StepError State := do
  checkLength "configuration" topology.neuronCount spikes.length
  return {
    spikes
    cooldown := List.replicate spikes.length 0
    inFlight := List.replicate topology.ruleCount false
    firing := List.replicate spikes.length false
  }

def anyInFlight (state : State) : Bool :=
  state.inFlight.any id

/-- A neuron may choose a rule while it is not cooling down and none of its
rules is in flight. -/
def isOpen (state : State) (topology : Topology) (neuron : Nat) : Bool :=
  state.cooldown.getD neuron 0 == 0 &&
    !(topology.ranges.range neuron).anySet state.inFlight

/-- The vectors over neurons are checked before the one over rules. -/
def checkShape (state : State) (topology : Topology) : Except StepError Unit := do
  checkLength "configuration" topology.neuronCount state.spikes.length
  checkLength "delay status" topology.neuronCount state.cooldown.length
  checkLength "firing" topology.neuronCount state.firing.length
  checkLength "delay indicator" topology.ruleCount state.inFlight.length

end State

end SpikingNeuralP
