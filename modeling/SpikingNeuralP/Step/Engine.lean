import SpikingNeuralP.Step.Cooldown
import SpikingNeuralP.Step.Gain
import SpikingNeuralP.Step.Change

/-!
# The step engine

Advances a state by one step and takes a step back.  A request is checked in
full before anything is computed from it, and a refused request yields no state,
so the caller's state stands.
-/

namespace SpikingNeuralP

/-- Rule choices, one flag per rule, and the spikes the environment adds. -/
structure StepInput where
  decision : List Bool
  train : Option (List UInt32)
  deriving DecidableEq, Repr

/-- What has to be known of a step to take it back. -/
structure PastStep where
  input : StepInput
  /-- The rules in flight before the step. -/
  inFlight : List Bool
  deriving DecidableEq, Repr

structure StepReport where
  /-- How many neurons fired. -/
  fired : Nat
  changes : Option ChangeSet
  deriving DecidableEq, Repr

structure Engine where
  topology : Topology
  tracksChanges : Bool

namespace Topology

/-- Vectors that come with a step have one entry per rule. -/
def checkInput (topology : Topology) (state : State) (input : StepInput)
    (inFlight : Option (List Bool)) : Except StepError Unit := do
  state.checkShape topology
  checkLength "decision" topology.ruleCount input.decision.length
  checkGivenLength "previous delay indicator" topology.ruleCount inFlight
  checkGivenLength "spike train" topology.ruleCount input.train

/-- The first neuron with several choices is refused. -/
def checkChoiceCounts (topology : Topology) (decision : List Bool) : Except StepError Unit :=
  match topology.ranges.enumerate.find? fun (_, range) => 1 < range.countSet decision with
  | some (neuron, range) => .error (.severalChoices neuron (range.countSet decision))
  | none => .ok ()

/-- A neuron chooses at most one rule, and only while it is open; too many
choices anywhere are reported before a closed neuron. -/
def checkDecision (topology : Topology) (state : State) (decision : List Bool) :
    Except StepError Unit := do
  topology.checkChoiceCounts decision
  match topology.ranges.enumerate.find? fun (neuron, range) =>
      range.anySet decision && !state.isOpen topology neuron with
  | some (neuron, _) => .error (.closedNeuron neuron)
  | none => .ok ()

/-- The state after a step whose request has been checked. -/
def advance (topology : Topology) (state : State) (input : StepInput) :
    Except StepError State := do
  let ranges := topology.ranges
  let cooldown := nextCooldown state.cooldown input.decision topology.delays ranges
  let acting := actingRules cooldown input.decision state.inFlight topology.delays ranges
  let spikes ← topology.matrix.settle state.spikes cooldown acting input.train .forward
  return {
    spikes
    cooldown
    inFlight := nextInFlight state.inFlight acting input.decision topology.delays
    firing := firingNeurons acting input.train ranges
  }

/-- The state before a step whose request has been checked.  The cooldown the
step ended with tells which rules it released; what fired before it is not
known, so the firing neurons stay. -/
def retreat (topology : Topology) (state : State) (past : PastStep) :
    Except StepError State := do
  let ranges := topology.ranges
  let acting :=
    actingRules state.cooldown past.input.decision past.inFlight topology.delays ranges
  let spikes ← topology.matrix.settle state.spikes state.cooldown acting past.input.train .backward
  return {
    spikes
    cooldown := previousCooldown state.cooldown past.inFlight ranges
    inFlight := past.inFlight
    firing := state.firing
  }

end Topology

namespace Engine

def forward (engine : Engine) (state : State) (input : StepInput) :
    Except StepError (StepReport × State) := do
  engine.topology.checkInput state input none
  engine.topology.checkDecision state input.decision
  let next ← engine.topology.advance state input
  let report : StepReport :=
    { fired := next.firing.count true
      changes := if engine.tracksChanges then some (.between state next) else none }
  return (report, next)

/-- The neurons of the decision were open when it was made, so only the number
of choices is checked. -/
def backward (engine : Engine) (state : State) (past : PastStep) : Except StepError State := do
  engine.topology.checkInput state past.input (some past.inFlight)
  engine.topology.checkChoiceCounts past.input.decision
  engine.topology.retreat state past

end Engine

end SpikingNeuralP
