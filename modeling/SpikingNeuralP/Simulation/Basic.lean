import SpikingNeuralP.Network.Choice
import SpikingNeuralP.Simulation.Observer

/-!
# The simulator

Runs a network: feeds the input trains, records what the output neurons receive,
keeps a history for going back and tells observers what happened.  Which rules
to choose is up to the caller.
-/

namespace SpikingNeuralP

/-- What is kept of a step to take it back. -/
structure Frame where
  step : PastStep
  /-- The neurons that fired before the step. -/
  firing : List Bool
  deriving DecidableEq, Repr

structure SimulatorConfig where
  tracksChanges : Bool
  /-- How many steps can be taken back; `none` for all. -/
  historyLimit : Option Nat
  deriving DecidableEq, Repr

def SimulatorConfig.standard : SimulatorConfig :=
  { tracksChanges := true, historyLimit := none }

structure Simulator where
  network : Network
  engine : Engine
  historyLimit : Option Nat
  initial : State
  state : State
  time : Nat
  /-- The newest frame comes first. -/
  history : List Frame
  /-- For every output neuron, the steps in which it received spikes. -/
  outputTrains : List (List Bool)
  observers : List Observer

namespace Simulator

def ofNetwork (network : Network) (config : SimulatorConfig) :
    Except SimulatorError Simulator := do
  let topology ← network.topology.mapError .network
  let initial ← (network.initialState topology).mapError .network
  return {
    network
    engine := { topology, tracksChanges := config.tracksChanges }
    historyLimit := config.historyLimit
    initial
    state := initial
    time := 0
    history := []
    outputTrains := List.replicate network.outputNeurons.length []
    observers := []
  }

def topology (simulator : Simulator) : Topology :=
  simulator.engine.topology

def applicableRules (simulator : Simulator) : List (List Nat) :=
  simulator.network.applicableRules simulator.topology simulator.state

/-- The final configuration: the input is over, nothing waits for its delay and
no rule is applicable. -/
def isHalted (simulator : Simulator) : Bool :=
  decide (simulator.network.trainLength ≤ simulator.time) &&
    !simulator.state.anyInFlight &&
    simulator.state.cooldown.all (· == 0) &&
    simulator.applicableRules.all List.isEmpty

def observe (simulator : Simulator) (observer : Observer) : Simulator :=
  { simulator with observers := simulator.observers ++ [observer] }

def notify (simulator : Simulator) (transition : Transition) : Simulator :=
  { simulator with observers := simulator.observers.map (·.notify transition) }

/-- The frames that may be kept, the oldest being dropped first. -/
def trim (limit : Option Nat) (frames : List Frame) : List Frame :=
  match limit with
  | some limit => frames.take limit
  | none => frames

/-- An output neuron receives spikes in a step exactly when its count grows. -/
def received (before after : State) (neuron : Nat) : Bool :=
  decide ((before.spikes.getD neuron 0).toInt < (after.spikes.getD neuron 0).toInt)

/-- One step with the given decision, fed with the input of the current time. -/
def next (simulator : Simulator) (decision : List Bool) :
    Except SimulatorError (StepReport × Simulator) :=
  if simulator.isHalted then
    .error .halted
  else do
    let before := simulator.state
    let input : StepInput := { decision, train := simulator.network.train? simulator.time }
    let (report, state) ← (simulator.engine.forward before input).mapError .step
    let frame : Frame :=
      { step := { input, inFlight := before.inFlight }, firing := before.firing }
    let time := simulator.time + 1
    let moved : Simulator := { simulator with
      state
      time
      history := trim simulator.historyLimit (frame :: simulator.history)
      outputTrains := List.zipWith (fun neuron train => train ++ [received before state neuron])
        simulator.network.outputNeurons simulator.outputTrains }
    return (report, moved.notify (.next state time report))

/-- Takes the last step back; the firing neurons come from its frame. -/
def previous (simulator : Simulator) : Except SimulatorError Simulator :=
  if simulator.time = 0 then
    .error .atStart
  else
    match simulator.history with
    | [] => .error (.historyExhausted simulator.time)
    | frame :: history => do
        let undone ← (simulator.engine.backward simulator.state frame.step).mapError .step
        let state := { undone with firing := frame.firing }
        let time := simulator.time - 1
        let moved : Simulator := { simulator with
          state
          time
          history
          outputTrains := simulator.outputTrains.map List.dropLast }
        return moved.notify (.previous state time)

def reset (simulator : Simulator) : Simulator :=
  let moved : Simulator := { simulator with
    state := simulator.initial
    time := 0
    history := []
    outputTrains := simulator.outputTrains.map fun _ => [] }
  moved.notify (.reset simulator.initial)

end Simulator

end SpikingNeuralP
