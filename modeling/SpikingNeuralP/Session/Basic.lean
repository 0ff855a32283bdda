import SpikingNeuralP.Simulation.Basic
import SpikingNeuralP.Random.Choice
import SpikingNeuralP.Session.Demo
import SpikingNeuralP.Text.Field

/-!
# Sessions

A simulator together with the way its rules are chosen.  A session can be
stepped, stepped back and reset without naming any rule; a reset also takes the
random choices back to their seed, so a run repeats itself.
-/

namespace SpikingNeuralP

structure Session where
  simulator : Simulator
  selection : Selection
  random : RandomSource

/-- Who fired in a step and what has to be redrawn. -/
structure StepOutcome where
  fired : List Bool
  changes : ChangeLog
  deriving DecidableEq, Repr

/-- A boundary of the run is nothing unusual, a fault is. -/
inductive StepFailure where
  | boundary (text : String)
  | fault (text : String)
  deriving DecidableEq, Repr

def StepFailure.ofError (error : SimulatorError) : StepFailure :=
  match error with
  | .halted | .atStart | .historyExhausted _ => .boundary error.message
  | .network _ | .step _ => .fault error.message

namespace Session

def ofNetwork (network : Network) (selection : Selection) (seed : UInt64) :
    Except SimulatorError Session := do
  let simulator ← Simulator.ofNetwork network .standard
  return { simulator, selection, random := .ofSeed seed }

/-- One applicable rule for every neuron that has any.  Only random choices use
up the source. -/
def choose (session : Session) : List (Option Nat) × RandomSource :=
  let applicable := session.simulator.applicableRules
  match session.selection with
  | .first => (applicable.map List.head?, session.random)
  | .random => session.random.chooseEach applicable

/-- Steps the simulator with the given choices; a failed step uses them up all
the same. -/
def stepWith (session : Session) (choices : List (Option Nat)) (random : RandomSource) :
    Except SimulatorError StepOutcome × Session :=
  let moved : Except SimulatorError (StepReport × Simulator) := do
    let decision ← (session.simulator.network.decision choices).mapError .network
    session.simulator.next decision
  match moved with
  | .ok (report, simulator) =>
      let changes := (report.changes.map ChangeSet.log).getD []
      (.ok { fired := simulator.state.firing, changes }, { session with simulator, random })
  | .error failure => (.error failure, { session with random })

/-- Chooses rules and steps with them. -/
def step (session : Session) : Except SimulatorError StepOutcome × Session :=
  let (choices, random) := session.choose
  session.stepWith choices random

def stepBack (session : Session) : Except SimulatorError Session := do
  let simulator ← session.simulator.previous
  return { session with simulator }

def reset (session : Session) : Session :=
  { session with
    simulator := session.simulator.reset
    random := .ofSeed session.random.seed }

def neuronCount (session : Session) : Nat :=
  session.simulator.network.neuronCount

/-- A neuron without a label is called by its number, of two digits or more. -/
def label (session : Session) (neuron : Nat) : String :=
  ((session.simulator.network.neuron? neuron).bind Neuron.label).getD
    ("n" ++ alignRight 2 '0' (toString neuron))

def state (session : Session) : State :=
  session.simulator.state

def time (session : Session) : Nat :=
  session.simulator.time

def isHalted (session : Session) : Bool :=
  session.simulator.isHalted

/-- Every output neuron with its recorded train. -/
def outputTrains (session : Session) : List (Nat × List Bool) :=
  session.simulator.network.outputNeurons.zip session.simulator.outputTrains

end Session

end SpikingNeuralP
