import SpikingNeuralP.Simulation.Basic

/-!
# Requests to a simulator

The moves of a simulator and the registration of observers as one type, so that
a whole run is a list of requests and the list of its answers.
-/

namespace SpikingNeuralP

/-- The requests a simulator answers. -/
inductive SimulatorRequest where
  | next (decision : List Bool)
  | previous
  | reset
  | observe (observer : Observer)
  deriving DecidableEq, Repr

/-- The report of a step, or that the request was done. -/
inductive SimulatorAnswer where
  | stepped (report : StepReport)
  | done
  deriving DecidableEq, Repr

/-- A refused request leaves the simulator as it was. -/
def Simulator.handle (simulator : Simulator) :
    SimulatorRequest → Except SimulatorError SimulatorAnswer × Simulator
  | .next decision =>
      match simulator.next decision with
      | .ok (report, moved) => (.ok (.stepped report), moved)
      | .error failure => (.error failure, simulator)
  | .previous =>
      match simulator.previous with
      | .ok moved => (.ok .done, moved)
      | .error failure => (.error failure, simulator)
  | .reset => (.ok .done, simulator.reset)
  | .observe observer => (.ok .done, simulator.observe observer)

/-- Handles the requests in order and keeps the answers in order. -/
def Simulator.run (simulator : Simulator) :
    List SimulatorRequest → List (Except SimulatorError SimulatorAnswer) × Simulator
  | [] => ([], simulator)
  | request :: requests =>
      let (answer, handled) := simulator.handle request
      let (answers, final) := handled.run requests
      (answer :: answers, final)

end SpikingNeuralP
