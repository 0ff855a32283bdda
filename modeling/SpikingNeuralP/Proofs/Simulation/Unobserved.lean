import SpikingNeuralP.Proofs.Simulation.Moves

/-!
# The simulator without observers

Leaving out the observers and the change flags of a simulator commutes with every
request.  So two simulators that differ in nothing else answer alike and show the
same states, whatever observers are registered on the way.
-/

namespace SpikingNeuralP

def SimulatorAnswer.untracked : SimulatorAnswer → SimulatorAnswer
  | .stepped report => .stepped { report with changes := none }
  | .done => .done

def Engine.untracked (engine : Engine) : Engine :=
  { engine with tracksChanges := false }

theorem map_untracked_map_untracked (answer : Except SimulatorError SimulatorAnswer) :
    (answer.map SimulatorAnswer.untracked).map SimulatorAnswer.untracked =
      answer.map SimulatorAnswer.untracked := by
  rcases answer with _ | _ | _ <;> rfl

/-- Tracking shows in the report of a step alone. -/
theorem Engine.forward_untracked (engine : Engine) (state : State) (input : StepInput) :
    engine.untracked.forward state input =
      (engine.forward state input).map fun (report, next) =>
        ({ report with changes := none }, next) := by
  have htopology : engine.untracked.topology = engine.topology := rfl
  rw [forward, forward, htopology]
  cases engine.topology.checkInput state input none with
  | error cause => rfl
  | ok checked =>
      cases engine.topology.checkDecision state input.decision with
      | error cause => rfl
      | ok permitted =>
          cases engine.topology.advance state input with
          | error cause => rfl
          | ok next => rfl

namespace Simulator

/-- The simulator as nobody watches it. -/
def unobserved (simulator : Simulator) : Simulator :=
  { simulator with engine := simulator.engine.untracked, observers := [] }

/-- What a caller sees of the requests that move a simulator: each answer, the
change flags left out, and what the simulator shows after it. -/
def outcomes (simulator : Simulator) (requests : List SimulatorRequest) :
    List (Except SimulatorError SimulatorAnswer × SimulatorView) :=
  ((simulator.moves requests).filter (·.request.kind?.isSome)).map fun move =>
    (move.answer.map SimulatorAnswer.untracked, move.after.view)

variable {network : Network} {config : SimulatorConfig} {start simulator left right : Simulator}
  {request : SimulatorRequest} {requests leftRequests rightRequests : List SimulatorRequest}

theorem handle_unobserved (simulator : Simulator) (hmoves : request.kind?.isSome = true) :
    simulator.unobserved.handle request =
      ((simulator.handle request).1.map SimulatorAnswer.untracked,
        (simulator.handle request).2.unobserved) := by
  cases request with
  | next decision =>
      have hhalted : simulator.unobserved.isHalted = simulator.isHalted := rfl
      have hforward : simulator.unobserved.engine.forward simulator.unobserved.state
          (simulator.unobserved.input decision) = _ :=
        simulator.engine.forward_untracked simulator.state (simulator.input decision)
      rw [handle, handle, next_eq, next_eq, hhalted, hforward]
      cases simulator.isHalted with
      | true => rfl
      | false => cases simulator.engine.forward simulator.state (simulator.input decision) <;> rfl
  | previous =>
      have htime : simulator.unobserved.time = simulator.time := rfl
      have hhistory : simulator.unobserved.history = simulator.history := rfl
      rw [handle, handle, previous_eq, previous_eq, htime, hhistory]
      by_cases hstart : simulator.time = 0
      · rw [if_pos hstart, if_pos hstart]
        rfl
      · rw [if_neg hstart, if_neg hstart]
        cases simulator.history with
        | nil => rfl
        | cons frame history =>
            have hbackward : simulator.unobserved.engine.backward simulator.unobserved.state
                frame.step = simulator.engine.backward simulator.state frame.step := rfl
            dsimp only
            rw [hbackward]
            cases simulator.engine.backward simulator.state frame.step <;> rfl
  | reset => rfl
  | observe observer => cases hmoves

theorem outcomes_cons (hmoves : request.kind?.isSome = true) :
    simulator.outcomes (request :: requests) =
      ((simulator.handle request).1.map SimulatorAnswer.untracked,
          (simulator.handle request).2.view) ::
        (simulator.handle request).2.outcomes requests := by
  rw [outcomes, moves, List.filter_cons_of_pos (by exact hmoves)]
  rfl

theorem outcomes_unobserved (simulator : Simulator) (requests : List SimulatorRequest) :
    simulator.unobserved.outcomes (requests.filter (·.kind?.isSome)) =
      simulator.outcomes requests := by
  induction requests generalizing simulator with
  | nil => rfl
  | cons request requests ih =>
      cases hkind : request.kind?.isSome with
      | false =>
          rw [List.filter_cons_of_neg (by simp [hkind])]
          cases request with
          | observe observer => exact ih (simulator.observe observer)
          | _ => cases hkind
      | true =>
          rw [List.filter_cons_of_pos (by exact hkind), outcomes_cons hkind, outcomes_cons hkind,
            handle_unobserved simulator hkind, ih, map_untracked_map_untracked]
          rfl

theorem outcomes_eq (hsame : left.unobserved = right.unobserved)
    (hrequests : leftRequests.filter (·.kind?.isSome) = rightRequests.filter (·.kind?.isSome)) :
    left.outcomes leftRequests = right.outcomes rightRequests := by
  rw [← outcomes_unobserved, hsame, hrequests, outcomes_unobserved]

/-- Tracking changes makes no difference to whether a simulator can be built. -/
theorem exists_ofNetwork_tracking (hstart : ofNetwork network config = .ok start)
    (tracksChanges : Bool) :
    ∃ twin, ofNetwork network { config with tracksChanges } = .ok twin ∧
      twin.unobserved = start.unobserved := by
  obtain ⟨topology, initial, htopology, hinitial, rfl⟩ := ofNetwork_eq_ok_iff.mp hstart
  exact ⟨_, ofNetwork_eq_ok_iff.mpr ⟨topology, initial, htopology, hinitial, rfl⟩, rfl⟩

end Simulator

end SpikingNeuralP
