import Mathlib.Data.List.DropRight
import SpikingNeuralP.Proofs.Simulation.Reach
import SpikingNeuralP.Proofs.Step.Touched

/-!
# The moves of a run

A run taken apart into its requests, each with the answer and the simulators before
and after it.  Moves that succeed are counted by their kind, and counting forward
and backward ones since the last new start gives the time.
-/

namespace SpikingNeuralP

/-- The kinds of requests that move a simulator. -/
inductive MoveKind where
  | next
  | previous
  | reset
  deriving DecidableEq, Repr

/-- The kind of a request, unless it only registers an observer. -/
def SimulatorRequest.kind? : SimulatorRequest → Option MoveKind
  | .next _ => some .next
  | .previous => some .previous
  | .reset => some .reset
  | .observe _ => none

/-- A request to a simulator with all that came of it. -/
structure Move where
  before : Simulator
  request : SimulatorRequest
  answer : Except SimulatorError SimulatorAnswer
  after : Simulator

namespace Move

def succeeded (move : Move) (kind : MoveKind) : Bool :=
  move.answer.isOk && move.request.kind? == some kind

/-- The neurons that fired in a step forward or look different after it; none are
known of when changes are not tracked. -/
def redraws (move : Move) : Nat :=
  if move.succeeded .next && move.before.engine.tracksChanges then
    move.before.state.redraws move.after.state move.before.network.neuronCount
  else
    0

/-- The moves after the last new start, or all of them without one. -/
def sinceReset (moves : List Move) : List Move :=
  moves.rtakeWhile fun move => !move.succeeded .reset

end Move

namespace Simulator

def move (simulator : Simulator) (request : SimulatorRequest) : Move where
  before := simulator
  request := request
  answer := (simulator.handle request).1
  after := (simulator.handle request).2

/-- One move for every request, in order. -/
def moves (simulator : Simulator) : List SimulatorRequest → List Move
  | [] => []
  | request :: requests =>
      simulator.move request :: (simulator.handle request).2.moves requests

variable {simulator : Simulator} {request : SimulatorRequest} {requests : List SimulatorRequest}

theorem run_append (simulator : Simulator) (earlier later : List SimulatorRequest) :
    (simulator.run (earlier ++ later)).2 = ((simulator.run earlier).2.run later).2 := by
  induction earlier generalizing simulator with
  | nil => rfl
  | cons request earlier ih => exact ih (simulator.handle request).2

theorem run_concat (simulator : Simulator) (requests : List SimulatorRequest)
    (request : SimulatorRequest) :
    (simulator.run (requests ++ [request])).2 = ((simulator.run requests).2.handle request).2 :=
  simulator.run_append requests [request]

theorem moves_concat (simulator : Simulator) (requests : List SimulatorRequest)
    (request : SimulatorRequest) :
    simulator.moves (requests ++ [request]) =
      simulator.moves requests ++ [(simulator.run requests).2.move request] := by
  induction requests generalizing simulator with
  | nil => rfl
  | cons first requests ih =>
      exact congrArg (simulator.move first :: ·) (ih (simulator.handle first).2)

theorem move_eq {answer : Except SimulatorError SimulatorAnswer} {after : Simulator}
    (hhandle : simulator.handle request = (answer, after)) :
    simulator.move request = { before := simulator, request, answer, after } := by
  rw [move, hhandle]

theorem time_move_of_reset (hreset : (simulator.move request).succeeded .reset = true) :
    (simulator.move request).after.time = 0 := by
  cases request with
  | reset => rfl
  | _ => simp [Move.succeeded, move, SimulatorRequest.kind?] at hreset

/-- A move forward adds one to the time, and a move back takes one away. -/
theorem time_move (hreset : (simulator.move request).succeeded .reset = false) :
    (simulator.move request).after.time +
        [simulator.move request].countP (·.succeeded .previous) =
      simulator.time + [simulator.move request].countP (·.succeeded .next) := by
  rcases simulator.handle_cases request with ⟨_, hrefused⟩ | ⟨_, rfl, hobserved⟩ |
    ⟨_, _, _, rfl, _, hadvanced⟩ | ⟨_, _, _, rfl, htime, _, _, hretreated⟩ | ⟨rfl, _⟩
  · rw [move_eq hrefused]
    rfl
  · rw [move_eq hobserved]
    rfl
  · rw [move_eq hadvanced]
    rfl
  · rw [move_eq hretreated]
    exact Nat.sub_add_cancel (Nat.one_le_iff_ne_zero.mpr htime)
  · simp [Move.succeeded, move, SimulatorRequest.kind?, handle, Except.isOk, Except.toBool]
      at hreset

/-- Steps forward since the last new start either are still counted by the time or
have been taken back. -/
theorem countP_next_sinceReset (htime : simulator.time = 0) (requests : List SimulatorRequest) :
    (Move.sinceReset (simulator.moves requests)).countP (·.succeeded .next) =
      (Move.sinceReset (simulator.moves requests)).countP (·.succeeded .previous) +
        (simulator.run requests).2.time := by
  -- The moves since the last new start are read from the end of the run, so the
  -- induction is on the request made last.
  induction requests using List.reverseRecOn with
  | nil => simpa [moves, Move.sinceReset, run] using htime.symm
  | append_singleton requests request ih =>
      rw [Move.sinceReset] at ih
      rw [moves_concat, run_concat, Move.sinceReset]
      cases hreset : ((simulator.run requests).2.move request).succeeded .reset with
      | true =>
          rw [List.rtakeWhile_concat_neg _ _ _ (by simp [hreset]), List.countP_nil,
            List.countP_nil, Nat.zero_add]
          exact (time_move_of_reset hreset).symm
      | false =>
          have hmove : ((simulator.run requests).2.handle request).2.time +
              [(simulator.run requests).2.move request].countP (·.succeeded .previous) =
                (simulator.run requests).2.time +
                  [(simulator.run requests).2.move request].countP (·.succeeded .next) :=
            time_move hreset
          rw [List.rtakeWhile_concat_pos _ _ _ (by simp [hreset]), List.countP_append,
            List.countP_append]
          omega

end Simulator

end SpikingNeuralP
