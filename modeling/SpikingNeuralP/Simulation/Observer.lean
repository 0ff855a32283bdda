import SpikingNeuralP.Step.Engine

/-!
# Observers

What is told after every committed move of a simulator.  A counter tallies moves
and redraw work, a recorder keeps every move, a silent observer keeps nothing.
-/

namespace SpikingNeuralP

/-- A committed move, with the state and time after it. -/
inductive Transition where
  | next (state : State) (time : Nat) (report : StepReport)
  | previous (state : State) (time : Nat)
  | reset (state : State)
  deriving DecidableEq, Repr

/-- The neurons to redraw after a step; without change flags there are none. -/
def StepReport.touched (report : StepReport) : List Nat :=
  match report.changes with
  | some changes => changes.log.touched
  | none => []

structure ChangeCounter where
  next : Nat
  previous : Nat
  resets : Nat
  /-- The redraws of all forward steps together. -/
  touched : Nat
  deriving DecidableEq, Repr

namespace ChangeCounter

def zero : ChangeCounter :=
  { next := 0, previous := 0, resets := 0, touched := 0 }

def notify (counter : ChangeCounter) : Transition → ChangeCounter
  | .next _ _ report =>
      { counter with
        next := counter.next + 1
        touched := counter.touched + report.touched.length }
  | .previous _ _ => { counter with previous := counter.previous + 1 }
  | .reset _ => { counter with resets := counter.resets + 1 }

end ChangeCounter

inductive Observer where
  | counter (counts : ChangeCounter)
  /-- Keeps what it was told, oldest first. -/
  | recorder (transitions : List Transition)
  | silent
  deriving DecidableEq, Repr

def Observer.notify (observer : Observer) (transition : Transition) : Observer :=
  match observer with
  | .counter counts => .counter (counts.notify transition)
  | .recorder transitions => .recorder (transitions ++ [transition])
  | .silent => .silent

end SpikingNeuralP
