import SpikingNeuralP.Proofs.Random.Choice
import SpikingNeuralP.Proofs.Session.Moves

/-!
# Sessions that start over

A session that is reset becomes the session it was when it was new.  What a reset
does not set itself has never changed: the network, the engine and the initial state,
the selection and the seed, and the number of output trains.  No observer is ever
registered.
-/

namespace SpikingNeuralP

namespace Simulator

variable {network : Network} {config : SimulatorConfig} {start simulator : Simulator}

/-- No observer is registered, and there is a train for every output neuron. -/
structure Unwatched (simulator : Simulator) : Prop where
  observers : simulator.observers = []
  trainCount : simulator.outputTrains.length = simulator.network.outputNeurons.length

/-- The simulator as it was before anything was recorded. -/
def renewed (simulator : Simulator) : Simulator :=
  { simulator with
    state := simulator.initial
    time := 0
    history := []
    outputTrains := List.replicate simulator.network.outputNeurons.length []
    observers := [] }

theorem unwatched_ofNetwork (hstart : ofNetwork network config = .ok start) :
    start.Unwatched ∧ start.renewed = start := by
  obtain ⟨_, _, _, _, rfl⟩ := ofNetwork_eq_ok_iff.mp hstart
  exact ⟨⟨rfl, List.length_replicate⟩, rfl⟩

theorem Unwatched.reset_eq (hunwatched : simulator.Unwatched) :
    simulator.reset = simulator.renewed := by
  rw [reset, renewed, notify, hunwatched.observers, List.map_const', hunwatched.trainCount]
  rfl

theorem Unwatched.reset (hunwatched : simulator.Unwatched) : simulator.reset.Unwatched := by
  rw [hunwatched.reset_eq]
  exact ⟨rfl, List.length_replicate⟩

theorem Unwatched.advanced (hunwatched : simulator.Unwatched) (decision : List Bool)
    (report : StepReport) (state : State) :
    (simulator.advanced decision report state).Unwatched where
  observers := by simp [Simulator.advanced, notify, hunwatched.observers]
  trainCount := by simp [Simulator.advanced, notify, hunwatched.trainCount]

theorem Unwatched.retreated (hunwatched : simulator.Unwatched) (frame : Frame)
    (history : List Frame) (undone : State) :
    (simulator.retreated frame history undone).Unwatched where
  observers := by simp [Simulator.retreated, notify, hunwatched.observers]
  trainCount := by simp [Simulator.retreated, notify, hunwatched.trainCount]

end Simulator

namespace Session

variable {network : Network} {selection : Selection} {seed : UInt64}
  {fresh session moved : Session} {choices : List (Option Nat)} {random : RandomSource}

/-- Starting over makes the session `fresh`. -/
structure RenewsAs (session fresh : Session) : Prop where
  unwatched : session.simulator.Unwatched
  simulator : session.simulator.renewed = fresh.simulator
  selection : session.selection = fresh.selection
  random : .ofSeed session.random.seed = fresh.random

theorem renewsAs_ofNetwork (hsession : ofNetwork network selection seed = .ok session) :
    session.RenewsAs session := by
  obtain ⟨simulator, hsimulator, hanswer⟩ := bind_eq_ok_iff.mp hsession
  obtain rfl := Except.ok.inj hanswer
  obtain ⟨hunwatched, hrenewed⟩ := Simulator.unwatched_ofNetwork hsimulator
  exact ⟨hunwatched, hrenewed, rfl, rfl⟩

namespace RenewsAs

theorem reset_eq (hrenews : session.RenewsAs fresh) : session.reset = fresh := by
  rw [reset, hrenews.unwatched.reset_eq, hrenews.simulator, hrenews.selection, hrenews.random]

theorem reset (hrenews : session.RenewsAs fresh) : session.reset.RenewsAs fresh := by
  refine ⟨hrenews.unwatched.reset, ?_, hrenews.selection, hrenews.random⟩
  rw [Session.reset, hrenews.unwatched.reset_eq]
  exact hrenews.simulator

/-- A step may use up random words, but it stays with the seed. -/
theorem stepWith (hrenews : session.RenewsAs fresh)
    (hseed : random.seed = session.random.seed) :
    (session.stepWith choices random).2.RenewsAs fresh := by
  have hrandom : .ofSeed random.seed = fresh.random := hseed ▸ hrenews.random
  cases hstep : session.stepWith choices random with
  | mk answer moved =>
      cases answer with
      | error failure =>
          obtain ⟨_, rfl⟩ := stepWith_eq_error_iff.mp hstep
          exact { hrenews with random := hrandom }
      | ok outcome =>
          obtain ⟨decision, report, simulator, _, hnext, _, rfl⟩ := stepWith_eq_ok_iff.mp hstep
          obtain ⟨_, state, _, rfl⟩ := Simulator.next_eq_ok_iff.mp hnext
          exact ⟨hrenews.unwatched.advanced decision report state, hrenews.simulator,
            hrenews.selection, hrandom⟩

theorem stepBack (hrenews : session.RenewsAs fresh) (hback : session.stepBack = .ok moved) :
    moved.RenewsAs fresh := by
  obtain ⟨simulator, hprevious, rfl⟩ := stepBack_eq_ok_iff.mp hback
  obtain ⟨_, frame, history, undone, _, _, rfl⟩ := Simulator.previous_eq_ok_iff.mp hprevious
  exact ⟨hrenews.unwatched.retreated frame history undone, hrenews.simulator,
    hrenews.selection, hrenews.random⟩

end RenewsAs

theorem seed_choose (session : Session) : session.choose.2.seed = session.random.seed := by
  rw [choose]
  cases session.selection with
  | first => rfl
  | random => exact RandomSource.seed_chooseEach session.random _

end Session

end SpikingNeuralP
