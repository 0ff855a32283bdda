import SpikingNeuralP.Proofs.Network.Graph
import SpikingNeuralP.Proofs.Simulation.SnapshotMachine
import SpikingNeuralP.Proofs.Step.RoundTrip

/-!
# Going back retraces the run

A simulator keeps of each step only what the engine needs to take it back, and it
may drop the oldest steps.  It still answers like the machine that stores whole
snapshots: every frame in its history belongs to the step between two
neighbouring snapshots, and there are as many frames as the machine has budget.
-/

namespace SpikingNeuralP

namespace Simulator

/-- A new simulator holds the parts assembled from its network, and nothing has
been recorded. -/
theorem ofNetwork_eq_ok_iff {network : Network} {config : SimulatorConfig} {start : Simulator} :
    ofNetwork network config = .ok start ↔
      ∃ topology initial, network.topology = .ok topology ∧
        network.initialState topology = .ok initial ∧
        start = {
          network
          engine := { topology, tracksChanges := config.tracksChanges }
          historyLimit := config.historyLimit
          initial
          state := initial
          time := 0
          history := []
          outputTrains := List.replicate network.outputNeurons.length []
          observers := [] } := by
  simp only [ofNetwork, bind_eq_ok_iff, mapError_eq_ok_iff]
  constructor
  · rintro ⟨topology, htopology, initial, hinitial, hanswer⟩
    exact ⟨topology, initial, htopology, hinitial, (Except.ok.inj hanswer).symm⟩
  · rintro ⟨topology, initial, htopology, hinitial, rfl⟩
    exact ⟨topology, htopology, initial, hinitial, rfl⟩

/-- What the engine is given with a decision. -/
def input (simulator : Simulator) (decision : List Bool) : StepInput where
  decision := decision
  train := simulator.network.train? simulator.time

/-- The simulator after an accepted step. -/
def advanced (simulator : Simulator) (decision : List Bool) (report : StepReport)
    (state : State) : Simulator :=
  let frame : Frame :=
    { step := { input := simulator.input decision, inFlight := simulator.state.inFlight }
      firing := simulator.state.firing }
  let moved : Simulator := { simulator with
    state
    time := simulator.time + 1
    history := trim simulator.historyLimit (frame :: simulator.history)
    outputTrains := List.zipWith
      (fun neuron train => train ++ [received simulator.state state neuron])
      simulator.network.outputNeurons simulator.outputTrains }
  moved.notify (.next state (simulator.time + 1) report)

theorem next_eq (simulator : Simulator) (decision : List Bool) :
    simulator.next decision =
      if simulator.isHalted then
        .error .halted
      else
        match simulator.engine.forward simulator.state (simulator.input decision) with
        | .ok (report, state) => .ok (report, simulator.advanced decision report state)
        | .error cause => .error (.step cause) := by
  rw [next]
  split
  case isTrue => rfl
  case isFalse =>
    dsimp only [input]
    cases simulator.engine.forward simulator.state
      { decision, train := simulator.network.train? simulator.time } with
    | ok accepted => rfl
    | error cause => rfl

/-- The simulator after its newest frame has been taken back to `undone`. -/
def retreated (simulator : Simulator) (frame : Frame) (history : List Frame) (undone : State) :
    Simulator :=
  let state := { undone with firing := frame.firing }
  let moved : Simulator := { simulator with
    state
    time := simulator.time - 1
    history
    outputTrains := simulator.outputTrains.map List.dropLast }
  moved.notify (.previous state (simulator.time - 1))

theorem previous_eq (simulator : Simulator) :
    simulator.previous =
      if simulator.time = 0 then
        .error .atStart
      else
        match simulator.history with
        | [] => .error (.historyExhausted simulator.time)
        | frame :: history =>
            match simulator.engine.backward simulator.state frame.step with
            | .ok undone => .ok (simulator.retreated frame history undone)
            | .error cause => .error (.step cause) := by
  rw [previous]
  split
  case isTrue => rfl
  case isFalse =>
    cases simulator.history with
    | nil => rfl
    | cons frame history =>
        dsimp only
        cases simulator.engine.backward simulator.state frame.step with
        | ok undone => rfl
        | error cause => rfl

end Simulator

/-- The frame belongs to the step from one snapshot to the next. -/
structure Frame.Joins (frame : Frame) (topology : Topology) (before current : Snapshot) :
    Prop where
  step : topology.Advances before.state frame.step.input current.state
  inFlight : frame.step.inFlight = before.state.inFlight
  firing : frame.firing = before.state.firing
  outputTrains : current.outputTrains.map List.dropLast = before.outputTrains

/-- The frames belong, one by one, to the steps that led through the stored
snapshots to the current one.  There may be fewer frames than snapshots. -/
inductive Retraces (topology : Topology) : List Frame → Snapshot → List Snapshot → Prop
  | exhausted (current : Snapshot) (past : List Snapshot) : Retraces topology [] current past
  | joined {frame : Frame} {history : List Frame} {current before : Snapshot}
      {past : List Snapshot} (hjoins : frame.Joins topology before current)
      (hrest : Retraces topology history before past) :
      Retraces topology (frame :: history) current (before :: past)

/-- Dropping the oldest frames leaves the others in place. -/
theorem Retraces.take {topology : Topology} {history : List Frame} {current : Snapshot}
    {past : List Snapshot} (hretraces : Retraces topology history current past) (count : Nat) :
    Retraces topology (history.take count) current past := by
  induction hretraces generalizing count with
  | exhausted current past =>
      rw [List.take_nil]
      exact .exhausted current past
  | joined hjoins hrest ih =>
      cases count with
      | zero => exact .exhausted _ _
      | succ count => exact .joined hjoins (ih count)

theorem Retraces.trim {topology : Topology} {history : List Frame} {current : Snapshot}
    {past : List Snapshot} (hretraces : Retraces topology history current past)
    (limit : Option Nat) : Retraces topology (Simulator.trim limit history) current past := by
  cases limit with
  | none => exact hretraces
  | some limit => exact hretraces.take limit

theorem length_trim (limit : Option Nat) (history : List Frame) :
    (Simulator.trim limit history).length = SnapshotMachine.capped limit history.length := by
  cases limit with
  | none => rfl
  | some limit => simp [Simulator.trim, SnapshotMachine.capped, Nat.min_comm]

/-- The last entries of the output trains are the ones a step has added. -/
theorem map_dropLast_extend {outputs : List Nat} {before : Snapshot}
    (hcount : before.outputTrains.length = outputs.length) (state : State) :
    (before.extend outputs state).outputTrains.map List.dropLast = before.outputTrains := by
  apply List.ext_getElem
  · simp [Snapshot.extend, hcount]
  · intro output _ _
    simp [Snapshot.extend]

/-- The simulator stands where the machine stands, and its history leads back
through the machine's snapshots. -/
structure Simulator.Represents (simulator : Simulator) (machine : SnapshotMachine) : Prop where
  network : simulator.network = machine.network
  engine : simulator.engine = machine.engine
  historyLimit : simulator.historyLimit = machine.historyLimit
  initial : simulator.initial = machine.initial.state
  initialTrains : machine.initial.outputTrains =
    List.replicate machine.network.outputNeurons.length []
  state : simulator.state = machine.current.state
  outputTrains : simulator.outputTrains = machine.current.outputTrains
  trainCount : machine.current.outputTrains.length = machine.network.outputNeurons.length
  time : simulator.time = machine.time
  budget : simulator.history.length = machine.budget
  phased : machine.Everywhere (State.Phased · machine.engine.topology)
  retraces : Retraces machine.engine.topology simulator.history machine.current machine.past

namespace Simulator.Represents

variable {simulator : Simulator} {machine : SnapshotMachine}

theorem isHalted_eq (hrepresents : simulator.Represents machine) :
    simulator.isHalted = machine.halted := by
  rw [isHalted, SnapshotMachine.halted, applicableRules, topology, hrepresents.network,
    hrepresents.engine, hrepresents.state, hrepresents.time]

theorem view_eq (hrepresents : simulator.Represents machine) :
    simulator.view = machine.view := by
  rw [view, SnapshotMachine.view, hrepresents.isHalted_eq, hrepresents.state, hrepresents.time,
    hrepresents.outputTrains]

theorem input_eq (hrepresents : simulator.Represents machine) (decision : List Bool) :
    simulator.input decision = machine.input decision := by
  rw [input, SnapshotMachine.input, hrepresents.network, hrepresents.time]

/-- An accepted step adds the frame that joins the snapshot it leaves to the one
it reaches. -/
theorem advanced (hrepresents : simulator.Represents machine) {decision : List Bool}
    {report : StepReport} {state : State}
    (hforward : machine.engine.forward machine.current.state (machine.input decision) =
      .ok (report, state)) :
    (simulator.advanced decision report state).Represents (machine.push state) := by
  have hstep := (Engine.forward_eq_ok_iff.mp hforward).1
  have hphased := hstep.phased hrepresents.phased.current
  have htrains : (simulator.advanced decision report state).outputTrains =
      (machine.push state).current.outputTrains := by
    simp only [Simulator.advanced, notify, SnapshotMachine.push, Snapshot.extend,
      hrepresents.network, hrepresents.outputTrains, hrepresents.state]
  have hbudget : (simulator.advanced decision report state).history.length =
      (machine.push state).budget := by
    simp only [Simulator.advanced, notify, SnapshotMachine.push, length_trim, List.length_cons,
      hrepresents.historyLimit, hrepresents.budget]
  refine ⟨hrepresents.network, hrepresents.engine, hrepresents.historyLimit,
    hrepresents.initial, hrepresents.initialTrains, rfl, htrains, ?_, ?_, hbudget,
    SnapshotMachine.everywhere_push hrepresents.phased hphased, ?_⟩
  · simp [SnapshotMachine.push, Snapshot.extend, hrepresents.trainCount]
  · exact congrArg Nat.succ hrepresents.time
  · apply Retraces.trim
    refine .joined ⟨?_, ?_, ?_, ?_⟩ hrepresents.retraces
    · rw [hrepresents.input_eq]
      exact hstep
    · exact congrArg State.inFlight hrepresents.state
    · exact congrArg State.firing hrepresents.state
    · exact map_dropLast_extend hrepresents.trainCount state

/-- The newest frame leads back to the snapshot stored last. -/
theorem backward_eq {frame : Frame} {before current : Snapshot} {engine : Engine}
    (hjoins : frame.Joins engine.topology before current)
    (hphased : before.state.Phased engine.topology) :
    ∃ undone, engine.backward current.state frame.step = .ok undone ∧
      { undone with firing := frame.firing } = before.state := by
  have hpast : frame.step = { input := frame.step.input, inFlight := before.state.inFlight } := by
    rw [← hjoins.inFlight]
  refine ⟨{ before.state with firing := current.state.firing }, ?_,
    congrArg (fun firing => { before.state with firing }) hjoins.firing⟩
  rw [hpast]
  exact Engine.backward_of_advances hjoins.step hphased.coupled hjoins.step.next_fits.firing

theorem retreated (hrepresents : simulator.Represents machine) {frame : Frame}
    {history : List Frame} (hhistory : simulator.history = frame :: history) :
    ∃ undone, simulator.engine.backward simulator.state frame.step = .ok undone ∧
      (simulator.retreated frame history undone).Represents machine.pop := by
  have hretraces := hhistory ▸ hrepresents.retraces
  have hbudget := hhistory ▸ hrepresents.budget
  have hphased := SnapshotMachine.everywhere_pop hrepresents.phased
  have htime := hrepresents.time
  rw [SnapshotMachine.pop] at hphased ⊢
  rw [SnapshotMachine.time] at htime
  generalize machine.past = past at hretraces hphased htime ⊢
  cases hretraces with
  | joined hjoins hrest =>
      rename_i before past
      obtain ⟨undone, hundone, hstate⟩ := backward_eq hjoins hphased.current
      refine ⟨undone, ?_, hrepresents.network, hrepresents.engine, hrepresents.historyLimit,
        hrepresents.initial, hrepresents.initialTrains, hstate, ?_, ?_, ?_, ?_, hphased, hrest⟩
      · rw [hrepresents.engine, hrepresents.state]
        exact hundone
      · exact (congrArg (List.map List.dropLast) hrepresents.outputTrains).trans
          hjoins.outputTrains
      · rw [← hrepresents.trainCount, ← hjoins.outputTrains, List.length_map]
      · exact congrArg Nat.pred htime
      · exact congrArg Nat.pred hbudget

theorem reset (hrepresents : simulator.Represents machine) :
    simulator.reset.Represents machine.rewind := by
  have htrains : simulator.reset.outputTrains = machine.initial.outputTrains := by
    rw [hrepresents.initialTrains, ← hrepresents.trainCount, ← hrepresents.outputTrains]
    exact List.map_const' ..
  refine ⟨hrepresents.network, hrepresents.engine, hrepresents.historyLimit,
    hrepresents.initial, hrepresents.initialTrains, hrepresents.initial, htrains, ?_, rfl, rfl,
    SnapshotMachine.everywhere_rewind hrepresents.phased, .exhausted _ _⟩
  exact (congrArg List.length hrepresents.initialTrains).trans List.length_replicate

/-- Simulator and machine answer a request alike and stay together. -/
theorem handle (hrepresents : simulator.Represents machine) (request : SimulatorRequest) :
    (simulator.handle request).1 = (machine.handle request).1 ∧
      (simulator.handle request).2.Represents (machine.handle request).2 := by
  cases request with
  | next decision =>
      rw [Simulator.handle, SnapshotMachine.handle, Simulator.next_eq, hrepresents.isHalted_eq,
        hrepresents.engine, hrepresents.state, hrepresents.input_eq]
      by_cases hhalted : machine.halted = true
      · rw [if_pos hhalted, if_pos hhalted]
        exact ⟨rfl, hrepresents⟩
      · rw [if_neg hhalted, if_neg hhalted]
        cases hforward :
            machine.engine.forward machine.current.state (machine.input decision) with
        | error cause => exact ⟨rfl, hrepresents⟩
        | ok accepted => exact ⟨rfl, hrepresents.advanced hforward⟩
  | previous =>
      rw [Simulator.handle, SnapshotMachine.handle, Simulator.previous_eq, ← hrepresents.time,
        ← hrepresents.budget]
      by_cases htime : simulator.time = 0
      · rw [if_pos htime, if_pos htime]
        exact ⟨rfl, hrepresents⟩
      · rw [if_neg htime, if_neg htime]
        cases hhistory : simulator.history with
        | nil => exact ⟨rfl, hrepresents⟩
        | cons frame history =>
            obtain ⟨undone, hundone, hretreated⟩ := hrepresents.retreated hhistory
            dsimp only
            rw [List.length_cons, if_neg (Nat.succ_ne_zero history.length)]
            rw [hundone]
            exact ⟨rfl, hretreated⟩
  | reset => exact ⟨rfl, hrepresents.reset⟩
  | observe observer => exact ⟨rfl, { hrepresents with }⟩

theorem run (hrepresents : simulator.Represents machine) (requests : List SimulatorRequest) :
    (simulator.run requests).1 = (machine.run requests).1 ∧
      (simulator.run requests).2.Represents (machine.run requests).2 := by
  induction requests generalizing simulator machine with
  | nil => exact ⟨rfl, hrepresents⟩
  | cons request requests ih =>
      obtain ⟨hanswer, hhandled⟩ := hrepresents.handle request
      obtain ⟨hanswers, hfinal⟩ := ih hhandled
      rw [Simulator.run, SnapshotMachine.run]
      exact ⟨congrArg₂ List.cons hanswer hanswers, hfinal⟩

/-- The machine that starts where the simulator starts. -/
theorem ofNetwork {network : Network} {config : SimulatorConfig} {simulator : Simulator}
    (hsimulator : Simulator.ofNetwork network config = .ok simulator) :
    ∃ machine, SnapshotMachine.ofNetwork network config = .ok machine ∧
      simulator.Represents machine := by
  obtain ⟨topology, initial, htopology, hinitial, rfl⟩ :=
    Simulator.ofNetwork_eq_ok_iff.mp hsimulator
  refine ⟨_, bind_eq_ok_iff.mpr ⟨topology, mapError_eq_ok_iff.mpr htopology,
    bind_eq_ok_iff.mpr ⟨initial, mapError_eq_ok_iff.mpr hinitial, rfl⟩⟩, ?_⟩
  obtain ⟨spikes, _, hstate⟩ := bind_eq_ok_iff.mp hinitial
  have hphased := State.phased_initial (mapError_eq_ok_iff.mp hstate)
  exact ⟨rfl, rfl, rfl, rfl, rfl, rfl, rfl, List.length_replicate, rfl, rfl,
    ⟨hphased, hphased, List.forall_mem_nil _⟩, .exhausted _ _⟩

/-- Every frame leads back: a step is never refused when it is taken back. -/
theorem previous_ne_step (hrepresents : simulator.Represents machine) (cause : StepError) :
    simulator.previous ≠ .error (.step cause) := by
  rw [Simulator.previous_eq]
  by_cases htime : simulator.time = 0
  · simp [htime]
  · cases hhistory : simulator.history with
    | nil => simp [htime]
    | cons frame history =>
        obtain ⟨undone, hundone, _⟩ := hrepresents.retreated hhistory
        simp [htime, hundone]

end Simulator.Represents

/-- A simulator answers every sequence of requests like the snapshot machine of
its network and shows the same state, time, output trains and halting after it;
going back never fails in the engine. -/
theorem Simulator.run_eq_snapshotMachine_run {network : Network} {config : SimulatorConfig}
    {simulator : Simulator} (hsimulator : Simulator.ofNetwork network config = .ok simulator) :
    ∃ machine, SnapshotMachine.ofNetwork network config = .ok machine ∧
      ∀ requests : List SimulatorRequest,
        (simulator.run requests).1 = (machine.run requests).1 ∧
          (simulator.run requests).2.view = (machine.run requests).2.view ∧
          ∀ cause, (simulator.run requests).2.previous ≠ .error (.step cause) := by
  obtain ⟨machine, hmachine, hrepresents⟩ := Represents.ofNetwork hsimulator
  refine ⟨machine, hmachine, fun requests => ?_⟩
  obtain ⟨hanswers, hfinal⟩ := hrepresents.run requests
  exact ⟨hanswers, hfinal.view_eq, hfinal.previous_ne_step⟩

/-- With a history of one step, these requests meet every refusal: an exhausted
history, a closed neuron, the end of the run and its start. -/
def Simulator.wandering : List SimulatorRequest :=
  [.next [false, true], .next [false, false], .previous, .previous, .next [false, true],
    .next [false, false], .next [false, false], .reset, .previous]

theorem Simulator.run_eq_snapshotMachine_run_delayedLine :
    ∃ simulator machine,
      Simulator.ofNetwork (.ofEdits Network.delayedLine) ⟨true, some 1⟩ = .ok simulator ∧
        SnapshotMachine.ofNetwork (.ofEdits Network.delayedLine) ⟨true, some 1⟩ = .ok machine ∧
        (simulator.run wandering).1 = (machine.run wandering).1 ∧
        (simulator.run wandering).2.view = (machine.run wandering).2.view ∧
        ∀ cause, (simulator.run wandering).2.previous ≠ .error (.step cause) := by
  have hsimulator : Simulator.ofNetwork (.ofEdits Network.delayedLine) ⟨true, some 1⟩ =
    .ok _ := rfl
  obtain ⟨machine, hmachine, hrun⟩ := run_eq_snapshotMachine_run hsimulator
  exact ⟨_, machine, hsimulator, hmachine, hrun wandering⟩

end SpikingNeuralP
