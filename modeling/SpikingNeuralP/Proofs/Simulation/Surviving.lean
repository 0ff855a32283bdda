import SpikingNeuralP.Proofs.Simulation.Reach

/-!
# Surviving steps

Of the steps a simulator has made, those survive that have not been taken back and
were made since it last started over.  They are read off the requests and their
answers alone.  There are as many of them as the time says, and what every further
step keeps of the steps made and the snapshot they led to holds of the steps that
survive, since a step that is taken back leads to the snapshot before it.
-/

namespace SpikingNeuralP

/-- A step that has been made: the decision, and the state it was made in. -/
structure MadeStep where
  decision : List Bool
  before : State
  deriving DecidableEq, Repr

namespace Simulator

/-- The steps that survive a request to a simulator in state `before`, oldest
first: a step that is made comes last, the one that is taken back is the last, and
starting over leaves none. -/
def surviving (steps : List MadeStep) (before : State) :
    SimulatorRequest → Except SimulatorError SimulatorAnswer → List MadeStep
  | .next decision, .ok _ => steps ++ [{ decision, before }]
  | .previous, .ok _ => steps.dropLast
  | .reset, .ok _ => []
  | _, _ => steps

/-- The steps that survive all the requests, when `steps` survived before. -/
def survivingSteps (simulator : Simulator) (steps : List MadeStep) :
    List SimulatorRequest → List MadeStep
  | [] => steps
  | request :: requests =>
      let (answer, handled) := simulator.handle request
      handled.survivingSteps (surviving steps simulator.state request answer) requests

/-- What going back to this place of the run restores. -/
def snapshot (simulator : Simulator) : Snapshot where
  state := simulator.state
  outputTrains := simulator.outputTrains

end Simulator

/-- The property holds of the current snapshot with all the steps, of the snapshot
stored last with all but the last of them, and so on down to the first snapshot,
with none. -/
inductive Accounts (property : List MadeStep → Snapshot → Prop) :
    List MadeStep → Snapshot → List Snapshot → Prop
  | start {current : Snapshot} (hcurrent : property [] current) : Accounts property [] current []
  | step {steps : List MadeStep} {before current : Snapshot} {past : List Snapshot}
      (hrest : Accounts property steps before past) (step : MadeStep)
      (hcurrent : property (steps ++ [step]) current) :
      Accounts property (steps ++ [step]) current (before :: past)

namespace Accounts

variable {property : List MadeStep → Snapshot → Prop} {steps : List MadeStep}
  {current before : Snapshot} {past : List Snapshot}

theorem property_current (haccounts : Accounts property steps current past) :
    property steps current := by
  cases haccounts with
  | start hcurrent => exact hcurrent
  | step _ _ hcurrent => exact hcurrent

theorem length_eq (haccounts : Accounts property steps current past) :
    steps.length = past.length := by
  induction haccounts with
  | start => rfl
  | step _ _ _ ih => rw [List.length_append, List.length_singleton, List.length_cons, ih]

/-- Taking a step back leaves the account of the steps before it. -/
theorem dropLast (haccounts : Accounts property steps current (before :: past)) :
    Accounts property steps.dropLast before past := by
  cases haccounts with
  | step hrest step _ =>
      rw [List.dropLast_concat]
      exact hrest

end Accounts

namespace Simulator

variable {property : List MadeStep → Snapshot → Prop} {network : Network}
  {config : SimulatorConfig} {start simulator : Simulator} {machine : SnapshotMachine}
  {steps : List MadeStep}

/-- The machine that the simulator retraces holds the steps to account. -/
structure AccountsFor (property : List MadeStep → Snapshot → Prop) (simulator : Simulator)
    (machine : SnapshotMachine) (steps : List MadeStep) : Prop where
  represents : simulator.Represents machine
  initial : property [] machine.initial
  accounts : Accounts property steps machine.current machine.past

theorem Represents.snapshot_eq (hrepresents : simulator.Represents machine) :
    simulator.snapshot = machine.current := by
  rw [snapshot, hrepresents.state, hrepresents.outputTrains]

theorem AccountsFor.handle (haccounts : simulator.AccountsFor property machine steps)
    (request : SimulatorRequest)
    (hstep : ∀ decision report state,
      simulator.engine.forward simulator.state (simulator.input decision) = .ok (report, state) →
        property (steps ++ [{ decision, before := simulator.state }])
          (simulator.snapshot.extend simulator.network.outputNeurons state)) :
    (simulator.handle request).2.AccountsFor property (machine.handle request).2
      (surviving steps simulator.state request (simulator.handle request).1) := by
  obtain ⟨hrepresents, hinitial, hsteps⟩ := haccounts
  obtain ⟨hanswer, hhandled⟩ := hrepresents.handle request
  refine ⟨hhandled, ?_, ?_⟩
  · rw [SnapshotMachine.initial_handle]
    exact hinitial
  · rw [hanswer]
    rcases machine.handle_cases request with ⟨failure, hmachine⟩ | ⟨observer, rfl, hmachine⟩ |
      ⟨decision, report, state, rfl, hforward, hmachine⟩ | ⟨before, past, rfl, hpast, hmachine⟩ |
      ⟨rfl, hmachine⟩
    · rw [hmachine]
      cases request <;> exact hsteps
    · rw [hmachine]
      exact hsteps
    · rw [← hrepresents.engine, ← hrepresents.state, ← hrepresents.input_eq] at hforward
      have hcurrent := hstep decision report state hforward
      rw [hrepresents.snapshot_eq, hrepresents.network] at hcurrent
      rw [hmachine]
      exact hsteps.step _ hcurrent
    · rw [hmachine, SnapshotMachine.pop, hpast]
      rw [hpast] at hsteps
      exact hsteps.dropLast
    · rw [hmachine]
      exact .start hinitial

section Run

variable (hstep : ∀ simulator steps decision report state,
  start.Reaches (fun _ _ => True) simulator → steps.length = simulator.time →
  property steps simulator.snapshot →
  simulator.engine.forward simulator.state (simulator.input decision) = .ok (report, state) →
    property (steps ++ [{ decision, before := simulator.state }])
      (simulator.snapshot.extend simulator.network.outputNeurons state))

include hstep

theorem AccountsFor.run (haccounts : simulator.AccountsFor property machine steps)
    (hreaches : start.Reaches (fun _ _ => True) simulator) (requests : List SimulatorRequest) :
    (simulator.run requests).2.AccountsFor property (machine.run requests).2
      (simulator.survivingSteps steps requests) := by
  induction requests generalizing simulator machine steps with
  | nil => exact haccounts
  | cons request requests ih =>
      have htime : steps.length = simulator.time :=
        haccounts.accounts.length_eq.trans haccounts.represents.time.symm
      have hcurrent : property steps simulator.snapshot := by
        rw [haccounts.represents.snapshot_eq]
        exact haccounts.accounts.property_current
      have hhandled := haccounts.handle request fun decision report state hforward =>
        hstep simulator steps decision report state hreaches htime hcurrent hforward
      exact ih hhandled (hreaches.request request fun _ _ => trivial)

/-- What holds at the start and is kept by every step holds of the steps that
survive any requests, and the time tells how many they are. -/
theorem holds_of_survivingSteps (hstart : ofNetwork network config = .ok start)
    (hinitial : property [] start.snapshot) (requests : List SimulatorRequest) :
    (start.survivingSteps [] requests).length = (start.run requests).2.time ∧
      property (start.survivingSteps [] requests) (start.run requests).2.snapshot := by
  obtain ⟨machine, hmachine, hrepresents⟩ := Represents.ofNetwork hstart
  have hcurrent : property [] machine.current := hrepresents.snapshot_eq ▸ hinitial
  have haccounts : start.AccountsFor property machine [] := by
    obtain ⟨topology, _, hrest⟩ := bind_eq_ok_iff.mp hmachine
    obtain ⟨state, _, hanswer⟩ := bind_eq_ok_iff.mp hrest
    obtain rfl := Except.ok.inj hanswer
    exact ⟨hrepresents, hcurrent, .start hcurrent⟩
  have hfinal := haccounts.run hstep .refl requests
  refine ⟨hfinal.accounts.length_eq.trans hfinal.represents.time.symm, ?_⟩
  rw [hfinal.represents.snapshot_eq]
  exact hfinal.accounts.property_current

end Run

end Simulator

end SpikingNeuralP
