import SpikingNeuralP.Simulation.Request

/-!
# The snapshot machine

A machine that answers the requests of a simulator and never computes a step
back.  Before every step it stores the whole state with the output trains, and
going back takes the last snapshot from the store.  A budget counts how many
steps may be undone.
-/

namespace SpikingNeuralP

/-- What going back has to restore. -/
structure Snapshot where
  state : State
  outputTrains : List (List Bool)
  deriving DecidableEq, Repr

/-- What a caller sees between two requests. -/
structure SimulatorView where
  state : State
  time : Nat
  outputTrains : List (List Bool)
  halted : Bool
  deriving DecidableEq, Repr

def Simulator.view (simulator : Simulator) : SimulatorView where
  state := simulator.state
  time := simulator.time
  outputTrains := simulator.outputTrains
  halted := simulator.isHalted

/-- The snapshot after a step to `state`: every output neuron's train grows by
whether its count has grown. -/
def Snapshot.extend (outputs : List Nat) (before : Snapshot) (state : State) : Snapshot where
  state := state
  outputTrains := List.zipWith
    (fun neuron train => train ++ [Simulator.received before.state state neuron])
    outputs before.outputTrains

structure SnapshotMachine where
  network : Network
  engine : Engine
  historyLimit : Option Nat
  initial : Snapshot
  current : Snapshot
  /-- The snapshots taken before the steps that led here, the latest first. -/
  past : List Snapshot
  /-- How many steps may be undone. -/
  budget : Nat

namespace SnapshotMachine

def ofNetwork (network : Network) (config : SimulatorConfig) :
    Except SimulatorError SnapshotMachine := do
  let topology ← network.topology.mapError .network
  let state ← (network.initialState topology).mapError .network
  let start : Snapshot :=
    { state, outputTrains := List.replicate network.outputNeurons.length [] }
  return {
    network
    engine := { topology, tracksChanges := config.tracksChanges }
    historyLimit := config.historyLimit
    initial := start
    current := start
    past := []
    budget := 0
  }

/-- Every step that is not undone has left a snapshot. -/
def time (machine : SnapshotMachine) : Nat :=
  machine.past.length

/-- No input is left, nothing is in flight or cooling down, and no rule is
applicable. -/
def halted (machine : SnapshotMachine) : Bool :=
  decide (machine.network.trainLength ≤ machine.time) &&
    !machine.current.state.anyInFlight &&
    machine.current.state.cooldown.all (· == 0) &&
    (machine.network.applicableRules machine.engine.topology machine.current.state).all
      List.isEmpty

/-- The decision with the spikes that arrive at the current time. -/
def input (machine : SnapshotMachine) (decision : List Bool) : StepInput where
  decision := decision
  train := machine.network.train? machine.time

/-- The budget as far as the history limit allows it. -/
def capped (limit : Option Nat) (budget : Nat) : Nat :=
  match limit with
  | some limit => min budget limit
  | none => budget

/-- Stores the current snapshot and goes on to `state`. -/
def push (machine : SnapshotMachine) (state : State) : SnapshotMachine :=
  { machine with
    current := machine.current.extend machine.network.outputNeurons state
    past := machine.current :: machine.past
    budget := capped machine.historyLimit (machine.budget + 1) }

/-- Goes back to the last snapshot that was stored. -/
def pop (machine : SnapshotMachine) : SnapshotMachine :=
  match machine.past with
  | [] => machine
  | before :: past =>
      { machine with current := before, past, budget := machine.budget - 1 }

def rewind (machine : SnapshotMachine) : SnapshotMachine :=
  { machine with current := machine.initial, past := [], budget := 0 }

/-- A refused request changes nothing, and observers are no part of the
machine. -/
def handle (machine : SnapshotMachine) :
    SimulatorRequest → Except SimulatorError SimulatorAnswer × SnapshotMachine
  | .next decision =>
      if machine.halted then
        (.error .halted, machine)
      else
        match machine.engine.forward machine.current.state (machine.input decision) with
        | .ok (report, state) => (.ok (.stepped report), machine.push state)
        | .error cause => (.error (.step cause), machine)
  | .previous =>
      if machine.time = 0 then
        (.error .atStart, machine)
      else if machine.budget = 0 then
        (.error (.historyExhausted machine.time), machine)
      else
        (.ok .done, machine.pop)
  | .reset => (.ok .done, machine.rewind)
  | .observe _ => (.ok .done, machine)

def run (machine : SnapshotMachine) :
    List SimulatorRequest → List (Except SimulatorError SimulatorAnswer) × SnapshotMachine
  | [] => ([], machine)
  | request :: requests =>
      let (answer, handled) := machine.handle request
      let (answers, final) := handled.run requests
      (answer :: answers, final)

def view (machine : SnapshotMachine) : SimulatorView where
  state := machine.current.state
  time := machine.time
  outputTrains := machine.current.outputTrains
  halted := machine.halted

/-- The property holds now, holds at the start and comes back with every
snapshot. -/
structure Everywhere (property : State → Prop) (machine : SnapshotMachine) : Prop where
  initial : property machine.initial.state
  current : property machine.current.state
  past : ∀ snapshot ∈ machine.past, property snapshot.state

variable {property : State → Prop} {machine : SnapshotMachine}

/-- All that a request can do: it is refused, it registers an observer, or it moves
the machine in one of three ways. -/
theorem handle_cases (machine : SnapshotMachine) (request : SimulatorRequest) :
    (∃ failure, machine.handle request = (.error failure, machine)) ∨
      (∃ observer, request = .observe observer ∧
        machine.handle request = (.ok .done, machine)) ∨
      (∃ decision report state, request = .next decision ∧
        machine.engine.forward machine.current.state (machine.input decision) =
          .ok (report, state) ∧
        machine.handle request = (.ok (.stepped report), machine.push state)) ∨
      (∃ before past, request = .previous ∧ machine.past = before :: past ∧
        machine.handle request = (.ok .done, machine.pop)) ∨
      request = .reset ∧ machine.handle request = (.ok .done, machine.rewind) := by
  cases request with
  | next decision =>
      rw [handle]
      split
      case isTrue => exact Or.inl ⟨_, rfl⟩
      case isFalse =>
        split
        case h_1 report state hforward =>
          exact Or.inr (Or.inr (Or.inl ⟨decision, report, state, rfl, hforward, rfl⟩))
        case h_2 => exact Or.inl ⟨_, rfl⟩
  | previous =>
      rw [handle]
      split
      case isTrue => exact Or.inl ⟨_, rfl⟩
      case isFalse htime =>
        split
        case isTrue => exact Or.inl ⟨_, rfl⟩
        case isFalse =>
          rw [time] at htime
          obtain ⟨before, past, hpast⟩ := List.exists_cons_of_length_pos (Nat.pos_of_ne_zero htime)
          exact Or.inr (Or.inr (Or.inr (Or.inl ⟨before, past, rfl, hpast, rfl⟩)))
  | reset => exact Or.inr (Or.inr (Or.inr (Or.inr ⟨rfl, rfl⟩)))
  | observe observer => exact Or.inr (Or.inl ⟨observer, rfl, rfl⟩)

/-- No request touches the snapshot to start over from. -/
theorem initial_handle (machine : SnapshotMachine) (request : SimulatorRequest) :
    (machine.handle request).2.initial = machine.initial := by
  rcases machine.handle_cases request with ⟨_, hhandle⟩ | ⟨_, _, hhandle⟩ |
    ⟨_, _, _, _, _, hhandle⟩ | ⟨before, past, _, hpast, hhandle⟩ | ⟨_, hhandle⟩
  · rw [hhandle]
  · rw [hhandle]
  · rw [hhandle, push]
  · rw [hhandle, pop, hpast]
  · rw [hhandle, rewind]

theorem everywhere_push {state : State} (heverywhere : machine.Everywhere property)
    (hstate : property state) : (machine.push state).Everywhere property where
  initial := heverywhere.initial
  current := hstate
  past := List.forall_mem_cons.mpr ⟨heverywhere.current, heverywhere.past⟩

theorem everywhere_pop (heverywhere : machine.Everywhere property) :
    machine.pop.Everywhere property := by
  rw [pop]
  split
  case h_1 => exact heverywhere
  case h_2 before past hpast =>
    obtain ⟨hbefore, hpast⟩ := List.forall_mem_cons.mp (hpast ▸ heverywhere.past)
    exact ⟨heverywhere.initial, hbefore, hpast⟩

theorem everywhere_rewind (heverywhere : machine.Everywhere property) :
    machine.rewind.Everywhere property where
  initial := heverywhere.initial
  current := heverywhere.initial
  past := List.forall_mem_nil _

/-- Only an accepted step leads to a state that has not been seen. -/
theorem everywhere_handle (heverywhere : machine.Everywhere property)
    {request : SimulatorRequest}
    (hnext : ∀ decision report state, request = .next decision →
      machine.engine.forward machine.current.state (machine.input decision) =
        .ok (report, state) → property state) :
    (machine.handle request).2.Everywhere property := by
  rcases machine.handle_cases request with ⟨_, hhandle⟩ | ⟨_, _, hhandle⟩ |
    ⟨decision, report, state, hrequest, hforward, hhandle⟩ | ⟨_, _, _, _, hhandle⟩ |
    ⟨_, hhandle⟩
  · rw [hhandle]
    exact heverywhere
  · rw [hhandle]
    exact heverywhere
  · rw [hhandle]
    exact everywhere_push heverywhere (hnext decision report state hrequest hforward)
  · rw [hhandle]
    exact everywhere_pop heverywhere
  · rw [hhandle]
    exact everywhere_rewind heverywhere

end SnapshotMachine

end SpikingNeuralP
