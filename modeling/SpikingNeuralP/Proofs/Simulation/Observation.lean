import SpikingNeuralP.Proofs.Simulation.Boundary
import SpikingNeuralP.Proofs.Simulation.Unobserved

/-!
# Observation

An observer is told of every move that succeeds after its registration, once and in
order, and of nothing else; so a counter counts these moves.  Observing changes
nothing that a caller sees.
-/

namespace SpikingNeuralP

/-- The observer that a request registers. -/
def SimulatorRequest.observer? : SimulatorRequest → Option Observer
  | .observe observer => some observer
  | _ => none

/-- The counts of two stretches of a run together. -/
def ChangeCounter.plus (counts more : ChangeCounter) : ChangeCounter where
  next := counts.next + more.next
  previous := counts.previous + more.previous
  resets := counts.resets + more.resets
  touched := counts.touched + more.touched

namespace Move

/-- What observers are told of a move: nothing when it is refused, and else the
state and the time it has led to. -/
def transition? (move : Move) : Option Transition :=
  match move.request, move.answer with
  | .next _, .ok (.stepped report) => some (.next move.after.state move.after.time report)
  | .previous, .ok _ => some (.previous move.after.state move.after.time)
  | .reset, .ok _ => some (.reset move.after.state)
  | _, _ => none

def told (moves : List Move) : List Transition :=
  moves.filterMap transition?

/-- The counts of the moves that succeeded, with the redraws of the steps among
them. -/
def tally (moves : List Move) : ChangeCounter where
  next := moves.countP (·.succeeded .next)
  previous := moves.countP (·.succeeded .previous)
  resets := moves.countP (·.succeeded .reset)
  touched := (moves.map redraws).sum

theorem told_concat (moves : List Move) (move : Move) :
    told (moves ++ [move]) = told moves ++ told [move] :=
  List.filterMap_append

theorem tally_concat (moves : List Move) (move : Move) :
    tally (moves ++ [move]) = (tally moves).plus (tally [move]) := by
  simp [tally, ChangeCounter.plus, List.countP_append]

end Move

theorem foldl_notify_recorder (transitions : List Transition) :
    transitions.foldl Observer.notify (.recorder []) = .recorder transitions := by
  induction transitions using List.reverseRecOn with
  | nil => rfl
  | append_singleton transitions transition ih =>
      rw [List.foldl_append, ih]
      rfl

namespace Simulator

variable {network : Network} {config : SimulatorConfig} {start simulator : Simulator}
  {allowed : Simulator → List Bool → Prop} {request : SimulatorRequest} {observer : Observer}
  {index : Nat}

section Notifying

/-- Every observer is told of the move, and a new one comes last. -/
theorem observers_handle (simulator : Simulator) (request : SimulatorRequest) :
    (simulator.handle request).2.observers =
      simulator.observers.map
          (fun observer => (Move.told [simulator.move request]).foldl Observer.notify observer) ++
        request.observer?.toList := by
  rcases simulator.handle_cases request with ⟨_, hrefused⟩ | ⟨_, rfl, hobserved⟩ |
    ⟨_, _, _, rfl, _, hadvanced⟩ | ⟨_, _, _, rfl, _, _, _, hretreated⟩ | ⟨rfl, hreset⟩
  · rw [move_eq hrefused, hrefused]
    cases request with
    | observe observer => cases hrefused
    | _ => exact ((List.append_nil _).trans (List.map_id _)).symm
  · rw [move_eq hobserved, hobserved]
    exact congrArg (· ++ _) (List.map_id _).symm
  · rw [move_eq hadvanced, hadvanced]
    exact (List.append_nil _).symm
  · rw [move_eq hretreated, hretreated]
    exact (List.append_nil _).symm
  · rw [move_eq hreset, hreset]
    exact (List.append_nil _).symm

theorem length_observers_run (simulator : Simulator) (requests : List SimulatorRequest) :
    (simulator.run requests).2.observers.length =
      simulator.observers.length + (requests.filterMap SimulatorRequest.observer?).length := by
  induction requests using List.reverseRecOn with
  | nil => rfl
  | append_singleton requests request ih =>
      rw [run_concat, observers_handle, List.length_append, List.length_map, ih,
        List.filterMap_append, List.length_append, Nat.add_assoc]
      cases request <;> rfl

theorem getElem?_observers_run (hobserver : simulator.observers[index]? = some observer)
    (requests : List SimulatorRequest) :
    (simulator.run requests).2.observers[index]? =
      some ((Move.told (simulator.moves requests)).foldl Observer.notify observer) := by
  induction requests using List.reverseRecOn with
  | nil => exact hobserver
  | append_singleton requests request ih =>
      have hindex := (List.getElem?_eq_some_iff.mp ih).1
      rw [run_concat, observers_handle, List.getElem?_append_left (by simpa using hindex),
        List.getElem?_map, ih, moves_concat, Move.told_concat, List.foldl_append]
      rfl

end Notifying

section Counting

variable (hstart : ofNetwork network config = .ok start)
  (hcount : network.neuronCount ≤ UInt32.size)

include hstart hcount

theorem length_touched_of_forward (hreaches : start.Reaches allowed simulator)
    {decision : List Bool} {report : StepReport} {state : State}
    (hforward : simulator.engine.forward simulator.state (simulator.input decision) =
      .ok (report, state)) :
    report.touched.length =
      if simulator.engine.tracksChanges then
        simulator.state.redraws state simulator.network.neuronCount
      else
        0 := by
  obtain ⟨hstep, rfl⟩ := Engine.forward_eq_ok_iff.mp hforward
  have hneurons : simulator.engine.topology.neuronCount = simulator.network.neuronCount :=
    (hreaches.assembles hstart).neuronCount_eq
  have hsize : simulator.engine.topology.neuronCount ≤ UInt32.size := by
    rw [hneurons, hreaches.network_eq hstart]
    exact hcount
  rw [Engine.report, StepReport.touched, ← hneurons]
  cases simulator.engine.tracksChanges with
  | false => rfl
  | true => exact ChangeSet.length_touched_between hstep.fits hstep.next_fits hsize

theorem foldl_notify_move (hreaches : start.Reaches allowed simulator)
    (request : SimulatorRequest) (counts : ChangeCounter) :
    (Move.told [simulator.move request]).foldl Observer.notify (.counter counts) =
      .counter (counts.plus (Move.tally [simulator.move request])) := by
  rcases simulator.handle_cases request with ⟨_, hrefused⟩ | ⟨_, rfl, hobserved⟩ |
    ⟨decision, report, state, rfl, hforward, hadvanced⟩ |
    ⟨_, _, _, rfl, _, _, _, hretreated⟩ | ⟨rfl, hreset⟩
  · rw [move_eq hrefused]
    cases request <;> rfl
  · rw [move_eq hobserved]
    rfl
  · rw [move_eq hadvanced]
    -- Only here do the redraws count, and the report has to be trusted for them.
    have htouched : (Move.tally [⟨simulator, .next decision, .ok (.stepped report),
        simulator.advanced decision report state⟩]).touched = report.touched.length :=
      (Nat.add_zero _).trans (length_touched_of_forward hstart hcount hreaches hforward).symm
    rw [ChangeCounter.plus, htouched]
    rfl
  · rw [move_eq hretreated]
    rfl
  · rw [move_eq hreset]
    rfl

theorem foldl_notify_moves (hreaches : start.Reaches (fun _ _ => True) simulator)
    (requests : List SimulatorRequest) :
    (Move.told (simulator.moves requests)).foldl Observer.notify (.counter .zero) =
      .counter (Move.tally (simulator.moves requests)) := by
  induction requests using List.reverseRecOn with
  | nil => rfl
  | append_singleton requests request ih =>
      rw [moves_concat, Move.told_concat, List.foldl_append, ih, Move.tally_concat]
      exact foldl_notify_move hstart hcount (hreaches.run requests) request _

end Counting

/-- The observer that is registered after the `earlier` requests, as it is when the
`later` ones are done. -/
def observerAfter (start : Simulator) (earlier : List SimulatorRequest) (observer : Observer)
    (later : List SimulatorRequest) : Option Observer :=
  (start.run (earlier ++ .observe observer :: later)).2.observers[
    (earlier.filterMap SimulatorRequest.observer?).length]?

/-- The moves that are made after the registration. -/
def movesSince (start : Simulator) (earlier : List SimulatorRequest) (observer : Observer)
    (later : List SimulatorRequest) : List Move :=
  ((start.run earlier).2.observe observer).moves later

/-- Observers learn of the moves since their registration, and nothing depends on
them or on whether changes are tracked. -/
structure ObservesExactly (network : Network) (config : SimulatorConfig) (start : Simulator) :
    Prop where
  observerCount : ∀ requests, (start.run requests).2.observers.length =
    (requests.filterMap SimulatorRequest.observer?).length
  told : ∀ earlier observer later, start.observerAfter earlier observer later =
    some ((Move.told (start.movesSince earlier observer later)).foldl Observer.notify observer)
  recorded : ∀ earlier later, start.observerAfter earlier (.recorder []) later =
    some (.recorder (Move.told (start.movesSince earlier (.recorder []) later)))
  counted : ∀ earlier later, start.observerAfter earlier (.counter .zero) later =
    some (.counter (Move.tally (start.movesSince earlier (.counter .zero) later)))
  balanced : ∀ earlier observer later, (start.run earlier).2.time = 0 →
    (Move.sinceReset (start.movesSince earlier observer later)).countP (·.succeeded .next) =
      (Move.sinceReset (start.movesSince earlier observer later)).countP
          (·.succeeded .previous) +
        (start.run (earlier ++ .observe observer :: later)).2.time
  unobserved : ∀ tracksChanges, ∃ twin,
    ofNetwork network { config with tracksChanges } = .ok twin ∧
      ∀ requests others, requests.filter (·.kind?.isSome) = others.filter (·.kind?.isSome) →
        start.outcomes requests = twin.outcomes others

theorem run_observe (start : Simulator) (earlier : List SimulatorRequest) (observer : Observer)
    (later : List SimulatorRequest) :
    (start.run (earlier ++ .observe observer :: later)).2 =
      (((start.run earlier).2.observe observer).run later).2 :=
  start.run_append earlier (.observe observer :: later)

theorem observerAfter_eq (hobservers : start.observers = []) (earlier : List SimulatorRequest)
    (observer : Observer) (later : List SimulatorRequest) :
    start.observerAfter earlier observer later =
      some ((Move.told (start.movesSince earlier observer later)).foldl Observer.notify
        observer) := by
  have hlength := start.length_observers_run earlier
  rw [hobservers, List.length_nil, Nat.zero_add] at hlength
  have hregistered : ((start.run earlier).2.observe observer).observers[
      (earlier.filterMap SimulatorRequest.observer?).length]? = some observer := by
    rw [← hlength]
    exact List.getElem?_concat_length
  rw [observerAfter, run_observe]
  exact getElem?_observers_run hregistered later

theorem observesExactly_of_ofNetwork (hstart : ofNetwork network config = .ok start)
    (hcount : network.neuronCount ≤ UInt32.size) : ObservesExactly network config start := by
  have hobservers : start.observers = [] := by
    obtain ⟨_, _, _, _, rfl⟩ := ofNetwork_eq_ok_iff.mp hstart
    rfl
  refine ⟨?_, observerAfter_eq hobservers, ?_, ?_, ?_, ?_⟩
  · intro requests
    rw [length_observers_run, hobservers, List.length_nil, Nat.zero_add]
  · intro earlier later
    rw [observerAfter_eq hobservers, foldl_notify_recorder]
  · intro earlier later
    have hreaches : start.Reaches (fun _ _ => True)
        ((start.run earlier).2.observe (.counter .zero)) :=
      (Reaches.run .refl earlier).request (.observe (.counter .zero)) fun _ _ => trivial
    rw [observerAfter_eq hobservers]
    exact congrArg some (foldl_notify_moves hstart hcount hreaches later)
  · intro earlier observer later htime
    have hregistered : ((start.run earlier).2.observe observer).time = 0 := htime
    rw [run_observe]
    exact countP_next_sinceReset hregistered later
  · intro tracksChanges
    obtain ⟨twin, htwin, hsame⟩ := exists_ofNetwork_tracking hstart tracksChanges
    exact ⟨twin, htwin, fun _ _ hrequests => outcomes_eq hsame.symm hrequests⟩

/-- Of the nine requests four are refused, and the counter has not heard of them. -/
theorem observesExactly_of_ofNetwork_delayedLine :
    ∃ start, ofNetwork (.ofEdits Network.delayedLine) ⟨true, some 1⟩ = .ok start ∧
      (Network.ofEdits Network.delayedLine).neuronCount ≤ UInt32.size ∧
      start.observerAfter [] (.counter .zero) wandering = some (.counter ⟨3, 1, 1, 8⟩) ∧
      ObservesExactly (.ofEdits Network.delayedLine) ⟨true, some 1⟩ start := by
  have hstart : ofNetwork (.ofEdits Network.delayedLine) ⟨true, some 1⟩ = .ok _ := rfl
  exact ⟨_, hstart, by decide, rfl, observesExactly_of_ofNetwork hstart (by decide)⟩

end Simulator

end SpikingNeuralP
