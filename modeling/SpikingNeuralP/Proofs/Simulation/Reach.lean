import SpikingNeuralP.Proofs.Network.Semantics
import SpikingNeuralP.Proofs.Simulation.Retracing

/-!
# Reachable simulators

Requests in any order lead from a new simulator to the reachable ones.  Going
back and starting over only return to states that have been seen before, so a
property that every forward step keeps holds in all reachable states; and every
forward step from a reachable state follows the semantics of the network.
-/

namespace SpikingNeuralP

namespace SnapshotMachine

theorem everywhere_ofNetwork {property : State → Prop} {network : Network}
    {config : SimulatorConfig} {machine : SnapshotMachine}
    (hmachine : ofNetwork network config = .ok machine)
    (hcurrent : property machine.current.state) : machine.Everywhere property := by
  obtain ⟨topology, _, hrest⟩ := bind_eq_ok_iff.mp hmachine
  obtain ⟨state, _, hanswer⟩ := bind_eq_ok_iff.mp hrest
  obtain rfl := Except.ok.inj hanswer
  exact ⟨hcurrent, hcurrent, List.forall_mem_nil _⟩

end SnapshotMachine

namespace Simulator

variable {network : Network} {config : SimulatorConfig} {start simulator after : Simulator}
  {allowed : Simulator → List Bool → Prop} {decision : List Bool} {report : StepReport}

theorem of_ofNetwork (hstart : ofNetwork network config = .ok start) :
    start.network = network ∧ network.topology = .ok start.topology ∧
      network.initialState start.topology = .ok start.state := by
  obtain ⟨topology, initial, htopology, hinitial, rfl⟩ := ofNetwork_eq_ok_iff.mp hstart
  exact ⟨rfl, htopology, hinitial⟩

theorem next_eq_ok_iff :
    simulator.next decision = .ok (report, after) ↔
      simulator.isHalted = false ∧ ∃ state,
        simulator.engine.forward simulator.state (simulator.input decision) =
            .ok (report, state) ∧
          after = simulator.advanced decision report state := by
  rw [next_eq]
  cases hhalted : simulator.isHalted with
  | true => simp
  | false =>
      cases hforward : simulator.engine.forward simulator.state (simulator.input decision) with
      | error cause => simp
      | ok accepted =>
          obtain ⟨report', state⟩ := accepted
          constructor
          · intro haccepted
            obtain ⟨rfl, rfl⟩ := Prod.mk.inj (Except.ok.inj haccepted)
            exact ⟨rfl, state, rfl, rfl⟩
          · rintro ⟨_, state', hsame, rfl⟩
            obtain ⟨rfl, rfl⟩ := Prod.mk.inj (Except.ok.inj hsame)
            rfl

theorem previous_eq_ok_iff :
    simulator.previous = .ok after ↔
      simulator.time ≠ 0 ∧ ∃ frame history undone, simulator.history = frame :: history ∧
        simulator.engine.backward simulator.state frame.step = .ok undone ∧
        after = simulator.retreated frame history undone := by
  rw [previous_eq]
  by_cases htime : simulator.time = 0
  · simp [htime]
  · cases hhistory : simulator.history with
    | nil => simp [htime]
    | cons frame history =>
        cases hbackward : simulator.engine.backward simulator.state frame.step with
        | error cause => simp [htime, hbackward]
        | ok undone => simp [htime, hbackward, eq_comm]

/-- All that a request can do: it is refused, it registers an observer, or it moves
the simulator in one of three ways. -/
theorem handle_cases (simulator : Simulator) (request : SimulatorRequest) :
    (∃ failure, simulator.handle request = (.error failure, simulator)) ∨
      (∃ observer, request = .observe observer ∧
        simulator.handle request = (.ok .done, simulator.observe observer)) ∨
      (∃ decision report state, request = .next decision ∧
        simulator.engine.forward simulator.state (simulator.input decision) =
          .ok (report, state) ∧
        simulator.handle request =
          (.ok (.stepped report), simulator.advanced decision report state)) ∨
      (∃ frame history undone, request = .previous ∧ simulator.time ≠ 0 ∧
        simulator.history = frame :: history ∧
        simulator.engine.backward simulator.state frame.step = .ok undone ∧
        simulator.handle request = (.ok .done, simulator.retreated frame history undone)) ∨
      request = .reset ∧ simulator.handle request = (.ok .done, simulator.reset) := by
  cases request with
  | next decision =>
      rw [handle]
      cases hnext : simulator.next decision with
      | error failure => exact Or.inl ⟨failure, rfl⟩
      | ok accepted =>
          obtain ⟨report, after⟩ := accepted
          obtain ⟨_, state, hforward, rfl⟩ := next_eq_ok_iff.mp hnext
          exact Or.inr (Or.inr (Or.inl ⟨decision, report, state, rfl, hforward, rfl⟩))
  | previous =>
      rw [handle]
      cases hprevious : simulator.previous with
      | error failure => exact Or.inl ⟨failure, rfl⟩
      | ok after =>
          obtain ⟨htime, frame, history, undone, hhistory, hbackward, rfl⟩ :=
            previous_eq_ok_iff.mp hprevious
          exact Or.inr (Or.inr (Or.inr (Or.inl
            ⟨frame, history, undone, rfl, htime, hhistory, hbackward, rfl⟩)))
  | reset => exact Or.inr (Or.inr (Or.inr (Or.inr ⟨rfl, rfl⟩)))
  | observe observer => exact Or.inr (Or.inl ⟨observer, rfl, rfl⟩)

/-- No request exchanges the network or the engine. -/
theorem handle_system (simulator : Simulator) (request : SimulatorRequest) :
    (simulator.handle request).2.network = simulator.network ∧
      (simulator.handle request).2.engine = simulator.engine := by
  rcases simulator.handle_cases request with ⟨_, hrefused⟩ | ⟨_, _, hobserved⟩ |
    ⟨_, _, _, _, _, hadvanced⟩ | ⟨_, _, _, _, _, _, _, hretreated⟩ | ⟨_, hreset⟩
  · rw [hrefused]
    exact ⟨rfl, rfl⟩
  · rw [hobserved]
    exact ⟨rfl, rfl⟩
  · rw [hadvanced]
    exact ⟨rfl, rfl⟩
  · rw [hretreated]
    exact ⟨rfl, rfl⟩
  · rw [hreset]
    exact ⟨rfl, rfl⟩

/-- The simulators that requests lead to when only allowed decisions are made. -/
inductive Reaches (allowed : Simulator → List Bool → Prop) (start : Simulator) :
    Simulator → Prop
  | refl : Reaches allowed start start
  | request {simulator : Simulator} (hreaches : Reaches allowed start simulator)
      (request : SimulatorRequest)
      (hallowed : ∀ decision, request = .next decision → allowed simulator decision) :
      Reaches allowed start (simulator.handle request).2

/-- Every run is made of requests, and any decision may be allowed. -/
theorem Reaches.run (hreaches : start.Reaches (fun _ _ => True) simulator)
    (requests : List SimulatorRequest) :
    start.Reaches (fun _ _ => True) (simulator.run requests).2 := by
  induction requests generalizing simulator with
  | nil => exact hreaches
  | cons request requests ih => exact ih (hreaches.request request fun _ _ => trivial)

theorem Reaches.system (hreaches : start.Reaches allowed simulator) :
    simulator.network = start.network ∧ simulator.engine = start.engine := by
  induction hreaches with
  | refl => exact ⟨rfl, rfl⟩
  | request _ request _ ih =>
      obtain ⟨hnetwork, hengine⟩ := handle_system _ request
      exact ⟨hnetwork.trans ih.1, hengine.trans ih.2⟩

theorem Reaches.network_eq (hstart : ofNetwork network config = .ok start)
    (hreaches : start.Reaches allowed simulator) : simulator.network = network :=
  hreaches.system.1.trans (of_ofNetwork hstart).1

/-- A reachable simulator retraces its run, and what every step keeps holds at
every place of the run. -/
theorem Reaches.represents {property : State → Prop}
    (hstart : ofNetwork network config = .ok start) (hinitial : property start.state)
    (hstep : ∀ simulator decision report state, start.Reaches allowed simulator →
      allowed simulator decision → property simulator.state →
      simulator.engine.forward simulator.state (simulator.input decision) =
        .ok (report, state) → property state)
    (hreaches : start.Reaches allowed simulator) :
    ∃ machine, simulator.Represents machine ∧ machine.Everywhere property := by
  -- Going back restores an older state, so the property is carried along for the
  -- whole past of the machine and not for its current state alone.
  induction hreaches with
  | refl =>
      obtain ⟨machine, hmachine, hrepresents⟩ := Represents.ofNetwork hstart
      rw [hrepresents.state] at hinitial
      exact ⟨machine, hrepresents, SnapshotMachine.everywhere_ofNetwork hmachine hinitial⟩
  | request hreaches request hallowed ih =>
      rename_i simulator
      obtain ⟨machine, hrepresents, heverywhere⟩ := ih
      refine ⟨_, (hrepresents.handle request).2, SnapshotMachine.everywhere_handle heverywhere ?_⟩
      intro decision report state hrequest hforward
      rw [← hrepresents.engine, ← hrepresents.state, ← hrepresents.input_eq] at hforward
      exact hstep simulator decision report state hreaches (hallowed decision hrequest)
        (hrepresents.state ▸ heverywhere.current) hforward

/-- A property of states that allowed steps keep holds in every reachable
state. -/
theorem Reaches.invariant {property : State → Prop}
    (hstart : ofNetwork network config = .ok start) (hinitial : property start.state)
    (hstep : ∀ simulator decision report state, start.Reaches allowed simulator →
      allowed simulator decision → property simulator.state →
      simulator.engine.forward simulator.state (simulator.input decision) =
        .ok (report, state) → property state)
    (hreaches : start.Reaches allowed simulator) : property simulator.state := by
  obtain ⟨machine, hrepresents, heverywhere⟩ := hreaches.represents hstart hinitial hstep
  exact hrepresents.state ▸ heverywhere.current

theorem Reaches.exists_represents (hstart : ofNetwork network config = .ok start)
    (hreaches : start.Reaches allowed simulator) : ∃ machine, simulator.Represents machine := by
  obtain ⟨machine, hrepresents, _⟩ : ∃ machine, simulator.Represents machine ∧
      machine.Everywhere fun _ => True :=
    hreaches.represents hstart trivial fun _ _ _ _ _ _ _ _ => trivial
  exact ⟨machine, hrepresents⟩

theorem Reaches.phased (hstart : ofNetwork network config = .ok start)
    (hreaches : start.Reaches allowed simulator) : simulator.state.Phased start.topology := by
  obtain ⟨machine, hrepresents⟩ := hreaches.exists_represents hstart
  have hphased := hrepresents.phased.current
  rw [← hrepresents.engine, ← hrepresents.state, hreaches.system.2] at hphased
  exact hphased

/-- What an accepted forward step of a reachable simulator does to the state. -/
theorem Reaches.steps (hwell : network.WellFormed)
    (hstart : ofNetwork network config = .ok start)
    (hreaches : start.Reaches allowed simulator) {state : State}
    (hforward : simulator.engine.forward simulator.state (simulator.input decision) =
      .ok (report, state)) :
    network.Steps start.topology simulator.time decision simulator.state state := by
  obtain ⟨_, htopology, _⟩ := of_ofNetwork hstart
  have hstep := (Engine.forward_eq_ok_iff.mp hforward).1
  rw [input, hreaches.system.2, hreaches.network_eq hstart] at hstep
  exact Network.steps_of_advances hwell (Network.assembles_of_topology htopology)
    (hreaches.phased hstart) hstep

/-- After any requests to a simulator of a network that was built by edits, every
successful step follows the semantics of the network. -/
theorem steps_of_next {edits : List NetworkEdit}
    (hstart : ofNetwork (.ofEdits edits) config = .ok start)
    (requests : List SimulatorRequest)
    (hnext : (start.run requests).2.next decision = .ok (report, after)) :
    (Network.ofEdits edits).Steps start.topology (start.run requests).2.time decision
      (start.run requests).2.state after.state := by
  obtain ⟨_, state, hforward, rfl⟩ := next_eq_ok_iff.mp hnext
  have hreaches : start.Reaches (fun _ _ => True) (start.run requests).2 :=
    Reaches.run .refl requests
  exact hreaches.steps (Network.wellFormed_ofEdits edits) hstart hforward

/-- The second step releases the delayed rule while spikes arrive at its neuron. -/
theorem steps_of_next_delayedLine :
    ∃ start report after,
      ofNetwork (.ofEdits Network.delayedLine) .standard = .ok start ∧
        (start.run [.next [false, true]]).2.next [false, false] = .ok (report, after) ∧
        after.state.spikes = [0, 1, 3] ∧ after.state.firing = [true, true, false] ∧
        (Network.ofEdits Network.delayedLine).Steps start.topology 1 [false, false]
          (start.run [.next [false, true]]).2.state after.state := by
  have hstart : ofNetwork (.ofEdits Network.delayedLine) .standard = .ok _ := rfl
  exact ⟨_, _, _, hstart, rfl, rfl, rfl, steps_of_next hstart [.next [false, true]] rfl⟩

end Simulator

end SpikingNeuralP
