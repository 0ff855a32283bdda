import SpikingNeuralP.Proofs.Network.Choices
import SpikingNeuralP.Proofs.Random.Choice
import SpikingNeuralP.Proofs.Simulation.Reach
import SpikingNeuralP.Proofs.Step.Walk

/-!
# Where a simulator stops

A reachable simulator refuses to move only at the ends of its run.  When every
neuron chooses one of its applicable rules, the decision passes all checks of the
engine, so a step fails in the final configuration or for a spike count that
cannot be held; and when no frame of the history is dropped, going back fails at
the start alone.
-/

namespace SpikingNeuralP

namespace Simulator

variable {network : Network} {config : SimulatorConfig} {start simulator : Simulator}
  {allowed : Simulator → List Bool → Prop} {choices : List (Option Nat)} {decision : List Bool}
  {neuron index : Nat} {failure : SimulatorError}

/-- Every neuron chooses one of its applicable rules, or nothing if it has
none. -/
def Admits (simulator : Simulator) (choices : List (Option Nat)) : Prop :=
  List.Forall₂ IsChoice simulator.applicableRules choices

theorem Admits.length (hadmits : simulator.Admits choices) :
    choices.length = simulator.network.neuronCount :=
  hadmits.length_eq.symm.trans Network.length_applicableRules

theorem Admits.mem (hadmits : simulator.Admits choices)
    (hchoice : choices[neuron]? = some (some index)) :
    index ∈ simulator.applicableRules.getD neuron [] := by
  obtain ⟨hneuron, hchoice⟩ := List.getElem?_eq_some_iff.mp hchoice
  have hchosen := hadmits.get (hadmits.length_eq ▸ hneuron) hneuron
  rw [List.get_eq_getElem, List.get_eq_getElem, hchoice] at hchosen
  rw [List.getD_eq_getElem _ _ (hadmits.length_eq ▸ hneuron)]
  exact hchosen

theorem Admits.exists_decision (hadmits : simulator.Admits choices) :
    ∃ decision, simulator.network.decision choices = .ok decision :=
  Network.exists_decision_of_applicable hadmits.length fun _ _ => hadmits.mem

/-- Choices of applicable rules pass the checks of a decision. -/
theorem Admits.permits (hadmits : simulator.Admits choices)
    (hassembles : simulator.network.Assembles simulator.topology)
    (hdecision : simulator.network.decision choices = .ok decision) :
    simulator.topology.Permits simulator.state decision :=
  Network.permits_of_applicable hassembles hdecision fun _ _ => hadmits.mem

/-- The arriving spikes have an entry for every rule whenever the decision has. -/
theorem input_fits (hassembles : simulator.network.Assembles simulator.topology)
    (hlength : decision.length = simulator.topology.ruleCount) :
    (simulator.input decision).Fits simulator.topology where
  decision := hlength
  train _ htrain := (Network.length_of_train? htrain).trans hassembles.ruleCount_eq.symm

theorem next_eq_error_iff :
    simulator.next decision = .error failure ↔
      simulator.isHalted = true ∧ failure = .halted ∨
        simulator.isHalted = false ∧ ∃ cause,
          simulator.engine.forward simulator.state (simulator.input decision) = .error cause ∧
            failure = .step cause := by
  rw [next_eq]
  cases simulator.isHalted with
  | true => simp [eq_comm]
  | false =>
      cases simulator.engine.forward simulator.state (simulator.input decision) with
      | error cause => simp [eq_comm]
      | ok accepted => simp

namespace Reaches

theorem assembles (hstart : ofNetwork network config = .ok start)
    (hreaches : start.Reaches allowed simulator) :
    simulator.network.Assembles simulator.topology := by
  obtain ⟨_, htopology, _⟩ := of_ofNetwork hstart
  rw [hreaches.network_eq hstart, topology, hreaches.system.2]
  exact Network.assembles_of_topology htopology

theorem fits (hstart : ofNetwork network config = .ok start)
    (hreaches : start.Reaches allowed simulator) :
    simulator.state.Fits simulator.topology := by
  obtain ⟨_, _, hinitial⟩ := of_ofNetwork hstart
  obtain ⟨spikes, _, hinitial⟩ := bind_eq_ok_iff.mp hinitial
  have hfits := State.fits_initial (mapError_eq_ok_iff.mp hinitial)
  let property : State → Prop := (State.Fits · start.topology)
  have hproperty : property simulator.state := by
    refine hreaches.invariant hstart hfits ?_
    intro simulator decision report state hreaches _ _ hforward
    rw [hreaches.system.2] at hforward
    exact (Engine.forward_eq_ok_iff.mp hforward).1.next_fits
  rw [topology, hreaches.system.2]
  exact hproperty

theorem coupled (hstart : ofNetwork network config = .ok start)
    (hreaches : start.Reaches allowed simulator) :
    simulator.state.Coupled simulator.topology := by
  rw [topology, hreaches.system.2]
  exact (hreaches.phased hstart).coupled

/-- A step with choices of applicable rules fails at the end of the run or for a
count that cannot be held. -/
theorem exists_of_next_eq_error (hstart : ofNetwork network config = .ok start)
    (hreaches : start.Reaches allowed simulator) (hadmits : simulator.Admits choices)
    (hdecision : simulator.network.decision choices = .ok decision)
    (hnext : simulator.next decision = .error failure) :
    simulator.isHalted = true ∧ failure = .halted ∨
      simulator.isHalted = false ∧
        ∃ neuron < simulator.network.neuronCount, failure = .step (.spikeOverflow neuron) := by
  have hassembles := hreaches.assembles hstart
  have hlength := (Network.length_decision hdecision).trans hassembles.ruleCount_eq.symm
  refine (next_eq_error_iff.mp hnext).imp_right fun ⟨hhalted, cause, hforward, hfailure⟩ => ?_
  obtain ⟨neuron, hneuron, rfl⟩ := Engine.exists_of_forward_eq_error (hreaches.fits hstart)
    (input_fits hassembles hlength) (hadmits.permits hassembles hdecision) hforward
  exact ⟨hhalted, neuron, hassembles.neuronCount_eq ▸ hneuron, hfailure⟩

end Reaches

/-- There is a frame in the history for every step that has been taken. -/
structure Unlimited (simulator : Simulator) : Prop where
  historyLimit : simulator.historyLimit = none
  history : simulator.history.length = simulator.time

theorem Unlimited.handle (hunlimited : simulator.Unlimited) (request : SimulatorRequest) :
    (simulator.handle request).2.Unlimited := by
  rcases simulator.handle_cases request with ⟨_, hrefused⟩ | ⟨_, _, hobserved⟩ |
    ⟨_, _, _, _, _, hadvanced⟩ | ⟨_, _, _, _, _, hhistory, _, hretreated⟩ | ⟨_, hreset⟩
  · rw [hrefused]
    exact hunlimited
  · rw [hobserved]
    exact ⟨hunlimited.historyLimit, hunlimited.history⟩
  · rw [hadvanced]
    refine ⟨hunlimited.historyLimit, ?_⟩
    simp only [advanced, notify, hunlimited.historyLimit, trim, List.length_cons,
      hunlimited.history]
  · have hlength := hunlimited.history
    rw [hhistory, List.length_cons] at hlength
    rw [hretreated]
    exact ⟨hunlimited.historyLimit, congrArg Nat.pred hlength⟩
  · rw [hreset]
    exact ⟨hunlimited.historyLimit, rfl⟩

namespace Reaches

theorem unlimited (hstart : ofNetwork network config = .ok start)
    (hlimit : config.historyLimit = none) (hreaches : start.Reaches allowed simulator) :
    simulator.Unlimited := by
  induction hreaches with
  | refl =>
      obtain ⟨_, _, _, _, rfl⟩ := ofNetwork_eq_ok_iff.mp hstart
      exact ⟨hlimit, rfl⟩
  | request _ request _ ih => exact ih.handle request

/-- Every step can be taken back until the start is reached. -/
theorem previous_eq_error_iff (hstart : ofNetwork network config = .ok start)
    (hlimit : config.historyLimit = none) (hreaches : start.Reaches allowed simulator) :
    simulator.previous = .error failure ↔ simulator.time = 0 ∧ failure = .atStart := by
  obtain ⟨machine, hrepresents⟩ := hreaches.exists_represents hstart
  have hlength := (hreaches.unlimited hstart hlimit).history
  rw [previous_eq]
  by_cases htime : simulator.time = 0
  · simp [htime, eq_comm]
  · cases hhistory : simulator.history with
    | nil =>
        rw [hhistory] at hlength
        exact absurd hlength.symm htime
    | cons frame history =>
        obtain ⟨undone, hundone, _⟩ := hrepresents.retreated hhistory
        simp [htime, hundone]

end Reaches

end Simulator

end SpikingNeuralP
