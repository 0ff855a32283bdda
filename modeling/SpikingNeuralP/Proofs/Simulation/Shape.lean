import SpikingNeuralP.Proofs.Network.Bounds
import SpikingNeuralP.Proofs.Simulation.Boundary

/-!
# No vector of the wrong length

A simulator can be built exactly for the networks within bounds, and everything it
holds afterwards fits its topology: the state, the input trains and all that the
history keeps of earlier steps.  So the one vector that may have the wrong length
is the decision a step is asked for.
-/

namespace SpikingNeuralP

/-- The vectors that are kept of a step have the lengths the topology asks for. -/
structure Frame.Fits (frame : Frame) (topology : Topology) : Prop where
  input : frame.step.input.Fits topology
  inFlight : frame.step.inFlight.length = topology.ruleCount
  firing : frame.firing.length = topology.neuronCount

/-- A frame that leads back to a snapshot fits, as the step it belongs to was
accepted. -/
theorem Frame.Joins.fits {frame : Frame} {topology : Topology} {before current : Snapshot}
    (hjoins : frame.Joins topology before current) : frame.Fits topology where
  input := hjoins.step.inputFits
  inFlight := by rw [hjoins.inFlight, hjoins.step.fits.inFlight]
  firing := by rw [hjoins.firing, hjoins.step.fits.firing]

theorem Retraces.fits {topology : Topology} {history : List Frame} {current : Snapshot}
    {past : List Snapshot} (hretraces : Retraces topology history current past) :
    ∀ frame ∈ history, frame.Fits topology := by
  induction hretraces with
  | exhausted => exact List.forall_mem_nil _
  | joined hjoins _ ih => exact List.forall_mem_cons.mpr ⟨hjoins.fits, ih⟩

namespace Network

variable {network : Network}

theorem length_of_mem_trains {arriving : List UInt32} (hmem : arriving ∈ network.trains) :
    arriving.length = network.ruleCount := by
  obtain ⟨time, htime⟩ := List.mem_iff_getElem?.mp hmem
  rw [getElem?_trains] at htime
  rw [length_of_train? htime, ruleCount_eq_sum]

theorem Assembles.ruleCount {topology : Topology} (hassembles : network.Assembles topology) :
    topology.ruleCount = network.ruleCount := by
  rw [hassembles.ruleCount_eq, ruleCount_eq_sum]

end Network

namespace Simulator

/-- Why a step may be refused that chooses for every rule. -/
inductive Refuses (network : Network) : SimulatorError → Prop
  | halted : Refuses network .halted
  | severalChoices {neuron chosen : Nat} (hneuron : neuron < network.neuronCount)
      (hchosen : 1 < chosen) : Refuses network (.step (.severalChoices neuron chosen))
  | closedNeuron {neuron : Nat} (hneuron : neuron < network.neuronCount) :
      Refuses network (.step (.closedNeuron neuron))
  | spikeOverflow {neuron : Nat} (hneuron : neuron < network.neuronCount) :
      Refuses network (.step (.spikeOverflow neuron))

/-- All that a simulator holds fits its topology. -/
structure KeepsShape (simulator : Simulator) : Prop where
  assembles : simulator.network.Assembles simulator.topology
  state : simulator.state.Fits simulator.topology
  trains : ∀ arriving ∈ simulator.network.trains,
    arriving.length = simulator.topology.ruleCount
  history : ∀ frame ∈ simulator.history, frame.Fits simulator.topology

variable {network : Network} {config : SimulatorConfig} {start simulator : Simulator}
  {allowed : Simulator → List Bool → Prop} {decision : List Bool} {failure : SimulatorError}

theorem Reaches.keepsShape (hstart : ofNetwork network config = .ok start)
    (hreaches : start.Reaches allowed simulator) : simulator.KeepsShape := by
  have hassembles := hreaches.assembles hstart
  obtain ⟨machine, hrepresents⟩ := hreaches.exists_represents hstart
  refine ⟨hassembles, hreaches.fits hstart, ?_, ?_⟩
  · intro arriving harriving
    rw [Network.length_of_mem_trains harriving, hassembles.ruleCount]
  -- The frames are those of accepted steps, and these were measured when they were made.
  · rw [topology, hrepresents.engine]
    exact hrepresents.retraces.fits

namespace KeepsShape

variable (hshape : simulator.KeepsShape)

include hshape

theorem refuses_of_next_eq_error (hlength : decision.length = simulator.network.ruleCount)
    (hnext : simulator.next decision = .error failure) : Refuses simulator.network failure := by
  rcases next_eq_error_iff.mp hnext with ⟨_, rfl⟩ | ⟨_, cause, hforward, rfl⟩
  · exact .halted
  · have hcount := hshape.assembles.neuronCount_eq
    have hinput : (simulator.input decision).Fits simulator.topology :=
      input_fits hshape.assembles (hlength.trans hshape.assembles.ruleCount.symm)
    rcases Engine.forward_eq_error_cases hshape.state hinput hforward with
      hdecision | ⟨neuron, hneuron, rfl⟩
    · obtain ⟨neuron, hneuron, ⟨chosen, hchosen, rfl⟩ | rfl⟩ :=
        Topology.exists_of_checkDecision_eq_error hdecision
      · exact .severalChoices (hcount ▸ hneuron) hchosen
      · exact .closedNeuron (hcount ▸ hneuron)
    · exact .spikeOverflow (hcount ▸ hneuron)

theorem next_of_length_ne (hlength : decision.length ≠ simulator.network.ruleCount)
    (hhalted : simulator.isHalted = false) :
    simulator.next decision =
      .error (.step (.lengthMismatch "decision" simulator.network.ruleCount decision.length)) := by
  rw [← hshape.assembles.ruleCount] at hlength ⊢
  exact next_eq_error_iff.mpr (Or.inr ⟨hhalted, _,
    Engine.forward_of_length_ne hshape.state hlength, rfl⟩)

end KeepsShape

/-- Building fails over a quantity that is too large and over nothing else. -/
theorem exceeds_of_ofNetwork_eq_error
    (hcounts : ∀ neuron ∈ network.neurons, neuron.rules.length < UInt32.size)
    (hfail : ofNetwork network config = .error failure) :
    ∃ quantity, network.Exceeds quantity ∧ failure = .network (.outOfRange quantity) := by
  rcases bind_eq_error_iff.mp hfail with htopology | ⟨topology, htopology, hrest⟩
  · obtain ⟨cause, hcause, rfl⟩ := mapError_eq_error_iff.mp htopology
    obtain ⟨quantity, hexceeds, rfl⟩ := Network.exceeds_of_topology_eq_error hcounts hcause
    exact ⟨quantity, hexceeds, rfl⟩
  · have hassembles := Network.assembles_of_topology (mapError_eq_ok_iff.mp htopology)
    rcases bind_eq_error_iff.mp hrest with hinitial | ⟨_, _, hanswer⟩
    · obtain ⟨cause, hcause, rfl⟩ := mapError_eq_error_iff.mp hinitial
      obtain ⟨quantity, hexceeds, rfl⟩ :=
        Network.exceeds_of_initialState_eq_error hassembles hcause
      exact ⟨quantity, hexceeds, rfl⟩
    · cases hanswer

theorem bounded_of_ofNetwork (hstart : ofNetwork network config = .ok start) :
    network.Bounded := by
  obtain ⟨_, htopology, hinitial⟩ := of_ofNetwork hstart
  have hmatrix := (Network.assembles_of_topology htopology).matrix
  obtain ⟨spikes, hspikes, _⟩ := bind_eq_ok_iff.mp hinitial
  exact ⟨fun cell hcell rule hrule => (Network.bounds_of_effectMatrix hmatrix hcell hrule).1,
    fun cell hcell rule hrule => (Network.bounds_of_effectMatrix hmatrix hcell hrule).2,
    fun cell hcell => Network.spikes_lt_of_initialSpikes hspikes hcell⟩

/-- Building succeeds exactly within bounds, and the only length that can be wrong
later is that of a decision. -/
structure BuildsExactly (network : Network) (config : SimulatorConfig) : Prop where
  built_iff : (∃ start, ofNetwork network config = .ok start) ↔ network.Bounded
  refused : ∀ failure, ofNetwork network config = .error failure →
    ∃ quantity, network.Exceeds quantity ∧ failure = .network (.outOfRange quantity)
  keepsShape : ∀ start simulator, ofNetwork network config = .ok start →
    start.Reaches (fun _ _ => True) simulator → simulator.KeepsShape
  next_of_length : ∀ start simulator decision failure, ofNetwork network config = .ok start →
    start.Reaches (fun _ _ => True) simulator → decision.length = network.ruleCount →
      simulator.next decision = .error failure → Refuses network failure
  next_of_length_ne : ∀ start simulator decision, ofNetwork network config = .ok start →
    start.Reaches (fun _ _ => True) simulator → decision.length ≠ network.ruleCount →
      simulator.isHalted = false → simulator.next decision =
        .error (.step (.lengthMismatch "decision" network.ruleCount decision.length))

theorem buildsExactly_of_ruleCounts (config : SimulatorConfig)
    (hcounts : ∀ neuron ∈ network.neurons, neuron.rules.length < UInt32.size) :
    BuildsExactly network config where
  built_iff := by
    refine ⟨fun ⟨_, hstart⟩ => bounded_of_ofNetwork hstart, fun hbounded => ?_⟩
    cases hbuilt : ofNetwork network config with
    | ok start => exact ⟨start, rfl⟩
    | error failure =>
        obtain ⟨_, hexceeds, _⟩ := exceeds_of_ofNetwork_eq_error hcounts hbuilt
        exact absurd hexceeds hbounded.not_exceeds
  refused _ := exceeds_of_ofNetwork_eq_error hcounts
  keepsShape _ _ hstart hreaches := hreaches.keepsShape hstart
  next_of_length _ _ _ _ hstart hreaches := by
    rw [← hreaches.network_eq hstart]
    exact (hreaches.keepsShape hstart).refuses_of_next_eq_error
  next_of_length_ne _ _ _ hstart hreaches := by
    rw [← hreaches.network_eq hstart]
    exact (hreaches.keepsShape hstart).next_of_length_ne

/-- One spike along a synapse of weight `2 ^ 31` cannot be counted any more. -/
def overweightLine : List NetworkEdit :=
  Network.delayedLine ++ [.removeSynapse 1 2, .addSynapse 1 2 2147483648]

/-- The delayed rule is chosen, taken back and chosen a step later. -/
def hesitating : List SimulatorRequest :=
  [.next [false, true], .previous, .next [false, false], .next [false, true]]

/-- With the overweight synapse the line cannot be built.  The delayed line can, and
with its rule in flight it refuses that rule as well as a decision that is too short. -/
theorem buildsExactly_of_ruleCounts_overweightLine :
    ((∀ neuron ∈ (Network.ofEdits overweightLine).neurons, neuron.rules.length < UInt32.size) ∧
      ¬(Network.ofEdits overweightLine).Bounded ∧
      ofNetwork (.ofEdits overweightLine) .standard =
        .error (.network (.outOfRange "produce * weight")) ∧
      BuildsExactly (.ofEdits overweightLine) .standard) ∧
    (∀ neuron ∈ (Network.ofEdits Network.delayedLine).neurons,
      neuron.rules.length < UInt32.size) ∧
    (Network.ofEdits Network.delayedLine).Bounded ∧
    BuildsExactly (.ofEdits Network.delayedLine) .standard ∧
    ∃ start,
      ofNetwork (.ofEdits Network.delayedLine) .standard = .ok start ∧
        start.Reaches (fun _ _ => True) (start.run hesitating).2 ∧
        (start.run hesitating).2.history.length = 2 ∧
        (start.run hesitating).2.KeepsShape ∧
        (start.run hesitating).2.next [false, true] = .error (.step (.closedNeuron 1)) ∧
        Refuses (.ofEdits Network.delayedLine) (.step (.closedNeuron 1)) ∧
        (start.run hesitating).2.isHalted = false ∧
        (start.run hesitating).2.next [true] =
          .error (.step (.lengthMismatch "decision" 2 1)) := by
  have hovercounts : ∀ neuron ∈ (Network.ofEdits overweightLine).neurons,
      neuron.rules.length < UInt32.size := by decide
  have hover : ¬(Network.ofEdits overweightLine).Bounded := by
    intro hbounded
    exact absurd hbounded.gain (by decide)
  have hcounts : ∀ neuron ∈ (Network.ofEdits Network.delayedLine).neurons,
      neuron.rules.length < UInt32.size := by decide
  have hbuilds : BuildsExactly (.ofEdits Network.delayedLine) .standard :=
    buildsExactly_of_ruleCounts .standard hcounts
  obtain ⟨start, hstart, hhistory, hclosed, hrunning⟩ : ∃ start,
      ofNetwork (.ofEdits Network.delayedLine) .standard = .ok start ∧
        (start.run hesitating).2.history.length = 2 ∧
        (start.run hesitating).2.next [false, true] = .error (.step (.closedNeuron 1)) ∧
        (start.run hesitating).2.isHalted = false :=
    ⟨_, rfl, rfl, rfl, rfl⟩
  have hreaches : start.Reaches (fun _ _ => True) (start.run hesitating).2 :=
    Reaches.run .refl hesitating
  exact ⟨⟨hovercounts, hover, rfl, buildsExactly_of_ruleCounts .standard hovercounts⟩, hcounts,
    hbuilds.built_iff.mp ⟨start, hstart⟩, hbuilds, start, hstart, hreaches, hhistory,
    hbuilds.keepsShape start _ hstart hreaches, hclosed,
    hbuilds.next_of_length start _ _ _ hstart hreaches rfl hclosed, hrunning,
    hbuilds.next_of_length_ne start _ [true] hstart hreaches (by decide) hrunning⟩

end Simulator

end SpikingNeuralP
