import SpikingNeuralP.Proofs.Simulation.Solvency
import SpikingNeuralP.Proofs.Simulation.Surviving

/-!
# Output trains

The simulator only compares the count of an output neuron before and after a step.
That says exactly whether the neuron has received spikes: it owns no rules, so
nothing is consumed there and nothing ever closes it, and it starts with no spikes.
The trains therefore tell the steps that survive in which spikes arrived, and the
counts tell how many.
-/

namespace SpikingNeuralP

namespace Network

/-- Spikes leave some source along a synapse of positive weight to the neuron: a
rule of the source that produces spikes acts, or its train has an entry. -/
def Delivers (network : Network) (decision : List Bool) (before : State) (time neuron : Nat) :
    Prop :=
  ∃ source, ∃ synapse ∈ network.outgoing source, synapse.target = neuron ∧ 0 < synapse.weight ∧
    ((∃ index rule, (network.rulesOf source)[index]? = some rule ∧
        network.acts decision before source index rule = true ∧ 0 < rule.produce) ∨
      0 < network.trainAt source time)

/-- What a neuron received in each of the steps, which began with the first. -/
def receipts (network : Network) (steps : List MadeStep) (neuron : Nat) : List Nat :=
  steps.zipIdx.map fun (step, time) => network.received step.decision step.before time neuron

variable {network : Network} {topology : Topology} {neuron source time : Nat}
  {decision : List Bool} {before after : State} {steps : List MadeStep}

theorem weight_pos_iff :
    0 < network.weight source neuron ↔
      ∃ synapse ∈ network.outgoing source, synapse.target = neuron ∧ 0 < synapse.weight := by
  simp only [weight, weightTo, List.sum_pos_iff_exists_pos_nat, List.mem_map, List.mem_filter,
    beq_iff_eq]
  constructor
  · rintro ⟨_, ⟨synapse, ⟨hsynapse, htarget⟩, rfl⟩, hweight⟩
    exact ⟨synapse, hsynapse, htarget, hweight⟩
  · rintro ⟨synapse, hsynapse, htarget, hweight⟩
    exact ⟨_, ⟨synapse, ⟨hsynapse, htarget⟩, rfl⟩, hweight⟩

theorem emitted_pos_iff :
    0 < network.emitted decision before time source ↔
      (∃ index rule, (network.rulesOf source)[index]? = some rule ∧
          network.acts decision before source index rule = true ∧ 0 < rule.produce) ∨
        0 < network.trainAt source time := by
  rw [emitted, Nat.add_pos_iff_pos_or_pos, List.sum_pos_iff_exists_pos_nat]
  simp only [List.mem_map, mem_released]
  constructor
  · rintro (⟨_, ⟨rule, ⟨index, hrule, hacts⟩, rfl⟩, hproduce⟩ | htrain)
    · exact Or.inl ⟨index, rule, hrule, hacts, hproduce⟩
    · exact Or.inr htrain
  · rintro (⟨index, rule, hrule, hacts, hproduce⟩ | htrain)
    · exact Or.inl ⟨_, ⟨rule, ⟨index, hrule, hacts⟩, rfl⟩, hproduce⟩
    · exact Or.inr htrain

/-- A neuron receives spikes exactly when some source delivers them. -/
theorem received_pos_iff :
    0 < network.received decision before time neuron ↔
      network.Delivers decision before time neuron := by
  rw [received, List.sum_pos_iff_exists_pos_nat, Delivers]
  simp only [List.mem_map, List.mem_range]
  constructor
  · rintro ⟨_, ⟨source, _, rfl⟩, harrives⟩
    obtain ⟨synapse, hsynapse, htarget, hweight⟩ :=
      weight_pos_iff.mp (Nat.pos_of_mul_pos_right harrives)
    exact ⟨source, synapse, hsynapse, htarget, hweight,
      emitted_pos_iff.mp (Nat.pos_of_mul_pos_left harrives)⟩
  · rintro ⟨source, synapse, hsynapse, htarget, hweight, hemits⟩
    have hsource : source < network.neuronCount := by
      by_contra hsource
      rw [outgoing, List.getElem?_eq_none (Nat.le_of_not_lt hsource)] at hsynapse
      exact List.not_mem_nil hsynapse
    exact ⟨_, ⟨source, hsource, rfl⟩, Nat.mul_pos
      (weight_pos_iff.mpr ⟨synapse, hsynapse, htarget, hweight⟩) (emitted_pos_iff.mpr hemits)⟩

theorem mem_outputNeurons :
    neuron ∈ network.outputNeurons ↔
      ∃ owner, network.neuron? neuron = some owner ∧ owner.body = .output := by
  simp only [outputNeurons, List.mem_map, List.mem_filter, Prod.exists,
    List.mem_zipIdx_iff_getElem?, getElem?_neurons]
  constructor
  · rintro ⟨owner, _, ⟨howner, hkind⟩, rfl⟩
    refine ⟨owner, howner, ?_⟩
    obtain ⟨label, body⟩ := owner
    cases body with
    | regular spikes rules => contradiction
    | input train => contradiction
    | output => rfl
  · rintro ⟨owner, howner, hbody⟩
    refine ⟨owner, neuron, ⟨howner, ?_⟩, rfl⟩
    rw [Neuron.kind, hbody]
    rfl

theorem rulesOf_of_mem_outputNeurons (houtput : neuron ∈ network.outputNeurons) :
    network.rulesOf neuron = [] := by
  obtain ⟨owner, howner, hbody⟩ := mem_outputNeurons.mp houtput
  rw [rulesOf, howner, Option.map_some, Option.getD_some, Neuron.rules, hbody]

/-- An output neuron takes in all that it receives. -/
theorem Steps.spikes_of_output (hsteps : network.Steps topology time decision before after)
    (hassembles : network.Assembles topology) (hphased : after.Phased topology)
    (houtput : neuron ∈ network.outputNeurons) :
    (after.spikes.getD neuron 0).toInt =
      (before.spikes.getD neuron 0).toInt + network.received decision before time neuron := by
  have hrules := rulesOf_of_mem_outputNeurons houtput
  obtain ⟨owner, howner, _⟩ := mem_outputNeurons.mp houtput
  have hneuron : neuron < network.neuronCount :=
    neuron?_isSome_iff.mp (Option.isSome_iff_exists.mpr ⟨owner, howner⟩)
  have hconsumed : network.consumed decision before neuron = 0 := by
    rw [consumed, released, hrules]
    rfl
  have hopen : after.cooldown.getD neuron 0 = 0 := by
    refine open_of_undelayed hassembles hphased hneuron ?_
    rw [hrules]
    exact List.forall_mem_nil _
  rw [hsteps.opened neuron hneuron hopen, hconsumed, Int.natCast_zero, Int.sub_zero]

theorem receipts_append (step : MadeStep) :
    network.receipts (steps ++ [step]) neuron =
      network.receipts steps neuron ++
        [network.received step.decision step.before steps.length neuron] := by
  simp [receipts, List.zipIdx_append]

theorem length_receipts : (network.receipts steps neuron).length = steps.length := by
  simp [receipts]

/-- The trains tell when, and the counts how much, the output neurons received in the
steps. -/
structure Records (network : Network) (steps : List MadeStep) (snapshot : Snapshot) :
    Prop where
  outputTrains : snapshot.outputTrains = network.outputNeurons.map fun neuron =>
    (network.receipts steps neuron).map fun spikes => decide (0 < spikes)
  spikes : ∀ neuron ∈ network.outputNeurons,
    (snapshot.state.spikes.getD neuron 0).toInt = (network.receipts steps neuron).sum

theorem Records.extend {snapshot : Snapshot} (hrecords : network.Records steps snapshot)
    (hspikes : ∀ neuron ∈ network.outputNeurons,
      (after.spikes.getD neuron 0).toInt = (snapshot.state.spikes.getD neuron 0).toInt +
        network.received decision snapshot.state steps.length neuron) :
    network.Records (steps ++ [{ decision, before := snapshot.state }])
      (snapshot.extend network.outputNeurons after) := by
  constructor
  · rw [Snapshot.extend, hrecords.outputTrains, List.zipWith_map_right, List.zipWith_self]
    apply List.map_congr_left
    intro neuron houtput
    have hgrows : Simulator.received snapshot.state after neuron =
        decide (0 < network.received decision snapshot.state steps.length neuron) := by
      rw [Simulator.received, hspikes neuron houtput, decide_eq_decide]
      omega
    rw [receipts_append, List.map_append, hgrows]
    rfl
  · intro neuron houtput
    rw [receipts_append, List.sum_append, Nat.cast_add, List.sum_singleton,
      ← hrecords.spikes neuron houtput]
    exact hspikes neuron houtput

end Network

namespace Simulator

/-- What the output neurons show is what they received in the steps. -/
structure RecordsOutputs (simulator : Simulator) (steps : List MadeStep) : Prop where
  time : steps.length = simulator.time
  trainCount : simulator.outputTrains.length = simulator.network.outputNeurons.length
  trainLength : ∀ train ∈ simulator.outputTrains, train.length = simulator.time
  marked_iff : ∀ (output neuron number : Nat) (train : List Bool) (step : MadeStep),
    simulator.network.outputNeurons[output]? = some neuron →
    simulator.outputTrains[output]? = some train → steps[number]? = some step →
      (train[number]? = some true ↔
        simulator.network.Delivers step.decision step.before number neuron)
  /-- The exact sum, although the engine counts in machine words. -/
  spikes : ∀ neuron ∈ simulator.network.outputNeurons,
    (simulator.state.spikes.getD neuron 0).toInt =
      (simulator.network.receipts steps neuron).sum
  grows : ∀ decision report after, simulator.next decision = .ok (report, after) →
    ∀ neuron ∈ simulator.network.outputNeurons,
      (simulator.state.spikes.getD neuron 0).toInt ≤ (after.state.spikes.getD neuron 0).toInt

variable {edits : List NetworkEdit} {config : SimulatorConfig} {start simulator : Simulator}
  {allowed : Simulator → List Bool → Prop} {decision : List Bool} {report : StepReport}
  {state : State} {steps : List MadeStep}

theorem Reaches.spikes_of_output (hstart : ofNetwork (.ofEdits edits) config = .ok start)
    (hreaches : start.Reaches allowed simulator)
    (hforward : simulator.engine.forward simulator.state (simulator.input decision) =
      .ok (report, state)) :
    ∀ neuron ∈ simulator.network.outputNeurons,
      (state.spikes.getD neuron 0).toInt = (simulator.state.spikes.getD neuron 0).toInt +
        simulator.network.received decision simulator.state simulator.time neuron := by
  obtain ⟨_, htopology, _⟩ := of_ofNetwork hstart
  have hsteps := hreaches.steps (Network.wellFormed_ofEdits edits) hstart hforward
  have hstep := (Engine.forward_eq_ok_iff.mp hforward).1
  rw [hreaches.system.2] at hstep
  rw [hreaches.network_eq hstart]
  exact fun neuron => hsteps.spikes_of_output (Network.assembles_of_topology htopology)
    (hstep.phased (hreaches.phased hstart))

theorem records_start (hstart : ofNetwork (.ofEdits edits) config = .ok start) :
    start.network.Records [] start.snapshot := by
  obtain ⟨_, initial, _, hinitial, rfl⟩ := ofNetwork_eq_ok_iff.mp hstart
  constructor
  · exact (List.map_const' ..).symm
  · intro neuron houtput
    obtain ⟨owner, howner, hbody⟩ := Network.mem_outputNeurons.mp houtput
    have hspikes := (Network.spikes_of_initialState hinitial).2 neuron owner howner
    rw [Neuron.spikes, hbody] at hspikes
    exact hspikes

theorem recordsOutputs_of_records (hstart : ofNetwork (.ofEdits edits) config = .ok start)
    (hreaches : start.Reaches allowed simulator) (htime : steps.length = simulator.time)
    (hrecords : simulator.network.Records steps simulator.snapshot) :
    simulator.RecordsOutputs steps := by
  have htrains : simulator.outputTrains = simulator.network.outputNeurons.map fun neuron =>
      (simulator.network.receipts steps neuron).map fun spikes => decide (0 < spikes) :=
    hrecords.outputTrains
  refine ⟨htime, ?_, ?_, ?_, hrecords.spikes, ?_⟩
  · rw [htrains, List.length_map]
  · intro train htrain
    rw [htrains] at htrain
    obtain ⟨neuron, _, rfl⟩ := List.mem_map.mp htrain
    rw [List.length_map, Network.length_receipts, htime]
  · intro output neuron number train step houtput htrain hstep
    rw [htrains, List.getElem?_map, houtput] at htrain
    obtain rfl := Option.some.inj htrain
    rw [← Network.received_pos_iff]
    simp [Network.receipts, hstep]
  · intro decision report after hnext neuron houtput
    obtain ⟨_, state, hforward, rfl⟩ := next_eq_ok_iff.mp hnext
    have hspikes := hreaches.spikes_of_output hstart hforward neuron houtput
    exact hspikes ▸ Int.le_add_of_nonneg_right (Int.natCast_nonneg _)

/-- After any requests to a simulator of a network that was built by edits, the output
trains mark the surviving steps in which spikes arrived, and the counts of the output
neurons are the sums of the spikes that arrived in them. -/
theorem recordsOutputs_of_survivingSteps
    (hstart : ofNetwork (.ofEdits edits) config = .ok start) (requests : List SimulatorRequest) :
    (start.run requests).2.RecordsOutputs (start.survivingSteps [] requests) := by
  have hreaches : start.Reaches (fun _ _ => True) (start.run requests).2 :=
    Reaches.run .refl requests
  have hsame := hreaches.system.1
  obtain ⟨htime, hrecords⟩ :
      (start.survivingSteps [] requests).length = (start.run requests).2.time ∧
        start.network.Records (start.survivingSteps [] requests)
          (start.run requests).2.snapshot := by
    refine holds_of_survivingSteps ?_ hstart (records_start hstart) requests
    intro simulator steps decision report state hreaches htime hrecords hforward
    have hspikes := hreaches.spikes_of_output hstart hforward
    rw [hreaches.system.1, ← htime] at hspikes
    rw [hreaches.system.1]
    exact hrecords.extend hspikes
  exact recordsOutputs_of_records hstart hreaches htime (hsame ▸ hrecords)

/-- The step that releases the rule of the line is taken back and made again. -/
def reworking : List SimulatorRequest :=
  [.next [false, true], .next [false, false], .previous, .next [false, false]]

theorem recordsOutputs_of_survivingSteps_delayedLine :
    ∃ start,
      ofNetwork (.ofEdits Network.delayedLine) .standard = .ok start ∧
        (start.survivingSteps [] reworking).map MadeStep.decision =
          [[false, true], [false, false]] ∧
        (start.run reworking).2.outputTrains = [[false, true]] ∧
        (start.run reworking).2.RecordsOutputs (start.survivingSteps [] reworking) := by
  obtain ⟨start, hstart, hdecisions, htrains⟩ : ∃ start,
      ofNetwork (.ofEdits Network.delayedLine) .standard = .ok start ∧
        (start.survivingSteps [] reworking).map MadeStep.decision =
          [[false, true], [false, false]] ∧
        (start.run reworking).2.outputTrains = [[false, true]] :=
    ⟨_, rfl, rfl, rfl⟩
  exact ⟨start, hstart, hdecisions, htrains, recordsOutputs_of_survivingSteps hstart reworking⟩

end Simulator

end SpikingNeuralP
