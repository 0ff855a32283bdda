import SpikingNeuralP.Proofs.Network.Choices
import SpikingNeuralP.Proofs.Simulation.Reach

/-!
# Solvency

When the neurons choose applicable rules only, no spike count ever becomes
negative, although a delayed rule takes its spikes long after it was chosen.  Its
neuron is closed in between: the count stands still and no second rule of the
neuron can be chosen.
-/

namespace SpikingNeuralP

namespace Network

/-- No spike count is negative, and every rule in flight finds the spikes it is
going to consume. -/
structure Solvent (network : Network) (state : State) : Prop where
  length : state.spikes.length = network.neuronCount
  nonneg : ∀ neuron < network.neuronCount, 0 ≤ (state.spikes.getD neuron 0).toInt
  covered : ∀ neuron index rule, (network.rulesOf neuron)[index]? = some rule →
    state.inFlight.getD (network.column neuron index) false = true →
      (rule.consume.toNat : Int) ≤ (state.spikes.getD neuron 0).toInt

variable {network : Network} {topology : Topology} {neuron time : Nat}
  {decision : List Bool} {before after : State}

/-- Since no two rules of a neuron act, there is one or none. -/
theorem released_eq_nil_or_singleton (hassembles : network.Assembles topology)
    (hphased : before.Phased topology)
    (hstep : topology.Advances before { decision, train := network.train? time } after) :
    network.released decision before neuron = [] ∨
      ∃ index rule, (network.rulesOf neuron)[index]? = some rule ∧
        network.acts decision before neuron index rule = true ∧
        network.released decision before neuron = [rule] := by
  have hunique : ∀ item ∈ (network.rulesOf neuron).zipIdx,
      ∀ other ∈ (network.rulesOf neuron).zipIdx,
      network.acts decision before neuron item.2 item.1 = true →
      network.acts decision before neuron other.2 other.1 = true → item = other := by
    rintro ⟨rule, index⟩ hitem ⟨rule', other⟩ hother hacts hacts'
    have hrule := List.mem_zipIdx_iff_getElem?.mp hitem
    have hrule' := List.mem_zipIdx_iff_getElem?.mp hother
    rw [← acting_eq_acts hassembles hstep.accepts hphased.coupled hrule] at hacts
    rw [← acting_eq_acts hassembles hstep.accepts hphased.coupled hrule'] at hacts'
    have hcolumn := hstep.acting_unique hphased (hassembles.owns_column hrule)
      (hassembles.owns_column hrule') hacts hacts'
    obtain rfl : index = other := Nat.add_left_cancel hcolumn
    exact congrArg (·, index) (Option.some.inj (hrule.symm.trans hrule'))
  have hnodup : (network.rulesOf neuron).zipIdx.Nodup := by
    apply List.Nodup.of_map Prod.snd
    rw [List.zipIdx_map_snd]
    exact List.nodup_range'
  rw [released]
  rcases filter_eq_nil_or_singleton hnodup hunique with hnone | ⟨item, hitem, hacts, hone⟩
  · exact Or.inl (congrArg (List.map Prod.fst) hnone)
  · exact Or.inr ⟨item.2, item.1, List.mem_zipIdx_iff_getElem?.mp hitem, hacts,
      congrArg (List.map Prod.fst) hone⟩

/-- A neuron consumes no more than each of its acting rules may. -/
theorem consumed_le (hassembles : network.Assembles topology)
    (hphased : before.Phased topology)
    (hstep : topology.Advances before { decision, train := network.train? time } after)
    {bound : Int} (hbound : 0 ≤ bound)
    (hrules : ∀ index rule, (network.rulesOf neuron)[index]? = some rule →
      network.acts decision before neuron index rule = true →
        (rule.consume.toNat : Int) ≤ bound) :
    (network.consumed decision before neuron : Int) ≤ bound := by
  rw [consumed]
  rcases released_eq_nil_or_singleton hassembles hphased hstep with
    hnone | ⟨index, rule, hrule, hacts, hone⟩
  · rw [hnone]
    exact hbound
  · rw [hone]
    simpa using hrules index rule hrule hacts

/-- Steps keep a network solvent when every chosen rule finds its spikes. -/
theorem Solvent.step (hsolvent : network.Solvent before) (hassembles : network.Assembles topology)
    (hphased : before.Phased topology)
    (hstep : topology.Advances before { decision, train := network.train? time } after)
    (hsteps : network.Steps topology time decision before after)
    (hchosen : ∀ neuron index rule, (network.rulesOf neuron)[index]? = some rule →
      decision.getD (network.column neuron index) false = true →
        (rule.consume.toNat : Int) ≤ (before.spikes.getD neuron 0).toInt) :
    network.Solvent after := by
  refine ⟨?_, ?_, ?_⟩
  · rw [hsteps.fits.spikes, hassembles.neuronCount_eq]
  · intro neuron hneuron
    have hnonneg := hsolvent.nonneg neuron hneuron
    by_cases hopen : after.cooldown.getD neuron 0 = 0
    · have hconsumed := consumed_le hassembles hphased hstep hnonneg
        (fun index rule hrule hacts => by
          rw [acts, Bool.or_eq_true, Bool.and_eq_true, Bool.and_eq_true] at hacts
          rcases hacts with ⟨hset, _⟩ | ⟨hflying, _⟩
          · exact hchosen neuron index rule hrule hset
          · exact hsolvent.covered neuron index rule hrule hflying)
      rw [hsteps.opened neuron hneuron hopen]
      omega
    · rw [hsteps.closed neuron hneuron hopen]
      exact hnonneg
  · intro neuron index rule hrule hflying
    -- A neuron with a rule in flight is closed, so its count has stood still.
    have howns := hassembles.owns_column hrule
    have hwaits := ((hstep.phased hphased).coupled.waits_iff howns.neuron_lt).mpr
      ⟨_, howns, hflying⟩
    rw [hsteps.closed neuron (neuron_lt_of_rule hrule) (UInt32.pos_iff_ne_zero.mp hwaits)]
    rcases (hstep.inFlight_iff howns).mp hflying with ⟨hearlier, _⟩ | ⟨hset, _⟩
    · exact hsolvent.covered neuron index rule hrule hearlier
    · exact hchosen neuron index rule hrule hset

/-- A run starts with the spikes that the neurons hold. -/
theorem spikes_of_initialState {state : State}
    (hinitial : network.initialState topology = .ok state) :
    state.spikes.length = network.neuronCount ∧
      ∀ neuron owner, network.neuron? neuron = some owner →
        (state.spikes.getD neuron 0).toInt = owner.spikes.toNat := by
  obtain ⟨spikes, hspikes, hstate⟩ := bind_eq_ok_iff.mp hinitial
  obtain ⟨hfits, rfl⟩ := (mapM_eq_ok_iff_map fun _ _ => asSpikes_eq_ok_iff).mp hspikes
  obtain ⟨_, hstate⟩ := check_bind_eq_ok_iff.mp (mapError_eq_ok_iff.mp hstate)
  obtain rfl := Except.ok.inj hstate
  refine ⟨by simp [neurons, neuronCount], ?_⟩
  intro neuron owner howner
  rw [← getElem?_neurons] at howner
  have hcount := Int32.toInt_ofNat_of_lt (hfits owner (List.mem_of_getElem? howner))
  rw [List.getD_eq_getElem?_getD, List.getElem?_map, howner]
  exact hcount

theorem solvent_initialState {state : State}
    (hinitial : network.initialState topology = .ok state) : network.Solvent state := by
  obtain ⟨hlength, hspikes⟩ := spikes_of_initialState hinitial
  refine ⟨hlength, ?_, ?_⟩
  · intro neuron hneuron
    obtain ⟨owner, howner⟩ := Option.isSome_iff_exists.mp (neuron?_isSome_iff.mpr hneuron)
    rw [hspikes neuron owner howner]
    exact Int.natCast_nonneg _
  · intro neuron index rule _ hflying
    obtain ⟨spikes, _, hstate⟩ := bind_eq_ok_iff.mp hinitial
    obtain ⟨_, hstate⟩ := check_bind_eq_ok_iff.mp (mapError_eq_ok_iff.mp hstate)
    obtain rfl := Except.ok.inj hstate
    rw [List.getD_eq_getElem?_getD, List.getElem?_getD_replicate_default_eq] at hflying
    contradiction

end Network

namespace Simulator

/-- The decision stands for choices of applicable rules. -/
def Applicable (simulator : Simulator) (decision : List Bool) : Prop :=
  ∃ choices : List (Option Nat),
    (∀ neuron index, choices[neuron]? = some (some index) →
      index ∈ simulator.applicableRules.getD neuron []) ∧
    simulator.network.decision choices = .ok decision

theorem Applicable.consume_le {simulator : Simulator} {decision : List Bool}
    (happlicable : simulator.Applicable decision) {neuron index : Nat} {rule : Rule}
    (hrule : (simulator.network.rulesOf neuron)[index]? = some rule)
    (hset : decision.getD (simulator.network.column neuron index) false = true) :
    (rule.consume.toNat : Int) ≤ (simulator.state.spikes.getD neuron 0).toInt := by
  obtain ⟨choices, hchoices, hdecision⟩ := happlicable
  exact Network.consume_le_of_applicable
    (hchoices neuron index ((Network.getD_decision hdecision hrule).mp hset)) hrule

/-- A simulator of a network that was built by edits, driven by choices of
applicable rules, stays solvent whatever else is requested of it. -/
theorem solvent_of_reaches {edits : List NetworkEdit} {config : SimulatorConfig}
    {start simulator : Simulator} (hstart : ofNetwork (.ofEdits edits) config = .ok start)
    (hreaches : start.Reaches Applicable simulator) :
    (Network.ofEdits edits).Solvent simulator.state := by
  obtain ⟨hnetwork, htopology, hinitial⟩ := of_ofNetwork hstart
  have hassembles := Network.assembles_of_topology htopology
  refine hreaches.invariant hstart (Network.solvent_initialState hinitial) ?_
  intro simulator decision report state hreaches happlicable hsolvent hforward
  have hsteps := hreaches.steps (Network.wellFormed_ofEdits edits) hstart hforward
  obtain ⟨hsame, hengine⟩ := hreaches.system
  have hsame := hsame.trans hnetwork
  have hstep := (Engine.forward_eq_ok_iff.mp hforward).1
  rw [input, hsame, hengine] at hstep
  refine hsolvent.step hassembles (hreaches.phased hstart) hstep hsteps ?_
  intro neuron index rule hrule hset
  rw [← hsame] at hrule hset
  exact happlicable.consume_le hrule hset

/-- The delayed rule of the line is in flight after it was chosen, taken back and
chosen again. -/
theorem solvent_of_reaches_delayedLine :
    ∃ start simulator,
      ofNetwork (.ofEdits Network.delayedLine) .standard = .ok start ∧
        start.Reaches Applicable simulator ∧ simulator.state.inFlight = [false, true] ∧
        (Network.ofEdits Network.delayedLine).Solvent simulator.state := by
  have hchoices : ∀ simulator : Simulator, simulator.applicableRules = [[], [0], []] →
      simulator.network.decision [none, some 0, none] = .ok [false, true] →
      ∀ decision, SimulatorRequest.next [false, true] = .next decision →
        simulator.Applicable decision := by
    intro simulator hrules hdecision decision hrequest
    obtain rfl := SimulatorRequest.next.inj hrequest
    refine ⟨_, fun neuron index hchosen => ?_, hdecision⟩
    rw [hrules]
    rcases neuron with _ | _ | _ | neuron <;> simp at hchosen
    simp [← hchosen]
  obtain ⟨start, simulator, hstart, hreaches, hflying⟩ : ∃ start simulator,
      ofNetwork (.ofEdits Network.delayedLine) .standard = .ok start ∧
        start.Reaches Applicable simulator ∧ simulator.state.inFlight = [false, true] := by
    refine ⟨_, _, rfl, ((Reaches.refl.request (.next [false, true]) ?_).request .previous
      nofun).request (.next [false, true]) ?_, rfl⟩
    · exact hchoices _ rfl rfl
    · exact hchoices _ rfl rfl
  exact ⟨start, simulator, hstart, hreaches, hflying, solvent_of_reaches hstart hreaches⟩

end Simulator

end SpikingNeuralP
