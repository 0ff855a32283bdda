import Mathlib.Algebra.BigOperators.Ring.Finset
import Mathlib.Algebra.BigOperators.Ring.List
import SpikingNeuralP.Proofs.Network.Cells
import SpikingNeuralP.Proofs.Step.DryRun
import SpikingNeuralP.Proofs.Vector.Sum

/-!
# The semantics of a network

A step in terms of neurons, rules and synapses: which rules act, what they
consume and emit, and what arrives along the synapses.  The engine works on
numbered rules, ranges and a matrix instead, and takes the same steps.
-/

namespace SpikingNeuralP

namespace Network

section Spec

variable (network : Network) (decision : List Bool) (before : State)

/-- A rule acts when it is chosen and has no delay, or when it is in flight and
the last step of its neuron's wait is done. -/
def acts (neuron index : Nat) (rule : Rule) : Bool :=
  decision.getD (network.column neuron index) false && rule.delay == 0 ||
    before.inFlight.getD (network.column neuron index) false && before.cooldown.getD neuron 0 == 1

/-- The rules of a neuron that act in the step. -/
def released (neuron : Nat) : List Rule :=
  ((network.rulesOf neuron).zipIdx.filter fun (rule, index) =>
    network.acts decision before neuron index rule).map Prod.fst

/-- The spikes a neuron loses to its rules. -/
def consumed (neuron : Nat) : Nat :=
  ((network.released decision before neuron).map fun rule => rule.consume.toNat).sum

/-- The spikes a neuron sends along a synapse of weight one: what its rules
produce, and what the environment adds at an input neuron. -/
def emitted (time neuron : Nat) : Nat :=
  ((network.released decision before neuron).map fun rule => rule.produce.toNat).sum +
    (network.trainAt neuron time).toNat

/-- The spikes that arrive at a neuron along all synapses. -/
def received (time neuron : Nat) : Nat :=
  ((List.range network.neuronCount).map fun source =>
    network.weight source neuron * network.emitted decision before time source).sum

end Spec

/-- The step from `before` to `after` follows the semantics. -/
structure Steps (network : Network) (topology : Topology) (time : Nat) (decision : List Bool)
    (before after : State) : Prop where
  fits : after.Fits topology
  acting : ∀ neuron index rule, (network.rulesOf neuron)[index]? = some rule →
    (topology.acting before { decision, train := network.train? time }).getD
        (network.column neuron index) false =
      network.acts decision before neuron index rule
  opened : ∀ neuron < network.neuronCount, after.cooldown.getD neuron 0 = 0 →
    (after.spikes.getD neuron 0).toInt =
      (before.spikes.getD neuron 0).toInt - network.consumed decision before neuron +
        network.received decision before time neuron
  closed : ∀ neuron < network.neuronCount, after.cooldown.getD neuron 0 ≠ 0 →
    after.spikes.getD neuron 0 = before.spikes.getD neuron 0
  firing : ∀ neuron < network.neuronCount,
    (after.firing.getD neuron false = true ↔
      network.released decision before neuron ≠ [] ∨ 0 < network.trainAt neuron time)
  quiet : ∀ neuron < network.neuronCount, after.cooldown.getD neuron 0 ≠ 0 →
    after.firing.getD neuron false = false

variable {network : Network} {topology : Topology} {neuron index time : Nat} {rule : Rule}
  {decision : List Bool} {before after : State}

/-- Only an input neuron gets spikes from the environment, and its one rule
passes them on. -/
theorem rulesOf_of_trainAt (htrain : network.trainAt neuron time ≠ 0) :
    network.rulesOf neuron = [.relay] := by
  rw [trainAt] at htrain
  rw [rulesOf]
  cases howner : network.neuron? neuron with
  | none =>
      rw [howner] at htrain
      exact absurd rfl htrain
  | some owner =>
      rw [howner] at htrain
      obtain ⟨label, body⟩ := owner
      cases body with
      | regular spikes rules => exact absurd rfl htrain
      | input train => rfl
      | output => exact absurd rfl htrain

/-- A quantity summed over the rules of a neuron, each taken as often as it acts
or receives a spike. -/
theorem sum_multiplicity (quantity : Rule → Nat) :
    ((network.rulesOf neuron).zipIdx.map fun item =>
        ((network.acts decision before neuron item.2 item.1).toNat +
          (network.trainAt neuron time).toNat) * quantity item.1).sum =
      ((network.released decision before neuron).map quantity).sum +
        (network.trainAt neuron time).toNat * ((network.rulesOf neuron).map quantity).sum := by
  have hrules : (network.rulesOf neuron).map quantity =
      (network.rulesOf neuron).zipIdx.map fun item => quantity item.1 := by
    have hcomp := List.map_map (f := Prod.fst) (g := quantity)
      (l := (network.rulesOf neuron).zipIdx)
    rw [List.zipIdx_map_fst] at hcomp
    exact hcomp
  have hreleased : (network.released decision before neuron).map quantity =
      ((network.rulesOf neuron).zipIdx.filter fun item =>
        network.acts decision before neuron item.2 item.1).map fun item => quantity item.1 := by
    rw [released, List.map_map]
    rfl
  simp only [Nat.add_mul]
  rw [List.sum_map_add, List.sum_map_mul_left, hreleased, hrules, sum_map_filter]

theorem sum_multiplicity_produce :
    ((network.rulesOf neuron).zipIdx.map fun item =>
        ((network.acts decision before neuron item.2 item.1).toNat +
          (network.trainAt neuron time).toNat) * item.1.produce.toNat).sum =
      network.emitted decision before time neuron := by
  rw [sum_multiplicity fun rule => rule.produce.toNat, emitted]
  by_cases htrain : network.trainAt neuron time = 0
  · rw [htrain]
    simp
  · rw [rulesOf_of_trainAt htrain]
    simp [Rule.relay]

/-- Spikes from the environment are no loss to the neuron they arrive at. -/
theorem sum_multiplicity_consume (time : Nat) :
    ((network.rulesOf neuron).zipIdx.map fun item =>
        ((network.acts decision before neuron item.2 item.1).toNat +
          (network.trainAt neuron time).toNat) * item.1.consume.toNat).sum =
      network.consumed decision before neuron := by
  rw [sum_multiplicity fun rule => rule.consume.toNat, consumed]
  by_cases htrain : network.trainAt neuron time = 0
  · rw [htrain]
    simp
  · rw [rulesOf_of_trainAt htrain]
    simp [Rule.relay]

/-- What a neuron gains from the rules of one source. -/
theorem sum_gain_of_source {acting : List Bool} {source : Nat} (hwell : network.WellFormed)
    (hassembles : network.Assembles topology) (hneuron : neuron < network.neuronCount)
    (hacting : ∀ index rule, (network.rulesOf source)[index]? = some rule →
      acting.getD (network.column source index) false =
        network.acts decision before source index rule) :
    ((List.range (network.rulesOf source).length).map fun index =>
        (multiplicity acting (network.train? time) (network.column source index) : Int) *
          (topology.matrix.cell neuron (network.column source index)).toInt).sum =
      ((network.weight source neuron * network.emitted decision before time source : Nat) : Int) +
        if source = neuron then -(network.consumed decision before source : Int) else 0 := by
  have hterm : ∀ item ∈ (network.rulesOf source).zipIdx,
      (multiplicity acting (network.train? time) (network.column source item.2) : Int) *
          (topology.matrix.cell neuron (network.column source item.2)).toInt =
        (((network.acts decision before source item.2 item.1).toNat +
            (network.trainAt source time).toNat : Nat) : Int) *
          (((item.1.produce.toNat * network.weight source neuron : Nat) : Int) -
            if source = neuron then (item.1.consume.toNat : Int) else 0) := by
    rintro ⟨rule, index⟩ hitem
    have hrule := List.mem_zipIdx_iff_getElem?.mp hitem
    rw [toInt_cell_column hwell hassembles hneuron hrule, multiplicity,
      hacting index rule hrule, arrivals_column hrule]
  rw [sum_map_range_length (network.rulesOf source) fun index =>
      (multiplicity acting (network.train? time) (network.column source index) : Int) *
        (topology.matrix.cell neuron (network.column source index)).toInt,
    List.map_congr_left hterm, ← sum_multiplicity_produce, ← sum_multiplicity_consume time]
  exact sum_effects _ _ _ _ _ _

/-- The gain that the engine computes is what arrives less what is consumed. -/
theorem exactGain_eq {acting : List Bool} (hwell : network.WellFormed)
    (hassembles : network.Assembles topology) (hneuron : neuron < network.neuronCount)
    (hacting : ∀ source index rule, (network.rulesOf source)[index]? = some rule →
      acting.getD (network.column source index) false =
        network.acts decision before source index rule) :
    topology.matrix.exactGain neuron acting (network.train? time) =
      (network.received decision before time neuron : Int) -
        network.consumed decision before neuron := by
  calc
    topology.matrix.exactGain neuron acting (network.train? time) =
        ((List.range network.neuronCount).map fun source =>
          ((List.range (network.rulesOf source).length).map fun index =>
            (multiplicity acting (network.train? time) (network.column source index) : Int) *
              (topology.matrix.cell neuron (network.column source index)).toInt).sum).sum := by
      rw [EffectMatrix.exactGain, topology.rules_matrix, hassembles.ruleCount_eq,
        sum_map_range_sum, length_ruleCounts]
      congr 1
      apply List.map_congr_left
      intro source hsource
      have hlength : source < network.ruleCounts.length :=
        length_ruleCounts ▸ List.mem_range.mp hsource
      rw [List.getD_eq_getElem _ _ hlength, getElem_ruleCounts]
      rfl
    _ = ((List.range network.neuronCount).map fun source =>
          ((network.weight source neuron * network.emitted decision before time source : Nat) :
              Int) +
            if source = neuron then -(network.consumed decision before source : Int)
            else 0).sum := by
      congr 1
      apply List.map_congr_left
      intro source _
      exact sum_gain_of_source hwell hassembles hneuron (hacting source)
    _ = (network.received decision before time neuron : Int) -
          network.consumed decision before neuron := by
      rw [List.sum_map_add, List.sum_map_ite_eq,
        List.count_eq_one_of_mem List.nodup_range (List.mem_range.mpr hneuron), received,
        Nat.cast_list_sum, List.map_map]
      simp [Function.comp_def, Int.sub_eq_add_neg]

/-- The engine acts on the numbers of the rules that act, whether or not the counts can be
held. -/
theorem acting_eq_acts (hassembles : network.Assembles topology)
    (haccepts : topology.Accepts before { decision, train := network.train? time })
    (hcoupled : before.Coupled topology)
    (hrule : (network.rulesOf neuron)[index]? = some rule) :
    (topology.acting before { decision, train := network.train? time }).getD
        (network.column neuron index) false =
      network.acts decision before neuron index rule := by
  rw [Bool.eq_iff_iff, haccepts.acting_iff_due hcoupled (hassembles.owns_column hrule),
    hassembles.getD_delays hrule, acts]
  simp only [Bool.or_eq_true, Bool.and_eq_true, beq_iff_eq]

theorem mem_released {rule : Rule} :
    rule ∈ network.released decision before neuron ↔
      ∃ index, (network.rulesOf neuron)[index]? = some rule ∧
        network.acts decision before neuron index rule = true := by
  simp only [released, List.mem_map, List.mem_filter, Prod.exists, List.mem_zipIdx_iff_getElem?]
  constructor
  · rintro ⟨_, index, ⟨hrule, hacts⟩, rfl⟩
    exact ⟨index, hrule, hacts⟩
  · rintro ⟨index, hrule, hacts⟩
    exact ⟨rule, index, ⟨hrule, hacts⟩, rfl⟩

theorem released_ne_nil_iff :
    network.released decision before neuron ≠ [] ↔
      ∃ index rule, (network.rulesOf neuron)[index]? = some rule ∧
        network.acts decision before neuron index rule = true := by
  constructor
  · intro hreleased
    obtain ⟨rule, hrule⟩ := List.exists_mem_of_ne_nil _ hreleased
    obtain ⟨index, hacts⟩ := mem_released.mp hrule
    exact ⟨index, rule, hacts⟩
  · rintro ⟨index, rule, hacts⟩
    exact List.ne_nil_of_mem (mem_released.mpr ⟨index, hacts⟩)

/-- A neuron whose rules have no delay never closes. -/
theorem open_of_undelayed (hassembles : network.Assembles topology)
    (hphased : after.Phased topology) (hneuron : neuron < network.neuronCount)
    (hundelayed : ∀ rule ∈ network.rulesOf neuron, rule.delay = 0) :
    after.cooldown.getD neuron 0 = 0 := by
  rcases hphased neuron (hassembles.neuronCount_eq ▸ hneuron) with hopen | ⟨number, hbusy⟩
  · exact (State.isOpen_eq_true_iff.mp hopen).1
  · obtain ⟨index, rule, hrule, rfl⟩ := hassembles.exists_rule_of_owns hbusy.owns
    have hwithin := hbusy.within
    rw [hassembles.getD_delays hrule, hundelayed rule (List.mem_of_getElem? hrule)] at hwithin
    exact UInt32.le_zero_iff.mp hwithin

/-- A neuron that gets spikes from the environment has no rule to wait for. -/
theorem open_of_trainAt (hassembles : network.Assembles topology)
    (hphased : after.Phased topology) (hneuron : neuron < network.neuronCount)
    (htrain : network.trainAt neuron time ≠ 0) : after.cooldown.getD neuron 0 = 0 := by
  refine open_of_undelayed hassembles hphased hneuron ?_
  rw [rulesOf_of_trainAt htrain]
  exact List.forall_mem_singleton.mpr rfl

/-- A neuron fires when one of its rules acts or spikes arrive from the
environment. -/
theorem firing_iff_released (hassembles : network.Assembles topology)
    (hcoupled : before.Coupled topology)
    (hstep : topology.Advances before { decision, train := network.train? time } after)
    (hneuron : neuron < network.neuronCount) :
    after.firing.getD neuron false = true ↔
      network.released decision before neuron ≠ [] ∨ 0 < network.trainAt neuron time := by
  rw [hstep.firing_iff (hassembles.neuronCount_eq ▸ hneuron), released_ne_nil_iff]
  constructor
  · rintro ⟨number, howns, hfires⟩
    obtain ⟨index, rule, hrule, rfl⟩ := hassembles.exists_rule_of_owns howns
    rw [acting_eq_acts hassembles hstep.accepts hcoupled hrule, arrivals_column hrule] at hfires
    exact hfires.imp (fun hacts => ⟨index, rule, hrule, hacts⟩) id
  · rintro (⟨index, rule, hrule, hacts⟩ | htrain)
    · exact ⟨_, hassembles.owns_column hrule,
        Or.inl ((acting_eq_acts hassembles hstep.accepts hcoupled hrule).trans hacts)⟩
    · have hrule : (network.rulesOf neuron)[0]? = some .relay := by
        rw [rulesOf_of_trainAt (UInt32.pos_iff_ne_zero.mp htrain)]
        rfl
      exact ⟨_, hassembles.owns_column hrule, Or.inr (arrivals_column hrule ▸ htrain)⟩

/-- The engine takes the steps of the semantics. -/
theorem steps_of_advances (hwell : network.WellFormed) (hassembles : network.Assembles topology)
    (hphased : before.Phased topology)
    (hstep : topology.Advances before { decision, train := network.train? time } after) :
    network.Steps topology time decision before after := by
  have hcount := hassembles.neuronCount_eq
  have hacting : ∀ neuron index rule, (network.rulesOf neuron)[index]? = some rule →
      (topology.acting before { decision, train := network.train? time }).getD
          (network.column neuron index) false =
        network.acts decision before neuron index rule :=
    fun _ _ _ => acting_eq_acts hassembles hstep.accepts hphased.coupled
  refine ⟨hstep.next_fits, hacting, ?_, ?_,
    fun _ => firing_iff_released hassembles hphased.coupled hstep, ?_⟩
  · intro neuron hneuron hopen
    rw [hstep.spikes_of_open (hcount ▸ hneuron) hopen,
      exactGain_eq hwell hassembles hneuron hacting]
    omega
  · intro neuron hneuron hclosed
    exact hstep.spikes_of_closed (hcount ▸ hneuron) hclosed
  · intro neuron hneuron hclosed
    rw [← Bool.not_eq_true, firing_iff_released hassembles hphased.coupled hstep hneuron,
      released_ne_nil_iff]
    rintro (⟨index, rule, hrule, hacts⟩ | htrain)
    · rw [← hacting neuron index rule hrule,
        hstep.acting_iff (hassembles.owns_column hrule)] at hacts
      exact hclosed hacts.1
    · exact hclosed (open_of_trainAt hassembles (hstep.phased hphased) hneuron
        (UInt32.pos_iff_ne_zero.mp htrain))

end Network

end SpikingNeuralP
