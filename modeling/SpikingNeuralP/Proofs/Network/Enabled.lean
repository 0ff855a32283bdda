import SpikingNeuralP.Proofs.Network.Choices
import SpikingNeuralP.Proofs.Network.Graph
import SpikingNeuralP.Proofs.Neuron.Language

/-!
# Applicable rules are the enabled ones

A neuron is offered its rules by position.  What is offered is exactly what the state enables: the
neuron chooses at all, waits for nothing, and its spikes make a word of the language that guards
the rule and suffice for what the rule consumes.
-/

namespace SpikingNeuralP

theorem Neuron.pairwise_applicableRules (owner : Neuron) (spikes : UInt32) :
    (owner.applicableRules spikes).Pairwise (· < ·) := by
  obtain ⟨label, body⟩ := owner
  cases body with
  | regular count rules =>
      have hindices : (rules.zipIdx.map Prod.snd).Pairwise (· < ·) := by
        rw [List.zipIdx_map_snd]
        exact List.pairwise_lt_range'
      exact hindices.sublist (List.filter_sublist.map _)
  | input train => exact List.Pairwise.nil
  | output => exact List.Pairwise.nil

namespace Network

/-- At a count of spikes the neuron may choose its rule at the index. -/
structure Enables (network : Network) (topology : Topology) (state : State) (neuron index : Nat)
    (rule : Rule) (count : ℕ) : Prop where
  regular : (network.neuron? neuron).map Neuron.kind = some .regular
  listed : (network.rulesOf neuron)[index]? = some rule
  opened : state.cooldown[neuron]? = some 0
  landed : ∀ number ∈ (topology.ranges.range neuron).rules, state.inFlight[number]? = some false
  holds : state.spikes[neuron]?.map Int32.toInt = some (count : ℤ)
  enough : rule.consume.toNat ≤ count
  guarded : List.replicate count () ∈ rule.guard.language

variable {network : Network} {topology : Topology} {state : State} {neuron index : Nat}
  {owner : Neuron}

/-- In a state of the right shape every entry that openness reads is there. -/
theorem isOpen_iff_of_fits (hfits : state.Fits topology) (hneuron : neuron < topology.neuronCount) :
    state.isOpen topology neuron = true ↔
      state.cooldown[neuron]? = some 0 ∧
        ∀ number ∈ (topology.ranges.range neuron).rules, state.inFlight[number]? = some false := by
  rw [State.isOpen_eq_true_iff, getElem?_eq_some_iff_getD (hfits.cooldown ▸ hneuron) 0]
  refine and_congr_right fun _ => forall_congr' fun number => forall_congr' fun howns => ?_
  have howns : topology.Owns neuron number := howns
  exact (getElem?_eq_some_iff_getD (hfits.inFlight ▸ howns.rule_lt) false).symm

theorem mem_applicableIn_iff_enables (hfits : state.Fits topology)
    (hneuron : neuron < topology.neuronCount) (howner : network.neuron? neuron = some owner) :
    index ∈ applicableIn topology state neuron owner ↔
      ∃ rule count, network.Enables topology state neuron index rule count := by
  have hspikes : state.spikes[neuron]? = some (state.spikes.getD neuron 0) :=
    (getElem?_eq_some_iff_getD (hfits.spikes ▸ hneuron) 0).mpr rfl
  have hrules : network.rulesOf neuron = owner.rules := by rw [rulesOf, howner]; rfl
  rw [mem_applicableIn_iff, isOpen_iff_of_fits hfits hneuron]
  constructor
  · rintro ⟨⟨hopened, hlanded⟩, spikes, hholds, hindex⟩
    obtain ⟨hregular, rule, hrule, happlicable⟩ := mem_applicableRules_iff.mp hindex
    obtain ⟨henough, hguarded⟩ := Rule.applicable_iff.mp happlicable
    exact ⟨rule, spikes.toNat, {
      regular := by rw [howner, Option.map_some, hregular]
      listed := hrules ▸ hrule
      opened := hopened
      landed := hlanded
      holds := by rw [hspikes, Option.map_some, hholds]
      enough := henough
      guarded := hguarded }⟩
  · rintro ⟨rule, count, henables⟩
    have hregular := henables.regular
    have hholds := henables.holds
    rw [howner, Option.map_some, Option.some_inj] at hregular
    rw [hspikes, Option.map_some, Option.some_inj] at hholds
    -- A count that a neuron holds is small enough for the word it is compared as.
    obtain ⟨spikes, rfl⟩ : ∃ spikes : UInt32, spikes.toNat = count := by
      have hupper := (state.spikes.getD neuron 0).toInt_lt
      have hsize : UInt32.size = 2 ^ 32 := rfl
      exact ⟨.ofNat count, UInt32.toNat_ofNat_of_lt' (by omega)⟩
    refine ⟨⟨henables.opened, henables.landed⟩, spikes, hholds, ?_⟩
    exact mem_applicableRules_iff.mpr ⟨hregular, rule, hrules ▸ henables.listed,
      Rule.applicable_iff.mpr ⟨henables.enough, henables.guarded⟩⟩

theorem pairwise_applicableIn : (applicableIn topology state neuron owner).Pairwise (· < ·) := by
  rw [applicableIn]
  split
  · split
    · exact owner.pairwise_applicableRules _
    · exact List.Pairwise.nil
  · exact List.Pairwise.nil

/-- How the rules offered in a state are determined by what they are. -/
structure OffersExactly (network : Network) (topology : Topology) (state : State) : Prop where
  length : (network.applicableRules topology state).length = network.neuronCount
  ascending : ∀ offered ∈ network.applicableRules topology state, offered.Pairwise (· < ·)
  enabled : ∀ neuron offered, (network.applicableRules topology state)[neuron]? = some offered →
    ∀ index, index ∈ offered ↔
      ∃ rule count, network.Enables topology state neuron index rule count
  /-- The words of a guard in numbers. -/
  covered : ∀ (guard : Guard) (count : ℕ),
    List.replicate count () ∈ guard.language ↔ guard.Covers count

theorem offersExactly_of_fits (htopology : network.topology = .ok topology)
    (hfits : state.Fits topology) : network.OffersExactly topology state where
  length := length_applicableRules
  ascending := by
    intro offered hoffered
    obtain ⟨neuron, hneuron⟩ := List.mem_iff_getElem?.mp hoffered
    rw [getElem?_applicableRules, Option.map_eq_some_iff] at hneuron
    obtain ⟨owner, _, rfl⟩ := hneuron
    exact pairwise_applicableIn
  enabled := by
    intro neuron offered hoffered index
    rw [getElem?_applicableRules, Option.map_eq_some_iff] at hoffered
    obtain ⟨owner, howner, rfl⟩ := hoffered
    have hneuron : neuron < topology.neuronCount := by
      rw [(assembles_of_topology htopology).neuronCount_eq]
      exact neuron?_isSome_iff.mp (howner ▸ rfl)
    exact mem_applicableIn_iff_enables hfits hneuron howner
  covered guard count := by rw [Guard.mem_language_iff, List.length_replicate]

/-- Neurons with guards of every shape, one of them with a period of zero. -/
def guardedNetwork : List NetworkEdit :=
  [.addNeuron
      { label := none
        body := .regular 4
          [.spiking (.periodic 4 0) 1 0, .spiking (.periodic 1 3) 4 2, .forgetting (.atLeast 5) 1,
            .spiking (.exactly 4) 5 0, .spiking (.atLeast 0) 0 3] },
    .addNeuron (.input [1]),
    .addNeuron { label := none, body := .regular 2 [.spiking (.atLeast 1) 1 2] },
    .addNeuron { label := none, body := .regular 0 [.spiking (.atLeast 0) 0 1] }]

/-- The third neuron has a rule in flight though it does not cool down, and the last one has
fewer spikes than none. -/
def guardedState : State :=
  { spikes := [4, 0, 2, -1]
    cooldown := [0, 0, 0, 0]
    inFlight := [false, false, false, false, false, false, true, false]
    firing := [false, false, false, false] }

theorem offersExactly_of_fits_guardedNetwork :
    ∃ topology, (ofEdits guardedNetwork).topology = .ok topology ∧ guardedState.Fits topology ∧
      (ofEdits guardedNetwork).applicableRules topology guardedState = [[0, 1, 4], [], [], []] ∧
      (ofEdits guardedNetwork).OffersExactly topology guardedState := by
  have htopology : (ofEdits guardedNetwork).topology = .ok _ := rfl
  exact ⟨_, htopology, ⟨rfl, rfl, rfl, rfl⟩, rfl,
    offersExactly_of_fits htopology ⟨rfl, rfl, rfl, rfl⟩⟩

end Network

end SpikingNeuralP
