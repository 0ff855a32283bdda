import Mathlib.Data.List.MinMax
import SpikingNeuralP.Network.Choice
import SpikingNeuralP.Proofs.Topology.Partition
import SpikingNeuralP.Proofs.Vector.Traversal
import SpikingNeuralP.Step.Release

/-!
# Numbering the rules

The delays, the arriving spikes, the decisions and the columns of the effect
matrix all number the rules alike: neuron by neuron, each neuron's rules in its
own order.  The ranges of the topology follow the same numbers.
-/

namespace SpikingNeuralP

namespace Network

/-- The rules of a neuron; a neuron that does not exist has none. -/
def rulesOf (network : Network) (neuron : Nat) : List Rule :=
  ((network.neuron? neuron).map Neuron.rules).getD []

/-- The number of a neuron's rule among all rules. -/
def column (network : Network) (neuron index : Nat) : Nat :=
  (network.ruleCounts.take neuron).sum + index

/-- The spikes the environment adds at a neuron; only an input neuron has a
train. -/
def trainAt (network : Network) (neuron time : Nat) : UInt32 :=
  ((network.neuron? neuron).map fun neuron => neuron.train.getD time 0).getD 0

/-- The parts of the topology are the ones assembled from the network. -/
structure Assembles (network : Network) (topology : Topology) : Prop where
  counts : topology.counts = network.ruleCounts
  delays : topology.delays = network.delays
  matrix : network.effectMatrix = .ok topology.matrix

variable {network : Network} {topology : Topology} {neuron index time : Nat} {rule : Rule}

theorem assembles_of_topology (htopology : network.topology = .ok topology) :
    network.Assembles topology := by
  obtain ⟨_, hassembled⟩ := check_bind_eq_ok_iff.mp htopology
  obtain ⟨matrix, hmatrix, hbuild⟩ := bind_eq_ok_iff.mp hassembled
  obtain ⟨hcounts, hdelays, rfl⟩ := Topology.build_eq_ok_iff.mp (mapError_eq_ok_iff.mp hbuild)
  exact ⟨hcounts, hdelays, hmatrix⟩

theorem length_ruleCounts : network.ruleCounts.length = network.neuronCount := by
  simp [ruleCounts, neurons, neuronCount]

theorem getElem?_neurons : network.neurons[neuron]? = network.neuron? neuron := by
  rw [neurons, List.getElem?_map, neuron?]

theorem neuron?_isSome_iff : (network.neuron? neuron).isSome ↔ neuron < network.neuronCount := by
  simp [neuron?, neuronCount]

/-- A rule that is found belongs to a neuron that exists. -/
theorem exists_neuron_of_rule (hrule : (network.rulesOf neuron)[index]? = some rule) :
    ∃ owner, network.neuron? neuron = some owner ∧ owner.rules[index]? = some rule := by
  rw [rulesOf] at hrule
  cases howner : network.neuron? neuron with
  | none => simp [howner] at hrule
  | some owner => exact ⟨owner, rfl, by simpa [howner] using hrule⟩

theorem neuron_lt_of_rule (hrule : (network.rulesOf neuron)[index]? = some rule) :
    neuron < network.neuronCount := by
  obtain ⟨owner, howner, _⟩ := exists_neuron_of_rule hrule
  exact neuron?_isSome_iff.mp (Option.isSome_iff_exists.mpr ⟨owner, howner⟩)

theorem getElem_ruleCounts (hneuron : neuron < network.ruleCounts.length) :
    network.ruleCounts[neuron] = (network.rulesOf neuron).length := by
  rw [length_ruleCounts] at hneuron
  obtain ⟨owner, howner⟩ := Option.isSome_iff_exists.mp (neuron?_isSome_iff.mpr hneuron)
  have hcount : network.ruleCounts[neuron]? = some owner.rules.length := by
    rw [ruleCounts, List.getElem?_map, getElem?_neurons, howner]
    rfl
  obtain ⟨_, hcount⟩ := List.getElem?_eq_some_iff.mp hcount
  simp [hcount, rulesOf, howner]

namespace Assembles

theorem neuronCount_eq (hassembles : network.Assembles topology) :
    topology.neuronCount = network.neuronCount := by
  rw [Topology.neuronCount, hassembles.counts, length_ruleCounts]

theorem ruleCount_eq (hassembles : network.Assembles topology) :
    topology.ruleCount = network.ruleCounts.sum := by
  rw [topology.ruleCount_eq_sum_counts, hassembles.counts]

/-- A neuron owns exactly the numbers of its rules. -/
theorem owns_iff (hassembles : network.Assembles topology) {number : Nat} :
    topology.Owns neuron number ↔
      ∃ index < (network.rulesOf neuron).length, number = network.column neuron index := by
  by_cases hneuron : neuron < network.neuronCount
  · rw [Topology.owns_iff (hassembles.neuronCount_eq ▸ hneuron), hassembles.counts]
    have hlength : neuron < network.ruleCounts.length := length_ruleCounts ▸ hneuron
    rw [List.sum_take_succ _ _ hlength, getElem_ruleCounts hlength]
    constructor
    · rintro ⟨hstart, hstop⟩
      refine ⟨number - (network.ruleCounts.take neuron).sum, by omega, ?_⟩
      rw [column]
      omega
    · rintro ⟨index, hindex, rfl⟩
      rw [column]
      omega
  · constructor
    · intro howns
      exact absurd (hassembles.neuronCount_eq ▸ howns.neuron_lt) hneuron
    · rintro ⟨index, hindex, _⟩
      obtain ⟨rule, hrule⟩ : ∃ rule, (network.rulesOf neuron)[index]? = some rule :=
        ⟨_, List.getElem?_eq_getElem hindex⟩
      exact absurd (neuron_lt_of_rule hrule) hneuron

theorem owns_column (hassembles : network.Assembles topology)
    (hrule : (network.rulesOf neuron)[index]? = some rule) :
    topology.Owns neuron (network.column neuron index) :=
  hassembles.owns_iff.mpr ⟨index, (List.getElem?_eq_some_iff.mp hrule).1, rfl⟩

/-- A number owned by a neuron is that of one of its rules. -/
theorem exists_rule_of_owns (hassembles : network.Assembles topology) {number : Nat}
    (howns : topology.Owns neuron number) :
    ∃ index rule, (network.rulesOf neuron)[index]? = some rule ∧
      number = network.column neuron index := by
  obtain ⟨index, hindex, hnumber⟩ := hassembles.owns_iff.mp howns
  exact ⟨index, _, List.getElem?_eq_getElem hindex, hnumber⟩

theorem getD_delays (hassembles : network.Assembles topology)
    (hrule : (network.rulesOf neuron)[index]? = some rule) :
    topology.delays.getD (network.column neuron index) 0 = rule.delay := by
  obtain ⟨owner, howner, hrule⟩ := exists_neuron_of_rule hrule
  have hindex := (List.getElem?_eq_some_iff.mp hrule).1
  have hblock := getElem?_flatMap_block (fun neuron : Neuron => neuron.rules.map Rule.delay)
    (fun neuron => neuron.rules.length) (by simp) (getElem?_neurons.trans howner) hindex
  rw [hassembles.delays, List.getD_eq_getElem?_getD]
  rw [List.getElem?_map, hrule] at hblock
  exact congrArg (fun delay : Option UInt32 => delay.getD 0) hblock

end Assembles

/-- No train goes on after the longest one. -/
theorem trainAt_of_le (htime : network.trainLength ≤ time) : network.trainAt neuron time = 0 := by
  rw [trainAt]
  cases howner : network.neuron? neuron with
  | none => rfl
  | some owner =>
      have hmem : owner ∈ network.neurons :=
        List.mem_of_getElem? (getElem?_neurons.trans howner)
      have hlength : owner.train.length ≤ network.trainLength :=
        List.le_max_of_le (List.mem_map.mpr ⟨owner, hmem, rfl⟩) (Nat.le_refl _)
      exact List.getD_eq_default _ _ (Nat.le_trans hlength htime)

/-- What arrives at a rule is what arrives at its neuron. -/
theorem arrivals_column (hrule : (network.rulesOf neuron)[index]? = some rule) :
    arrivals (network.train? time) (network.column neuron index) =
      network.trainAt neuron time := by
  rw [train?]
  split
  case isTrue =>
    obtain ⟨owner, howner, hrule⟩ := exists_neuron_of_rule hrule
    have hindex := (List.getElem?_eq_some_iff.mp hrule).1
    have hblock := getElem?_flatMap_block
      (fun neuron : Neuron => List.replicate neuron.rules.length (neuron.train.getD time 0))
      (fun neuron => neuron.rules.length) (by simp) (getElem?_neurons.trans howner) hindex
    rw [List.getElem?_replicate, if_pos hindex] at hblock
    rw [arrivals, Option.getD_some, List.getD_eq_getElem?_getD, trainAt, howner]
    exact congrArg (fun arriving : Option UInt32 => arriving.getD 0) hblock
  case isFalse htime =>
    rw [trainAt_of_le (Nat.le_of_not_lt htime)]
    rfl

/-- Reading the input trains of a time. -/
theorem getElem?_trains (network : Network) (time : Nat) :
    network.trains[time]? = network.train? time := by
  rw [trains, train?, List.getElem?_map]
  split
  case isTrue htime => rw [List.getElem?_range htime]; rfl
  case isFalse htime => rw [List.getElem?_eq_none (by simpa using htime)]; rfl

/-- A train that is given has an entry for every rule. -/
theorem length_of_train? {arriving : List UInt32} (htrain : network.train? time = some arriving) :
    arriving.length = network.ruleCounts.sum := by
  rw [train?] at htrain
  split at htrain
  case isTrue =>
    rw [← Option.some.inj htrain, arrivalsAt, List.length_flatMap, ruleCounts]
    simp
  case isFalse => contradiction

/-- The columns of the effect matrix stand for the rules in their order. -/
theorem getElem?_columns (hrule : (network.rulesOf neuron)[index]? = some rule) :
    network.columns[network.column neuron index]? =
      some (neuron, network.outgoing neuron, rule) := by
  obtain ⟨owner, howner, hrule⟩ := exists_neuron_of_rule hrule
  obtain ⟨cell, hcell, rfl⟩ := Option.map_eq_some_iff.mp howner
  have hindex := (List.getElem?_eq_some_iff.mp hrule).1
  have hitem : network.cells.zipIdx[neuron]? = some (cell, neuron) := by
    simp [List.getElem?_zipIdx, hcell]
  have hblock := getElem?_flatMap_block
    (fun item : Cell × Nat => item.1.neuron.rules.map fun rule => (item.2, item.1.outgoing, rule))
    (fun item => item.1.neuron.rules.length) (by simp) hitem hindex
  have hcounts : network.cells.zipIdx.map (fun item => item.1.neuron.rules.length) =
      network.ruleCounts := by
    rw [ruleCounts, neurons, List.map_map, ← List.zipIdx_map_fst 0 network.cells, List.map_map,
      List.zipIdx_map_fst]
    rfl
  rw [hcounts, List.getElem?_map, hrule] at hblock
  rw [outgoing, hcell]
  exact hblock

end Network

end SpikingNeuralP
