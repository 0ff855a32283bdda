import SpikingNeuralP.Proofs.Network.Matrix
import SpikingNeuralP.Proofs.Network.Minor

/-!
# Removing a neuron

A neuron that goes takes along its synapses in both directions.  Of what is assembled from
the network exactly the entries of the neuron are lost: its place in every vector over
neurons, the numbers of its rules in every vector over rules, and its row and its columns of
the effect matrix.  The other synapses keep their weights and their order.
-/

namespace SpikingNeuralP

namespace Network

variable {network edited : Network} {topology : Topology} {index : Nat} {neuron : Neuron}

/-- What remains of the synapses of a neuron, renamed. -/
theorem withoutTarget_eq (index : Nat) (outgoing : List Synapse) :
    withoutTarget index outgoing =
      (outgoing.filter (·.target != index)).map fun synapse =>
        ⟨laterIndex index synapse.target, synapse.weight⟩ := by
  rw [withoutTarget]
  apply List.map_congr_left
  intro synapse _
  rw [laterIndex]
  split <;> rfl

theorem weightTo_withoutTarget (index target : Nat) (outgoing : List Synapse) :
    weightTo (withoutTarget index outgoing) target =
      weightTo outgoing (formerIndex index target) := by
  have hkept : ∀ synapse : Synapse,
      (laterIndex index synapse.target == target && synapse.target != index) =
        (synapse.target == formerIndex index target) := by
    intro synapse
    rw [Bool.eq_iff_iff, Bool.and_eq_true, beq_iff_eq, bne_iff_ne, beq_iff_eq]
    constructor
    · rintro ⟨rfl, hne⟩
      exact (formerIndex_laterIndex hne).symm
    · intro hformer
      rw [hformer]
      exact ⟨laterIndex_formerIndex index target, formerIndex_ne index target⟩
  rw [weightTo, weightTo, withoutTarget_eq, List.filter_map, List.map_map, List.filter_filter]
  simp only [Function.comp_def, hkept]

theorem initialSpikes_eq_ok_iff {spikes : List Int32} :
    network.initialSpikes = .ok spikes ↔
      (∀ owner ∈ network.neurons, owner.spikes.toNat < 2 ^ 31) ∧
        network.neurons.map (fun owner => Int32.ofNat owner.spikes.toNat) = spikes :=
  mapM_eq_ok_iff_map fun _ _ => asSpikes_eq_ok_iff

/-- The neuron is there and of the kind that collects. -/
def isOutput (network : Network) (place : Nat) : Bool :=
  (network.neuron? place).any (·.kind == .output)

theorem outputNeurons_eq_filter (network : Network) :
    network.outputNeurons = (List.range network.neuronCount).filter network.isOutput := by
  have hplaces : List.range network.neuronCount = network.neurons.zipIdx.map Prod.snd := by
    rw [List.zipIdx_map_snd, List.range_eq_range', neurons, List.length_map, neuronCount]
  have hkinds : network.neurons.zipIdx.filter (fun item => item.1.kind == .output) =
      network.neurons.zipIdx.filter (network.isOutput ∘ Prod.snd) := by
    apply List.filter_congr
    rintro ⟨owner, place⟩ hitem
    rw [List.mem_zipIdx_iff_getElem?, getElem?_neurons] at hitem
    rw [Function.comp_apply, isOutput, hitem, Option.any_some]
  rw [hplaces, List.filter_map, ← hkinds]
  rfl

section Removed

variable (hremove : network.removeNeuron index = .ok (neuron, edited))

include hremove

theorem neurons_of_removeNeuron : edited.neurons = network.neurons.eraseIdx index :=
  (allows_of_edit_eq_ok (edit_removeNeuron_eq_ok_iff.mpr ⟨neuron, hremove⟩)).2.1

theorem neuron?_of_removeNeuron (place : Nat) :
    edited.neuron? place = network.neuron? (formerIndex index place) := by
  rw [← getElem?_neurons, neurons_of_removeNeuron hremove, getElem?_eraseIdx_formerIndex,
    getElem?_neurons]

theorem rulesOf_of_removeNeuron (place : Nat) :
    edited.rulesOf place = network.rulesOf (formerIndex index place) := by
  rw [rulesOf, rulesOf, neuron?_of_removeNeuron hremove]

theorem ruleCounts_of_removeNeuron : edited.ruleCounts = network.ruleCounts.eraseIdx index := by
  rw [ruleCounts, ruleCounts, neurons_of_removeNeuron hremove, map_eraseIdx]

/-- The synapses that are left keep their order. -/
theorem outgoing_laterIndex {source : Nat} (hsource : source ≠ index) :
    edited.outgoing (laterIndex index source) =
      ((network.outgoing source).filter (·.target != index)).map fun synapse =>
        ⟨laterIndex index synapse.target, synapse.weight⟩ := by
  rw [outgoing_of_removeNeuron hremove, formerIndex_laterIndex hsource, withoutTarget_eq]

theorem mem_outgoing_laterIndex_iff {source target : Nat} {weight : UInt32}
    (hsource : source ≠ index) (htarget : target ≠ index) :
    ⟨laterIndex index target, weight⟩ ∈ edited.outgoing (laterIndex index source) ↔
      ⟨target, weight⟩ ∈ network.outgoing source := by
  rw [outgoing_laterIndex hremove hsource]
  simp only [List.mem_map, List.mem_filter, bne_iff_ne, Synapse.mk.injEq]
  constructor
  · rintro ⟨synapse, ⟨hsynapse, hne⟩, hsame, rfl⟩
    have hsame : synapse.target = target := by
      rw [← formerIndex_laterIndex hne, hsame, formerIndex_laterIndex htarget]
    rwa [← hsame]
  · intro hsynapse
    exact ⟨_, ⟨hsynapse, htarget⟩, rfl, rfl⟩

/-- A synapse that is left has the weight it had. -/
theorem weight_of_removeNeuron (source target : Nat) :
    edited.weight source target =
      network.weight (formerIndex index source) (formerIndex index target) := by
  rw [weight, outgoing_of_removeNeuron hremove, weightTo_withoutTarget, weight]

theorem column_of_removeNeuron (hindex : index < network.ruleCounts.length) {place position : Nat}
    (hposition : position < (edited.rulesOf place).length) :
    network.column (formerIndex index place) position =
      RuleRange.formerRule
        ⟨(network.ruleCounts.take index).sum, (network.ruleCounts.take (index + 1)).sum⟩
        (edited.column place position) := by
  have hnext := List.sum_take_succ network.ruleCounts index hindex
  rw [RuleRange.formerRule, RuleRange.length, column, column, ruleCounts_of_removeNeuron hremove,
    formerIndex]
  dsimp only
  split
  case isTrue hplace =>
    rw [rulesOf_of_removeNeuron hremove, formerIndex, if_pos hplace,
      ← getElem_ruleCounts (hplace.trans hindex)] at hposition
    have hown := List.sum_take_succ network.ruleCounts place (hplace.trans hindex)
    have hbefore : (network.ruleCounts.take (place + 1)).sum ≤
        (network.ruleCounts.take index).sum := List.monotone_sum_take _ hplace
    rw [List.take_eraseIdx_eq_take_of_le _ _ _ hplace.le, if_pos (by omega)]
  case isFalse hplace =>
    have hplace := Nat.le_of_not_lt hplace
    have hsum := sum_take_eraseIdx hindex hplace
    have hbefore : (network.ruleCounts.take (index + 1)).sum ≤
        (network.ruleCounts.take (place + 1)).sum :=
      List.monotone_sum_take _ (Nat.succ_le_succ hplace)
    rw [if_neg (by omega)]
    omega

theorem delays_of_removeNeuron :
    edited.delays =
      RuleRange.cut
        ⟨(network.ruleCounts.take index).sum, (network.ruleCounts.take (index + 1)).sum⟩
        network.delays := by
  have hblocks := flatMap_eraseIdx network.neurons (fun owner => owner.rules.map Rule.delay)
    (fun owner => owner.rules.length) (fun _ => List.length_map _) index
  rw [delays, neurons_of_removeNeuron hremove, hblocks]
  rfl

theorem initialSpikes_of_removeNeuron {spikes : List Int32}
    (hspikes : network.initialSpikes = .ok spikes) :
    edited.initialSpikes = .ok (spikes.eraseIdx index) := by
  obtain ⟨hfits, rfl⟩ := initialSpikes_eq_ok_iff.mp hspikes
  rw [initialSpikes_eq_ok_iff, neurons_of_removeNeuron hremove, map_eraseIdx]
  exact ⟨fun owner howner => hfits owner (List.mem_of_mem_eraseIdx howner), rfl⟩

theorem outputNeurons_of_removeNeuron :
    edited.outputNeurons =
      (network.outputNeurons.filter (· != index)).map (laterIndex index) := by
  obtain ⟨hindex, hcount⟩ := neuronCount_of_removeNeuron hremove
  have hothers : (List.range network.neuronCount).filter (· != index) =
      (List.range edited.neuronCount).map (formerIndex index) := by
    rw [← hcount]
    exact filter_ne_range (by omega)
  have hsame : edited.isOutput = network.isOutput ∘ formerIndex index := by
    funext place
    rw [Function.comp_apply, isOutput, isOutput, neuron?_of_removeNeuron hremove]
  calc
    edited.outputNeurons = (List.range edited.neuronCount).filter edited.isOutput :=
      outputNeurons_eq_filter edited
    _ = (((List.range edited.neuronCount).filter edited.isOutput).map (formerIndex index)).map
        (laterIndex index) := by
      rw [List.map_map]
      exact (List.map_id _).symm.trans
        (List.map_congr_left fun place _ => (laterIndex_formerIndex index place).symm)
    _ = (((List.range network.neuronCount).filter (· != index)).filter network.isOutput).map
        (laterIndex index) := by
      rw [hothers, List.filter_map, hsame]
    _ = (network.outputNeurons.filter (· != index)).map (laterIndex index) := by
      rw [outputNeurons_eq_filter, List.filter_comm]

/-- What the network needs to be assembled, it still has without the neuron. -/
theorem exists_topology_of_removeNeuron (htopology : network.topology = .ok topology) :
    ∃ smaller, edited.topology = .ok smaller := by
  obtain ⟨hcounts, _⟩ := check_bind_eq_ok_iff.mp htopology
  have hmatrix := (assembles_of_topology htopology).matrix
  have hcells : ∀ cell ∈ edited.cells, ∃ former ∈ network.cells, cell.neuron = former.neuron ∧
      cell.outgoing = withoutTarget index former.outgoing := by
    intro cell hcell
    obtain ⟨_, rfl⟩ := removeNeuron_eq_ok_iff.mp hremove
    obtain ⟨former, hformer, rfl⟩ := List.mem_map.mp hcell
    exact ⟨former, List.mem_of_mem_eraseIdx hformer, rfl, rfl⟩
  obtain ⟨matrix, hwritten⟩ : ∃ matrix, edited.effectMatrix = .ok matrix := by
    refine exists_effectMatrix fun cell hcell rule hrule => ?_
    obtain ⟨former, hformer, hneuron, houtgoing⟩ := hcells cell hcell
    obtain ⟨hconsume, hgain⟩ := bounds_of_effectMatrix hmatrix hformer (hneuron ▸ hrule)
    refine ⟨hconsume, fun synapse hsynapse => ?_⟩
    rw [houtgoing, withoutTarget_eq] at hsynapse
    obtain ⟨old, hold, rfl⟩ := List.mem_map.mp hsynapse
    exact hgain old (List.mem_filter.mp hold).1
  refine exists_topology_of_effectMatrix (checkRuleCounts_eq_ok_iff.mpr fun owner howner => ?_)
    hwritten
  rw [neurons_of_removeNeuron hremove] at howner
  exact checkRuleCounts_eq_ok_iff.mp hcounts owner (List.mem_of_mem_eraseIdx howner)

end Removed

/-- The effect of a rule on a neuron does not depend on the neuron that went. -/
theorem cell_of_removeNeuron (hwell : network.WellFormed)
    (hremove : network.removeNeuron index = .ok (neuron, edited)) {matrix smaller : EffectMatrix}
    (hmatrix : network.effectMatrix = .ok matrix) (hsmaller : edited.effectMatrix = .ok smaller)
    {place position : Nat} (hplace : place < edited.neuronCount) {source : Nat} {rule : Rule}
    (hrule : (edited.rulesOf source)[position]? = some rule) :
    smaller.cell place (edited.column source position) =
      matrix.cell (formerIndex index place)
        (network.column (formerIndex index source) position) := by
  obtain ⟨hindex, hcount⟩ := neuronCount_of_removeNeuron hremove
  have hformer : formerIndex index place < network.neuronCount :=
    hcount ▸ (formerIndex_lt_iff (by omega)).mpr hplace
  have hrule' : (network.rulesOf (formerIndex index source))[position]? = some rule := by
    rwa [← rulesOf_of_removeNeuron hremove]
  have hhome : formerIndex index source = formerIndex index place ↔ source = place := by
    constructor
    · intro hsame
      rw [← laterIndex_formerIndex index source, hsame, laterIndex_formerIndex]
    · rintro rfl
      rfl
  apply Int32.toInt_inj.mp
  rw [toInt_cell_of_effectMatrix (hwell.removeNeuron hremove) hsmaller hplace hrule,
    toInt_cell_of_effectMatrix hwell hmatrix hformer hrule', weight_of_removeNeuron hremove]
  simp only [hhome]

/-- The matrix loses the row of the neuron and the columns of its rules. -/
theorem isMinor_of_removeNeuron (hwell : network.WellFormed)
    (hremove : network.removeNeuron index = .ok (neuron, edited)) {smaller : Topology}
    (htopology : network.topology = .ok topology) (hsmaller : edited.topology = .ok smaller) :
    smaller.matrix.IsMinor topology.matrix index (topology.ranges.range index) := by
  have hassembles := assembles_of_topology htopology
  have hassembled := assembles_of_topology hsmaller
  obtain ⟨hindex, hcount⟩ := neuronCount_of_removeNeuron hremove
  have hlength : index < network.ruleCounts.length := length_ruleCounts ▸ hindex
  have hneuron : index < topology.neuronCount := hassembles.neuronCount_eq ▸ hindex
  have hrange : topology.ranges.range index =
      ⟨(network.ruleCounts.take index).sum, (network.ruleCounts.take (index + 1)).sum⟩ := by
    rw [Topology.ranges, hassembles.counts, RuleRanges.range_ofCounts hlength]
  have hbounds := Topology.range_le hneuron
  have hrules : smaller.ruleCount + (topology.ranges.range index).length = topology.ruleCount := by
    rw [hassembled.ruleCount_eq, hassembles.ruleCount_eq, ruleCounts_of_removeNeuron hremove,
      hrange, RuleRange.length, List.sum_take_succ _ _ hlength, Nat.add_sub_cancel_left,
      Nat.add_comm, List.add_sum_eraseIdx hlength fun _ _ => Nat.add_comm _ _]
  refine EffectMatrix.isMinor_of_cell_eq (topology.matrix_neurons ▸ hneuron) hbounds.1
    (topology.rules_matrix ▸ hbounds.2) ?_ ?_ fun place hplace number hnumber => ?_
  · rw [smaller.matrix_neurons, topology.matrix_neurons]
    exact (congrArg (· + 1) hassembled.neuronCount_eq).trans
      (hcount.trans hassembles.neuronCount_eq.symm)
  · rwa [smaller.rules_matrix, topology.rules_matrix]
  · rw [smaller.rules_matrix] at hnumber
    obtain ⟨source, howns⟩ := Topology.exists_owns hnumber
    obtain ⟨position, rule, hrule, rfl⟩ := hassembled.exists_rule_of_owns howns
    have hplace : place < edited.neuronCount := by
      rwa [smaller.matrix_neurons, hassembled.counts, length_ruleCounts] at hplace
    rw [cell_of_removeNeuron hwell hremove hassembles.matrix hassembled.matrix hplace hrule,
      hrange, column_of_removeNeuron hremove hlength (List.getElem?_eq_some_iff.mp hrule).1]

/-- What becomes of the network, and of everything that is assembled from it, when the neuron
at `index` goes. -/
structure TakesMinor (network : Network) (topology : Topology) (index : Nat) (edited : Network)
    (smaller : Topology) : Prop where
  neurons : edited.neurons = network.neurons.eraseIdx index
  counts : smaller.counts = topology.counts.eraseIdx index
  delays : smaller.delays = (topology.ranges.range index).cut topology.delays
  matrix : smaller.matrix.IsMinor topology.matrix index (topology.ranges.range index)
  initialSpikes : ∀ spikes, network.initialSpikes = .ok spikes →
    edited.initialSpikes = .ok (spikes.eraseIdx index)
  outputNeurons : edited.outputNeurons =
    (network.outputNeurons.filter (· != index)).map (laterIndex index)
  connected : ∀ source target weight, source ≠ index → target ≠ index →
    (⟨target, weight⟩ ∈ network.outgoing source ↔
      ⟨laterIndex index target, weight⟩ ∈ edited.outgoing (laterIndex index source))
  /-- The synapses of a source stand in the order in which they stood. -/
  ordered : ∀ source, source ≠ index →
    edited.outgoing (laterIndex index source) =
      ((network.outgoing source).filter (·.target != index)).map fun synapse =>
        ⟨laterIndex index synapse.target, synapse.weight⟩

/-- Any neuron may be removed from a network that can be assembled.  It is handed out as it
was, and without it the network can be assembled as well, to a minor of what it was. -/
theorem exists_takesMinor_of_topology {edits : List NetworkEdit}
    (htopology : (ofEdits edits).topology = .ok topology)
    (hindex : index < (ofEdits edits).neuronCount) :
    ∃ neuron edited smaller, (ofEdits edits).neuron? index = some neuron ∧
      (ofEdits edits).removeNeuron index = .ok (neuron, edited) ∧
      edited.topology = .ok smaller ∧
      (ofEdits edits).TakesMinor topology index edited smaller := by
  obtain ⟨neuron, hneuron⟩ := exists_neuron?_eq_some_iff.mpr hindex
  obtain ⟨edited, hremove⟩ : ∃ edited,
      (ofEdits edits).removeNeuron index = .ok (neuron, edited) :=
    ⟨_, removeNeuron_eq_ok_iff.mpr ⟨hneuron, rfl⟩⟩
  obtain ⟨smaller, hsmaller⟩ := exists_topology_of_removeNeuron hremove htopology
  have hassembles := assembles_of_topology htopology
  have hassembled := assembles_of_topology hsmaller
  have hlength : index < (ofEdits edits).ruleCounts.length := length_ruleCounts ▸ hindex
  refine ⟨neuron, edited, smaller, hneuron, hremove, hsmaller, ?_⟩
  exact {
    neurons := neurons_of_removeNeuron hremove
    counts := by
      rw [hassembled.counts, hassembles.counts, ruleCounts_of_removeNeuron hremove]
    delays := by
      rw [hassembled.delays, hassembles.delays, delays_of_removeNeuron hremove, Topology.ranges,
        hassembles.counts, RuleRanges.range_ofCounts hlength]
    matrix := isMinor_of_removeNeuron (wellFormed_ofEdits edits) hremove htopology hsmaller
    initialSpikes := fun _ => initialSpikes_of_removeNeuron hremove
    outputNeurons := outputNeurons_of_removeNeuron hremove
    connected := fun _ _ _ hsource htarget =>
      (mem_outgoing_laterIndex_iff hremove hsource htarget).symm
    ordered := fun _ hsource => outgoing_laterIndex hremove hsource }

/-- The line with two more synapses, which pass over its middle neuron in either direction. -/
def bridgedLine : List NetworkEdit :=
  delayedLine ++ [.addSynapse 0 2 4, .addSynapse 2 0 1]

/-- Without its middle neuron the line keeps the two synapses that pass over it. -/
theorem exists_takesMinor_of_topology_bridgedLine :
    ∃ topology neuron edited smaller,
      (ofEdits bridgedLine).topology = .ok topology ∧ 1 < (ofEdits bridgedLine).neuronCount ∧
        (ofEdits bridgedLine).removeNeuron 1 = .ok (neuron, edited) ∧
        edited.topology = .ok smaller ∧
        topology.matrix.rows = [[0, 0], [1, -2], [4, 3]] ∧ smaller.matrix.rows = [[0], [4]] ∧
        edited.rows = [[⟨1, 4⟩], [⟨0, 1⟩]] ∧
        (ofEdits bridgedLine).TakesMinor topology 1 edited smaller := by
  have htopology : (ofEdits bridgedLine).topology = .ok _ := rfl
  have hindex : 1 < (ofEdits bridgedLine).neuronCount := by decide
  obtain ⟨neuron, edited, smaller, _, hremove, hsmaller, hminor⟩ :=
    exists_takesMinor_of_topology htopology hindex
  obtain ⟨rfl, rfl⟩ := Prod.mk.inj (Except.ok.inj hremove)
  obtain rfl := Except.ok.inj hsmaller
  exact ⟨_, _, _, _, htopology, hindex, hremove, hsmaller, rfl, rfl, rfl, hminor⟩

end Network

end SpikingNeuralP
