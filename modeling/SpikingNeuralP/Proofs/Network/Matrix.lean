import Mathlib.Algebra.BigOperators.Group.List.Basic
import Mathlib.Data.List.Perm.Basic
import SpikingNeuralP.Proofs.Network.Bounds
import SpikingNeuralP.Proofs.Network.Choices

/-!
# The matrix that is assembled

Whenever the effect matrix of a network can be written, its cells are given by the rules
and the synapses alone: what a rule consumes at home, what it sends along a synapse, and
nothing anywhere else.  The order in which synapses were added leaves no trace, and every
other vector over rules numbers them as the columns do.
-/

namespace SpikingNeuralP

/-- A matrix is its shape and its cells. -/
theorem EffectMatrix.eq_of_cell_eq {left right : EffectMatrix}
    (hneurons : left.neurons = right.neurons) (hrules : left.rules = right.rules)
    (hcells : ∀ neuron < left.neurons, ∀ rule < left.rules,
      left.cell neuron rule = right.cell neuron rule) : left = right := by
  have hlength : left.values.length = right.values.length := by
    rw [left.shape, right.shape, hneurons, hrules]
  have hvalues : left.values = right.values := by
    refine eq_of_getD_eq hlength 0 fun place hplace => ?_
    rw [left.shape] at hplace
    have hpositive : 0 < left.rules := Nat.pos_of_mul_pos_left (Nat.zero_lt_of_lt hplace)
    have hcell := hcells (place / left.rules) ((Nat.div_lt_iff_lt_mul hpositive).mpr hplace)
      (place % left.rules) (Nat.mod_lt place hpositive)
    rwa [cell, cell, ← hrules, Nat.div_add_mod'] at hcell
  obtain ⟨neurons, rules, values, hshape⟩ := left
  obtain ⟨neurons', rules', values', hshape'⟩ := right
  obtain rfl : neurons = neurons' := hneurons
  obtain rfl : rules = rules' := hrules
  obtain rfl : values = values' := hvalues
  rfl

namespace Network

/-- A synapse that is there alone carries the whole weight to its target. -/
theorem weightTo_of_mem {outgoing : List Synapse} {synapse : Synapse}
    (hnodup : (outgoing.map Synapse.target).Nodup) (hsynapse : synapse ∈ outgoing) :
    weightTo outgoing synapse.target = synapse.weight.toNat := by
  induction outgoing with
  | nil => cases hsynapse
  | cons first outgoing ih =>
      obtain ⟨hfresh, hnodup⟩ := List.nodup_cons.mp hnodup
      rcases List.mem_cons.mp hsynapse with rfl | hsynapse
      · have hrest : weightTo outgoing synapse.target = 0 :=
          weightTo_of_absent fun other hother hsame =>
            hfresh (List.mem_map.mpr ⟨other, hother, hsame⟩)
        rw [weightTo] at hrest ⊢
        simp [hrest]
      · have hne : first.target ≠ synapse.target := fun hsame =>
          hfresh (hsame ▸ List.mem_map_of_mem hsynapse)
        rw [← ih hnodup hsynapse, weightTo, weightTo]
        simp [hne]

/-- The weight to a target depends on which synapses there are and not on their order. -/
theorem weightTo_eq_of_mem_iff {left right : List Synapse}
    (hleft : (left.map Synapse.target).Nodup) (hright : (right.map Synapse.target).Nodup)
    (hsame : ∀ synapse, synapse ∈ left ↔ synapse ∈ right) (target : Nat) :
    weightTo left target = weightTo right target := by
  have hperm : left.Perm right :=
    (List.perm_ext_iff_of_nodup hleft.of_map hright.of_map).mpr hsame
  exact ((hperm.filter _).map _).sum_eq

variable {network left right : Network} {matrix : EffectMatrix} {neuron source index : Nat}
  {rule : Rule}

theorem toInt_cell_of_effectMatrix (hwell : network.WellFormed)
    (hmatrix : network.effectMatrix = .ok matrix) (hneuron : neuron < network.neuronCount)
    (hrule : (network.rulesOf source)[index]? = some rule) :
    (matrix.cell neuron (network.column source index)).toInt =
      ((rule.produce.toNat * network.weight source neuron : Nat) : Int) -
        if source = neuron then (rule.consume.toNat : Int) else 0 := by
  obtain ⟨topology, hassembles, rfl⟩ := exists_assembles hmatrix
  exact toInt_cell_column hwell hassembles hneuron hrule

/-- Every number is that of a rule. -/
theorem exists_rule_of_lt (hmatrix : network.effectMatrix = .ok matrix) {number : Nat}
    (hnumber : number < network.ruleCount) :
    ∃ source index rule, (network.rulesOf source)[index]? = some rule ∧
      number = network.column source index := by
  obtain ⟨topology, hassembles, _⟩ := exists_assembles hmatrix
  rw [ruleCount_eq_sum, ← hassembles.ruleCount_eq] at hnumber
  obtain ⟨source, howns⟩ := Topology.exists_owns hnumber
  exact ⟨source, hassembles.exists_rule_of_owns howns⟩

theorem column_lt (hmatrix : network.effectMatrix = .ok matrix)
    (hrule : (network.rulesOf source)[index]? = some rule) :
    network.column source index < network.ruleCount := by
  obtain ⟨topology, hassembles, _⟩ := exists_assembles hmatrix
  rw [ruleCount_eq_sum, ← hassembles.ruleCount_eq]
  exact (hassembles.owns_column hrule).rule_lt

/-- Different rules have different numbers. -/
theorem column_inj (hmatrix : network.effectMatrix = .ok matrix) {other index' : Nat}
    {rule' : Rule} (hrule : (network.rulesOf source)[index]? = some rule)
    (hrule' : (network.rulesOf other)[index']? = some rule')
    (hcolumn : network.column source index = network.column other index') :
    source = other ∧ index = index' := by
  obtain ⟨topology, hassembles, _⟩ := exists_assembles hmatrix
  have howns := hassembles.owns_column hrule
  rw [hcolumn] at howns
  obtain rfl := howns.unique (hassembles.owns_column hrule')
  exact ⟨rfl, Nat.add_left_cancel hcolumn⟩

/-- The same neurons and the same weighted synapses, in whatever order these were added. -/
structure SameGraph (left right : Network) : Prop where
  neurons : left.neurons = right.neurons
  synapses : ∀ source synapse, synapse ∈ left.outgoing source ↔ synapse ∈ right.outgoing source

namespace SameGraph

variable (hsame : left.SameGraph right)

include hsame

theorem neuronCount_eq : left.neuronCount = right.neuronCount := by
  simpa [Network.neurons, neuronCount] using congrArg List.length hsame.neurons

theorem rulesOf_eq (source : Nat) : left.rulesOf source = right.rulesOf source := by
  rw [rulesOf, rulesOf, ← getElem?_neurons, ← getElem?_neurons, hsame.neurons]

theorem ruleCounts_eq : left.ruleCounts = right.ruleCounts := by
  rw [ruleCounts, ruleCounts, hsame.neurons]

theorem column_eq (source index : Nat) : left.column source index = right.column source index := by
  rw [column, column, hsame.ruleCounts_eq]

theorem weight_eq (hleft : left.WellFormed) (hright : right.WellFormed) (source target : Nat) :
    left.weight source target = right.weight source target :=
  weightTo_eq_of_mem_iff (hleft.targets_nodup source) (hright.targets_nodup source)
    (hsame.synapses source) target

/-- A cell of the one network has a counterpart in the other. -/
theorem exists_cell {cell : Cell} (hcell : cell ∈ right.cells) :
    ∃ other ∈ left.cells, other.neuron = cell.neuron ∧
      ∀ synapse ∈ cell.outgoing, synapse ∈ other.outgoing := by
  obtain ⟨source, hsource⟩ := List.mem_iff_getElem?.mp hcell
  have hneuron : left.cells[source]?.map Cell.neuron = some cell.neuron := by
    rw [← List.getElem?_map, ← Network.neurons, hsame.neurons, Network.neurons, List.getElem?_map,
      hsource, Option.map_some]
  obtain ⟨other, hother, hneuron⟩ := Option.map_eq_some_iff.mp hneuron
  refine ⟨other, List.mem_of_getElem? hother, hneuron, fun synapse hsynapse => ?_⟩
  have hleft : left.outgoing source = other.outgoing := by rw [outgoing, hother]; rfl
  have hright : right.outgoing source = cell.outgoing := by rw [outgoing, hsource]; rfl
  rw [← hleft]
  exact (hsame.synapses source synapse).mpr (hright ▸ hsynapse)

end SameGraph

/-- Within bounds the matrix can be written. -/
theorem exists_effectMatrix
    (hbounds : ∀ cell ∈ network.cells, ∀ rule ∈ cell.neuron.rules,
      rule.consume.toNat < 2 ^ 31 ∧
        ∀ synapse ∈ cell.outgoing, rule.produce.toNat * synapse.weight.toNat < 2 ^ 31) :
    ∃ matrix, network.effectMatrix = .ok matrix := by
  rw [exists_eq_ok_iff_forall_ne_error]
  intro failure hfail
  obtain ⟨cell, hcell, rule, hrule, ⟨hlarge, _⟩ | ⟨synapse, hsynapse, hlarge, _⟩⟩ :=
    exists_rule_of_effectMatrix_eq_error hfail
  · exact Nat.not_lt.mpr hlarge (hbounds cell hcell rule hrule).1
  · exact Nat.not_lt.mpr hlarge ((hbounds cell hcell rule hrule).2 synapse hsynapse)

/-- The matrix depends on the graph alone. -/
theorem SameGraph.effectMatrix_eq (hsame : left.SameGraph right) (hleft : left.WellFormed)
    (hright : right.WellFormed) (hmatrix : left.effectMatrix = .ok matrix) :
    right.effectMatrix = .ok matrix := by
  obtain ⟨other, hother⟩ : ∃ other, right.effectMatrix = .ok other := by
    refine exists_effectMatrix fun cell hcell rule hrule => ?_
    obtain ⟨twin, htwin, hneuron, hsynapses⟩ := hsame.exists_cell hcell
    obtain ⟨hconsume, hgain⟩ := bounds_of_effectMatrix hmatrix htwin (hneuron ▸ hrule)
    exact ⟨hconsume, fun synapse hsynapse => hgain synapse (hsynapses synapse hsynapse)⟩
  obtain ⟨hneurons, hrules⟩ := shape_of_effectMatrix hmatrix
  obtain ⟨hneurons', hrules'⟩ := shape_of_effectMatrix hother
  have hwidth : left.ruleCount = right.ruleCount := by
    rw [ruleCount_eq_sum, ruleCount_eq_sum, hsame.ruleCounts_eq]
  rw [hother]
  congr 1
  refine EffectMatrix.eq_of_cell_eq ?_ ?_ fun neuron hneuron number hnumber => ?_
  · rw [hneurons, hneurons', hsame.neuronCount_eq]
  · rw [hrules, hrules', hwidth]
  · obtain ⟨source, index, rule, hrule, rfl⟩ := exists_rule_of_lt hother (hrules' ▸ hnumber)
    rw [hneurons'] at hneuron
    have hcell := toInt_cell_of_effectMatrix hright hother hneuron hrule
    rw [← hsame.rulesOf_eq] at hrule
    have hcell' := toInt_cell_of_effectMatrix hleft hmatrix (hsame.neuronCount_eq ▸ hneuron) hrule
    apply Int32.toInt_inj.mp
    rw [hcell, ← hsame.column_eq, hcell', hsame.weight_eq hleft hright]

/-- All vectors over rules number the rules alike: each neuron's rules in its own order,
after those of the neurons before it. -/
structure NumbersAlike (network : Network) : Prop where
  column_lt : ∀ neuron, ∀ index < (network.rulesOf neuron).length,
    network.column neuron index < network.ruleCount
  numbered : ∀ number < network.ruleCount, ∃! place : Nat × Nat,
    place.2 < (network.rulesOf place.1).length ∧ network.column place.1 place.2 = number
  delays : network.delays.length = network.ruleCount ∧
    ∀ neuron index rule, (network.rulesOf neuron)[index]? = some rule →
      network.delays.getD (network.column neuron index) 0 = rule.delay
  decision : ∀ choices decision, network.decision choices = .ok decision →
    decision.length = network.ruleCount ∧
      ∀ neuron index, index < (network.rulesOf neuron).length →
        (decision.getD (network.column neuron index) false = true ↔
          choices[neuron]? = some (some index))
  trains : ∀ time arriving, network.trains[time]? = some arriving →
    arriving.length = network.ruleCount ∧
      ∀ neuron, ∀ index < (network.rulesOf neuron).length,
        arriving.getD (network.column neuron index) 0 = network.trainAt neuron time
  ranges : ∀ topology, network.topology = .ok topology →
    ∀ neuron < network.neuronCount, topology.ranges.range neuron =
      ⟨network.column neuron 0, network.column neuron (network.rulesOf neuron).length⟩

/-- The matrix holds what the rules and synapses of the network say and nothing else. -/
structure AssemblesExactly (network : Network) (matrix : EffectMatrix) : Prop where
  shape : matrix.neurons = network.neuronCount ∧ matrix.rules = network.ruleCount
  home : ∀ neuron index rule, (network.rulesOf neuron)[index]? = some rule →
    (matrix.cell neuron (network.column neuron index)).toInt = -(rule.consume.toNat : Int)
  along : ∀ source index rule, (network.rulesOf source)[index]? = some rule →
    ∀ synapse ∈ network.outgoing source,
      (matrix.cell synapse.target (network.column source index)).toInt =
        (rule.produce.toNat * synapse.weight.toNat : Nat)
  elsewhere : ∀ source index rule, (network.rulesOf source)[index]? = some rule →
    ∀ neuron < network.neuronCount, neuron ≠ source →
      (∀ synapse ∈ network.outgoing source, synapse.target ≠ neuron) →
        matrix.cell neuron (network.column source index) = 0
  unordered : ∀ edits, network.SameGraph (ofEdits edits) →
    (ofEdits edits).effectMatrix = .ok matrix
  numbers : network.NumbersAlike

theorem range_of_assembles {topology : Topology} (hassembles : network.Assembles topology)
    (hneuron : neuron < network.neuronCount) :
    topology.ranges.range neuron =
      ⟨network.column neuron 0, network.column neuron (network.rulesOf neuron).length⟩ := by
  have hlength : neuron < network.ruleCounts.length := length_ruleCounts ▸ hneuron
  rw [Topology.ranges, hassembles.counts, RuleRanges.range_ofCounts hlength,
    List.sum_take_succ _ _ hlength, getElem_ruleCounts hlength]
  rfl

theorem numbersAlike_of_effectMatrix (hmatrix : network.effectMatrix = .ok matrix) :
    network.NumbersAlike where
  column_lt neuron index hindex := column_lt hmatrix (List.getElem?_eq_getElem hindex)
  numbered number hnumber := by
    obtain ⟨source, index, rule, hrule, rfl⟩ := exists_rule_of_lt hmatrix hnumber
    refine ⟨(source, index), ⟨(List.getElem?_eq_some_iff.mp hrule).1, rfl⟩, ?_⟩
    rintro ⟨other, index'⟩ ⟨hindex', hcolumn⟩
    obtain ⟨rfl, rfl⟩ :=
      column_inj hmatrix (List.getElem?_eq_getElem hindex') hrule hcolumn
    rfl
  delays := by
    obtain ⟨topology, hassembles, _⟩ := exists_assembles hmatrix
    refine ⟨length_delays network, fun neuron index rule hrule => ?_⟩
    rw [← hassembles.delays]
    exact hassembles.getD_delays hrule
  decision choices decision hdecision := by
    rw [ruleCount_eq_sum]
    exact ⟨length_decision hdecision, fun neuron index hindex =>
      getD_decision hdecision (List.getElem?_eq_getElem hindex)⟩
  trains time arriving harriving := by
    rw [getElem?_trains] at harriving
    rw [ruleCount_eq_sum]
    refine ⟨length_of_train? harriving, fun neuron index hindex => ?_⟩
    have hentry : arrivals (network.train? time) (network.column neuron index) =
        network.trainAt neuron time := arrivals_column (List.getElem?_eq_getElem hindex)
    rwa [harriving] at hentry
  ranges topology htopology neuron hneuron :=
    range_of_assembles (assembles_of_topology htopology) hneuron

/-- For every network that is built by edits and whose matrix can be written, the matrix is
the one its rules and synapses describe. -/
theorem assemblesExactly_of_effectMatrix {edits : List NetworkEdit}
    (hmatrix : (ofEdits edits).effectMatrix = .ok matrix) :
    (ofEdits edits).AssemblesExactly matrix := by
  have hwell := wellFormed_ofEdits edits
  exact {
    shape := shape_of_effectMatrix hmatrix
    home := by
      intro neuron index rule hrule
      have hnone : (ofEdits edits).weight neuron neuron = 0 :=
        weightTo_of_absent (hwell.target_ne neuron)
      rw [toInt_cell_of_effectMatrix hwell hmatrix (neuron_lt_of_rule hrule) hrule, hnone,
        if_pos rfl]
      simp
    along := by
      intro source index rule hrule synapse hsynapse
      have hweight : (ofEdits edits).weight source synapse.target = synapse.weight.toNat :=
        weightTo_of_mem (hwell.targets_nodup source) hsynapse
      rw [toInt_cell_of_effectMatrix hwell hmatrix (hwell.target_lt source synapse hsynapse) hrule,
        hweight, if_neg (hwell.target_ne source synapse hsynapse).symm, Int.sub_zero]
    elsewhere := by
      intro source index rule hrule neuron hneuron hne habsent
      have hnone : (ofEdits edits).weight source neuron = 0 := weightTo_of_absent habsent
      apply Int32.toInt_inj.mp
      rw [toInt_cell_of_effectMatrix hwell hmatrix hneuron hrule, hnone, if_neg hne.symm]
      rfl
    unordered := fun others hsame =>
      hsame.effectMatrix_eq hwell (wellFormed_ofEdits others) hmatrix
    numbers := numbersAlike_of_effectMatrix hmatrix }

/-- Row by row; the two synapses that were refused have left no trace. -/
theorem assemblesExactly_of_effectMatrix_delayedLine :
    ∃ matrix, (ofEdits delayedLine).effectMatrix = .ok matrix ∧
      matrix.values = [0, 0, 1, -2, 0, 3] ∧ (ofEdits delayedLine).AssemblesExactly matrix := by
  have hmatrix : (ofEdits delayedLine).effectMatrix = .ok _ := rfl
  exact ⟨_, hmatrix, rfl, assemblesExactly_of_effectMatrix hmatrix⟩

/-- A synapse that is removed and added again stands behind the others, and the matrix is the
same. -/
example :
    let line := delayedLine ++ [.addSynapse 0 2 4]
    let rewired := line ++ [.removeSynapse 0 1, .addSynapse 0 1 1]
    (ofEdits line).outgoing 0 ≠ (ofEdits rewired).outgoing 0 ∧
      (ofEdits line).effectMatrix = (ofEdits rewired).effectMatrix :=
  ⟨by decide, rfl⟩

end Network

end SpikingNeuralP
