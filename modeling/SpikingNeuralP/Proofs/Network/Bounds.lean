import SpikingNeuralP.Proofs.Network.Cells
import SpikingNeuralP.Proofs.Step.Acceptance

/-!
# Networks within bounds

The engine counts spikes in words with a sign.  A network can be assembled when
what its rules consume, what they send along every synapse and what its neurons
hold at the start are such counts.  That is the only thing that can go wrong: the
parts of a topology are collected separately, but their lengths agree for every
network.
-/

namespace SpikingNeuralP

namespace Network

/-- A quantity of the network, by the name it is reported under, is too large for a
spike count. -/
inductive Exceeds (network : Network) : String → Prop
  | consume {cell : Cell} {rule : Rule} (hcell : cell ∈ network.cells)
      (hrule : rule ∈ cell.neuron.rules) (hlarge : 2 ^ 31 ≤ rule.consume.toNat) :
      Exceeds network "consume"
  | gain {cell : Cell} {rule : Rule} {synapse : Synapse} (hcell : cell ∈ network.cells)
      (hrule : rule ∈ cell.neuron.rules) (hsynapse : synapse ∈ cell.outgoing)
      (hlarge : 2 ^ 31 ≤ rule.produce.toNat * synapse.weight.toNat) :
      Exceeds network "produce * weight"
  | spikes {cell : Cell} (hcell : cell ∈ network.cells)
      (hlarge : 2 ^ 31 ≤ cell.neuron.spikes.toNat) : Exceeds network "spikes"

/-- All quantities of the network are spike counts. -/
structure Bounded (network : Network) : Prop where
  consume : ∀ cell ∈ network.cells, ∀ rule ∈ cell.neuron.rules, rule.consume.toNat < 2 ^ 31
  gain : ∀ cell ∈ network.cells, ∀ rule ∈ cell.neuron.rules, ∀ synapse ∈ cell.outgoing,
    rule.produce.toNat * synapse.weight.toNat < 2 ^ 31
  spikes : ∀ cell ∈ network.cells, cell.neuron.spikes.toNat < 2 ^ 31

variable {network : Network} {quantity : String} {failure : NetworkError}

theorem Bounded.not_exceeds (hbounded : network.Bounded) : ¬network.Exceeds quantity := by
  intro hexceeds
  cases hexceeds with
  | consume hcell hrule hlarge =>
      exact Nat.not_lt.mpr hlarge (hbounded.consume _ hcell _ hrule)
  | gain hcell hrule hsynapse hlarge =>
      exact Nat.not_lt.mpr hlarge (hbounded.gain _ hcell _ hrule _ hsynapse)
  | spikes hcell hlarge => exact Nat.not_lt.mpr hlarge (hbounded.spikes _ hcell)

theorem asSpikes_eq_error_iff {value : Nat} :
    asSpikes quantity value = .error failure ↔
      2 ^ 31 ≤ value ∧ failure = .outOfRange quantity := by
  rw [asSpikes]
  split
  case isTrue hvalue =>
    constructor
    · intro hfail
      contradiction
    · rintro ⟨hlarge, _⟩
      exact absurd hvalue (Nat.not_lt.mpr hlarge)
  case isFalse hvalue =>
    constructor
    · intro hfail
      exact ⟨Nat.le_of_not_lt hvalue, (Except.error.inj hfail).symm⟩
    · rintro ⟨_, rfl⟩
      rfl

theorem effects_eq_error {owner : Nat} {outgoing : List Synapse} {rule : Rule}
    (hfail : effects owner outgoing rule = .error failure) :
    (2 ^ 31 ≤ rule.consume.toNat ∧ failure = .outOfRange "consume") ∨
      ∃ synapse ∈ outgoing, 2 ^ 31 ≤ rule.produce.toNat * synapse.weight.toNat ∧
        failure = .outOfRange "produce * weight" := by
  rcases bind_eq_error_iff.mp hfail with hconsume | ⟨consumed, _, hrest⟩
  · exact Or.inl (asSpikes_eq_error_iff.mp hconsume)
  · rcases bind_eq_error_iff.mp hrest with hgains | ⟨_, _, hanswer⟩
    · obtain ⟨synapse, hsynapse, hgain⟩ := exists_mem_of_mapM_eq_error hgains
      rcases bind_eq_error_iff.mp hgain with hgain | ⟨_, _, hanswer⟩
      · exact Or.inr ⟨synapse, hsynapse, asSpikes_eq_error_iff.mp hgain⟩
      · cases hanswer
    · cases hanswer

/-- A column is that of a rule, with the synapses that leave its cell. -/
theorem exists_cell_of_mem_columns {column : Nat × List Synapse × Rule}
    (hcolumn : column ∈ network.columns) :
    ∃ cell ∈ network.cells, column.2.1 = cell.outgoing ∧ column.2.2 ∈ cell.neuron.rules := by
  obtain ⟨⟨cell, owner⟩, hcell, hcolumn⟩ := List.mem_flatMap.mp hcolumn
  obtain ⟨rule, hrule, rfl⟩ := List.mem_map.mp hcolumn
  exact ⟨cell, List.mem_of_getElem? (List.mem_zipIdx_iff_getElem?.mp hcell), rfl, hrule⟩

/-- Every rule has a column. -/
theorem exists_mem_columns {cell : Cell} {rule : Rule} (hcell : cell ∈ network.cells)
    (hrule : rule ∈ cell.neuron.rules) :
    ∃ owner, (owner, cell.outgoing, rule) ∈ network.columns := by
  obtain ⟨owner, howner⟩ := List.mem_iff_getElem?.mp hcell
  exact ⟨owner, List.mem_flatMap.mpr ⟨(cell, owner), List.mem_zipIdx_iff_getElem?.mpr howner,
    List.mem_map.mpr ⟨rule, hrule, rfl⟩⟩⟩

/-- A matrix that cannot be written fails over one of the rules. -/
theorem exists_rule_of_effectMatrix_eq_error (hfail : network.effectMatrix = .error failure) :
    ∃ cell ∈ network.cells, ∃ rule ∈ cell.neuron.rules,
      (2 ^ 31 ≤ rule.consume.toNat ∧ failure = .outOfRange "consume") ∨
        ∃ synapse ∈ cell.outgoing, 2 ^ 31 ≤ rule.produce.toNat * synapse.weight.toNat ∧
          failure = .outOfRange "produce * weight" := by
  rcases bind_eq_error_iff.mp hfail with hcolumns | ⟨_, _, hanswer⟩
  · obtain ⟨⟨owner, outgoing, rule⟩, hcolumn, heffects⟩ := exists_mem_of_mapM_eq_error hcolumns
    obtain ⟨cell, hcell, houtgoing, hrule⟩ := exists_cell_of_mem_columns hcolumn
    exact ⟨cell, hcell, rule, hrule, houtgoing ▸ effects_eq_error heffects⟩
  · cases hanswer

theorem exceeds_of_effectMatrix_eq_error (hfail : network.effectMatrix = .error failure) :
    ∃ quantity, network.Exceeds quantity ∧ failure = .outOfRange quantity := by
  obtain ⟨cell, hcell, rule, hrule, ⟨hlarge, hfailure⟩ | ⟨synapse, hsynapse, hlarge, hfailure⟩⟩ :=
    exists_rule_of_effectMatrix_eq_error hfail
  · exact ⟨_, .consume hcell hrule hlarge, hfailure⟩
  · exact ⟨_, .gain hcell hrule hsynapse hlarge, hfailure⟩

theorem exceeds_of_initialSpikes_eq_error (hfail : network.initialSpikes = .error failure) :
    ∃ quantity, network.Exceeds quantity ∧ failure = .outOfRange quantity := by
  obtain ⟨neuron, hneuron, hspikes⟩ := exists_mem_of_mapM_eq_error hfail
  obtain ⟨cell, hcell, rfl⟩ := List.mem_map.mp hneuron
  obtain ⟨hlarge, hfailure⟩ := asSpikes_eq_error_iff.mp hspikes
  exact ⟨_, .spikes hcell hlarge, hfailure⟩

/-- Where the matrix can be written, every rule stays within bounds. -/
theorem bounds_of_effectMatrix {matrix : EffectMatrix}
    (hmatrix : network.effectMatrix = .ok matrix) {cell : Cell} {rule : Rule}
    (hcell : cell ∈ network.cells) (hrule : rule ∈ cell.neuron.rules) :
    rule.consume.toNat < 2 ^ 31 ∧
      ∀ synapse ∈ cell.outgoing, rule.produce.toNat * synapse.weight.toNat < 2 ^ 31 := by
  obtain ⟨columns, hcolumns, _⟩ := bind_eq_ok_iff.mp hmatrix
  obtain ⟨owner, hcolumn⟩ := exists_mem_columns hcell hrule
  obtain ⟨effects, heffects⟩ := exists_eq_ok_of_mapM_eq_ok hcolumns hcolumn
  obtain ⟨hconsume, hgain, _⟩ := effects_eq_ok_iff.mp heffects
  exact ⟨hconsume, hgain⟩

theorem spikes_lt_of_initialSpikes {spikes : List Int32}
    (hspikes : network.initialSpikes = .ok spikes) {cell : Cell} (hcell : cell ∈ network.cells) :
    cell.neuron.spikes.toNat < 2 ^ 31 := by
  obtain ⟨_, hcount⟩ := exists_eq_ok_of_mapM_eq_ok hspikes (List.mem_map_of_mem hcell)
  exact (asSpikes_eq_ok_iff.mp hcount).1

section Shape

theorem ruleCount_eq_sum (network : Network) : network.ruleCount = network.ruleCounts.sum := by
  rw [ruleCount, List.length_flatMap, ruleCounts]

theorem length_delays (network : Network) : network.delays.length = network.ruleCount := by
  simp [delays, ruleCount, List.length_flatMap]

theorem shape_writeColumns (matrix : EffectMatrix) (start : Nat)
    (columns : List (List (Nat × Int32))) :
    (writeColumns matrix start columns).neurons = matrix.neurons ∧
      (writeColumns matrix start columns).rules = matrix.rules := by
  induction columns generalizing matrix start with
  | nil => exact ⟨rfl, rfl⟩
  | cons effects columns ih =>
      obtain ⟨hneurons, hrules⟩ := shape_writeColumn matrix start effects
      rw [writeColumns_cons, ← hneurons, ← hrules]
      exact ih (writeColumn matrix start effects) (start + 1)

theorem shape_of_effectMatrix {matrix : EffectMatrix}
    (hmatrix : network.effectMatrix = .ok matrix) :
    matrix.neurons = network.neuronCount ∧ matrix.rules = network.ruleCount := by
  obtain ⟨columns, _, hanswer⟩ := bind_eq_ok_iff.mp hmatrix
  rw [← Except.ok.inj hanswer]
  exact shape_writeColumns (.zeros network.neuronCount network.ruleCount) 0 columns

theorem checkRuleCounts_eq_ok_iff :
    network.checkRuleCounts = .ok () ↔
      ∀ neuron ∈ network.neurons, neuron.rules.length < UInt32.size := by
  have hwords : (∀ count ∈ network.ruleCounts, count < UInt32.size) ↔
      ∀ neuron ∈ network.neurons, neuron.rules.length < UInt32.size := List.forall_mem_map
  rw [← hwords, checkRuleCounts]
  split
  case isTrue hcounts => exact iff_of_true rfl hcounts
  case isFalse hcounts => exact iff_of_false nofun hcounts

/-- Delays, rows and columns fit the rule counts of every network: a matrix that can be
written is that of a topology. -/
theorem exists_assembles {matrix : EffectMatrix} (hmatrix : network.effectMatrix = .ok matrix) :
    ∃ topology, network.Assembles topology ∧ topology.matrix = matrix := by
  obtain ⟨hrows, hcolumns⟩ := shape_of_effectMatrix hmatrix
  have hcount : (RuleRanges.ofCounts network.ruleCounts).ruleCount = network.ruleCount := by
    rw [RuleRanges.ruleCount_ofCounts, ruleCount_eq_sum]
  let topology : Topology :=
    ⟨network.ruleCounts, network.delays, matrix, (length_delays network).trans hcount.symm,
      hrows.trans length_ruleCounts.symm, hcolumns.trans hcount.symm⟩
  exact ⟨topology, ⟨rfl, rfl, hmatrix⟩, rfl⟩

theorem exists_topology_of_effectMatrix {matrix : EffectMatrix}
    (hcounts : network.checkRuleCounts = .ok ()) (hmatrix : network.effectMatrix = .ok matrix) :
    ∃ topology, network.topology = .ok topology := by
  obtain ⟨topology, hassembles, rfl⟩ := exists_assembles hmatrix
  have hbuild : Topology.build network.ruleCounts network.delays topology.matrix =
      .ok topology := Topology.build_eq_ok_iff.mpr ⟨hassembles.counts, hassembles.delays, rfl⟩
  exact ⟨topology, check_bind_eq_ok_iff.mpr ⟨hcounts,
    bind_eq_ok_iff.mpr ⟨topology.matrix, hmatrix, mapError_eq_ok_iff.mpr hbuild⟩⟩⟩

/-- One initial count per neuron. -/
theorem exists_initialState_of_initialSpikes {topology : Topology} {spikes : List Int32}
    (hassembles : network.Assembles topology) (hspikes : network.initialSpikes = .ok spikes) :
    ∃ initial, network.initialState topology = .ok initial := by
  have hlength : spikes.length = topology.neuronCount := by
    rw [← (mapM_eq_ok_iff.mp hspikes).length_eq, hassembles.neuronCount_eq, neurons,
      List.length_map, neuronCount]
  obtain ⟨initial, hinitial⟩ : ∃ initial, State.initial topology spikes = .ok initial :=
    ⟨_, check_bind_eq_ok_iff.mpr ⟨checkLength_eq_ok_iff.mpr hlength, rfl⟩⟩
  exact ⟨initial, bind_eq_ok_iff.mpr ⟨spikes, hspikes, mapError_eq_ok_iff.mpr hinitial⟩⟩

end Shape

/-- Only a quantity that is too large keeps a topology from being built. -/
theorem exceeds_of_topology_eq_error
    (hcounts : ∀ neuron ∈ network.neurons, neuron.rules.length < UInt32.size)
    (hfail : network.topology = .error failure) :
    ∃ quantity, network.Exceeds quantity ∧ failure = .outOfRange quantity := by
  replace hcounts := checkRuleCounts_eq_ok_iff.mpr hcounts
  rcases bind_eq_error_iff.mp hfail with hcheck | ⟨_, _, hassembled⟩
  · rw [hcounts] at hcheck
    contradiction
  · rcases bind_eq_error_iff.mp hassembled with hmatrix | ⟨matrix, hmatrix, _⟩
    · exact exceeds_of_effectMatrix_eq_error hmatrix
    · obtain ⟨topology, htopology⟩ := exists_topology_of_effectMatrix hcounts hmatrix
      rw [htopology] at hfail
      contradiction

theorem exceeds_of_initialState_eq_error {topology : Topology}
    (hassembles : network.Assembles topology)
    (hfail : network.initialState topology = .error failure) :
    ∃ quantity, network.Exceeds quantity ∧ failure = .outOfRange quantity := by
  rcases bind_eq_error_iff.mp hfail with hspikes | ⟨spikes, hspikes, _⟩
  · exact exceeds_of_initialSpikes_eq_error hspikes
  · obtain ⟨initial, hinitial⟩ := exists_initialState_of_initialSpikes hassembles hspikes
    rw [hinitial] at hfail
    contradiction

end Network

end SpikingNeuralP
