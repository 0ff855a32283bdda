import SpikingNeuralP.Proofs.Network.Graph

/-!
# Editing a network

Which edits a network allows and what each of them does to the list of neurons and
to the list of their outgoing synapses.  Whatever was edited before, one list of
synapses leaves every neuron, the graph is well formed, and taking back a new
synapse restores the network.
-/

namespace SpikingNeuralP

theorem map_eraseIdx {α β : Type} (change : α → β) (items : List α) (index : Nat) :
    (items.eraseIdx index).map change = (items.map change).eraseIdx index := by
  apply List.ext_getElem?
  intro other
  simp only [List.getElem?_map, List.getElem?_eraseIdx]
  split <;> rfl

theorem modify_eq_self {α : Type} {change : α → α} {items : List α} {index : Nat}
    (hfixed : ∀ item, items[index]? = some item → change item = item) :
    items.modify index change = items := by
  apply List.ext_getElem?
  intro other
  rw [List.getElem?_modify]
  split
  case isTrue hsame =>
    subst hsame
    cases hitem : items[index]? with
    | none => rfl
    | some item => exact congrArg some (hfixed item hitem)
  case isFalse => exact id_map _

namespace NetworkEdit

/-- What becomes of the neurons. -/
def onNeurons : NetworkEdit → List Neuron → List Neuron
  | .addNeuron neuron, neurons => neurons ++ [neuron]
  | .addSynapse _ _ _, neurons => neurons
  | .removeSynapse _ _, neurons => neurons
  | .removeNeuron index, neurons => neurons.eraseIdx index

/-- What becomes of the outgoing synapses, which are kept in one row per neuron. -/
def onRows : NetworkEdit → List (List Synapse) → List (List Synapse)
  | .addNeuron _, rows => rows ++ [[]]
  | .addSynapse source target weight, rows => rows.modify source (· ++ [⟨target, weight⟩])
  | .removeSynapse source target, rows => rows.modify source (·.eraseP (·.target == target))
  | .removeNeuron index, rows => (rows.eraseIdx index).map (Network.withoutTarget index)

end NetworkEdit

namespace Network

/-- The outgoing synapses of every neuron, in neuron order. -/
def rows (network : Network) : List (List Synapse) :=
  network.cells.map Cell.outgoing

/-- Edits name neurons that are there.  A new synapse connects two neurons that were
not connected, and only a synapse that is there can be removed. -/
def Allows (network : Network) : NetworkEdit → Prop
  | .addNeuron _ => True
  | .addSynapse source target _ =>
      source < network.neuronCount ∧ target < network.neuronCount ∧ source ≠ target ∧
        ¬network.connects source target
  | .removeSynapse source target =>
      source < network.neuronCount ∧ target < network.neuronCount ∧
        network.connects source target
  | .removeNeuron index => index < network.neuronCount

variable {network edited left right : Network} {source target index : Nat} {weight : UInt32}
  {edit : NetworkEdit}

theorem outgoing_eq_rows (network : Network) (source : Nat) :
    network.outgoing source = network.rows[source]?.getD [] := by
  rw [outgoing, rows, List.getElem?_map]

theorem neurons_setOutgoing (outgoing : List Synapse) :
    (network.setOutgoing source outgoing).neurons = network.neurons := by
  apply List.ext_getElem?
  intro index
  simp only [neurons, setOutgoing, List.getElem?_map, List.getElem?_modify]
  cases network.cells[index]? with
  | none => rfl
  | some cell => simp only [Option.map_eq_map, Option.map_some]; split <;> rfl

/-- Replacing a row by one computed from it. -/
theorem rows_setOutgoing (change : List Synapse → List Synapse) :
    (network.setOutgoing source (change (network.outgoing source))).rows =
      network.rows.modify source change := by
  apply List.ext_getElem?
  intro index
  simp only [rows, setOutgoing, outgoing, List.getElem?_map, List.getElem?_modify]
  split
  case isTrue hsame =>
    subst hsame
    cases network.cells[source]? <;> rfl
  case isFalse => cases network.cells[index]? <;> rfl

/-- A network is nothing but its neurons and its rows. -/
theorem eq_of_neurons_eq_of_rows_eq (hneurons : left.neurons = right.neurons)
    (hrows : left.rows = right.rows) : left = right := by
  obtain ⟨leftCells⟩ := left
  obtain ⟨rightCells⟩ := right
  have hpairs : leftCells.map (fun cell => (cell.neuron, cell.outgoing)) =
      rightCells.map fun cell => (cell.neuron, cell.outgoing) := by
    rw [← List.zip_map', ← List.zip_map']
    exact congrArg₂ List.zip hneurons hrows
  have hinjective : Function.Injective fun cell : Cell => (cell.neuron, cell.outgoing) := by
    rintro ⟨_, _⟩ ⟨_, _⟩ hsame
    simpa using hsame
  exact congrArg Network.mk (hinjective.list_map hpairs)

theorem allows_of_edit_eq_ok (hedit : network.edit edit = .ok edited) :
    network.Allows edit ∧ edited.neurons = edit.onNeurons network.neurons ∧
      edited.rows = edit.onRows network.rows := by
  cases edit with
  | addNeuron neuron =>
      obtain rfl := Except.ok.inj hedit
      exact ⟨trivial, List.map_append, List.map_append⟩
  | addSynapse source target weight =>
      obtain ⟨hsource, htarget, hne, hnew, rfl⟩ := addSynapse_eq_ok_iff.mp hedit
      exact ⟨⟨hsource, htarget, hne, hnew⟩, neurons_setOutgoing _,
        rows_setOutgoing (· ++ [⟨target, weight⟩])⟩
  | removeSynapse source target =>
      obtain ⟨hsource, htarget, hconnects, rfl⟩ := removeSynapse_eq_ok_iff.mp hedit
      exact ⟨⟨hsource, htarget, hconnects⟩, neurons_setOutgoing _,
        rows_setOutgoing (·.eraseP (·.target == target))⟩
  | removeNeuron index =>
      obtain ⟨neuron, hremove⟩ := edit_removeNeuron_eq_ok_iff.mp hedit
      obtain ⟨hneuron, rfl⟩ := removeNeuron_eq_ok_iff.mp hremove
      refine ⟨exists_neuron?_eq_some_iff.mp ⟨neuron, hneuron⟩, ?_, ?_⟩
      · rw [neurons, List.map_map]
        exact map_eraseIdx _ _ _
      · rw [rows, NetworkEdit.onRows, rows, ← map_eraseIdx, List.map_map, List.map_map]
        rfl

theorem exists_edit_eq_ok_of_allows (hallows : network.Allows edit) :
    ∃ edited, network.edit edit = .ok edited := by
  cases edit with
  | addNeuron neuron => exact ⟨_, rfl⟩
  | addSynapse source target weight =>
      obtain ⟨hsource, htarget, hne, hnew⟩ := hallows
      exact ⟨_, addSynapse_eq_ok_iff.mpr ⟨hsource, htarget, hne, hnew, rfl⟩⟩
  | removeSynapse source target =>
      obtain ⟨hsource, htarget, hconnects⟩ := hallows
      exact ⟨_, removeSynapse_eq_ok_iff.mpr ⟨hsource, htarget, hconnects, rfl⟩⟩
  | removeNeuron index =>
      obtain ⟨neuron, hneuron⟩ := exists_neuron?_eq_some_iff.mpr hallows
      exact ⟨_, edit_removeNeuron_eq_ok_iff.mpr
        ⟨neuron, removeNeuron_eq_ok_iff.mpr ⟨hneuron, rfl⟩⟩⟩

theorem edit_eq_ok_iff :
    network.edit edit = .ok edited ↔
      network.Allows edit ∧ edited.neurons = edit.onNeurons network.neurons ∧
        edited.rows = edit.onRows network.rows := by
  refine ⟨allows_of_edit_eq_ok, ?_⟩
  rintro ⟨hallows, hneurons, hrows⟩
  -- The edit leads to some network, and its neurons and rows leave no choice.
  obtain ⟨other, hother⟩ := exists_edit_eq_ok_of_allows hallows
  obtain ⟨_, hotherNeurons, hotherRows⟩ := allows_of_edit_eq_ok hother
  rw [hother, eq_of_neurons_eq_of_rows_eq (hotherNeurons.trans hneurons.symm)
    (hotherRows.trans hrows.symm)]

/-- No older synapse of the row has the target of the new one, so the new one is the
one that goes. -/
theorem removeSynapse_of_addSynapse (hadd : network.addSynapse source target weight = .ok edited) :
    edited.removeSynapse source target = .ok network := by
  have hedit : network.edit (.addSynapse source target weight) = .ok edited := hadd
  obtain ⟨⟨hsource, htarget, _, hnew⟩, hneurons, hrows⟩ := edit_eq_ok_iff.mp hedit
  have hcount : edited.neuronCount = network.neuronCount := by
    simpa [neurons, neuronCount, NetworkEdit.onNeurons] using congrArg List.length hneurons
  have houtgoing : edited.outgoing source = network.outgoing source ++ [⟨target, weight⟩] := by
    obtain ⟨_, _, _, _, rfl⟩ := addSynapse_eq_ok_iff.mp hadd
    rw [outgoing_setOutgoing hsource, if_pos rfl]
  have hundo : edited.edit (.removeSynapse source target) = .ok network := by
    refine edit_eq_ok_iff.mpr ⟨⟨hcount ▸ hsource, hcount ▸ htarget, ?_⟩, hneurons.symm, ?_⟩
    · exact connects_iff.mpr ⟨⟨target, weight⟩, by simp [houtgoing], rfl⟩
    · rw [hrows, NetworkEdit.onRows, NetworkEdit.onRows, List.modify_modify_eq]
      refine (modify_eq_self fun row hrow => ?_).symm
      have hrow : network.outgoing source = row := by rw [outgoing_eq_rows, hrow]; rfl
      have hkept : ∀ synapse ∈ row, ¬(synapse.target == target) = true := by
        simpa [connects_iff, hrow] using hnew
      simp [List.eraseP_append_right _ hkept]
  exact hundo

/-- What every network keeps that is built by edits. -/
structure KeepsGraph (network : Network) : Prop where
  /-- One row of synapses leaves every neuron. -/
  rows_length : network.rows.length = network.neurons.length
  wellFormed : network.WellFormed
  /-- An edit is done exactly when it is allowed, and then it does to neurons and rows
  what it says and nothing else. -/
  accepted : ∀ edit edited, network.edit edit = .ok edited ↔
    network.Allows edit ∧ edited.neurons = edit.onNeurons network.neurons ∧
      edited.rows = edit.onRows network.rows
  refused : ∀ edit failure, network.edit edit = .error failure → network.attempt edit = network
  restores : ∀ source target weight edited,
    network.addSynapse source target weight = .ok edited →
      edited.removeSynapse source target = .ok network

theorem keepsGraph_ofEdits (edits : List NetworkEdit) : (ofEdits edits).KeepsGraph where
  rows_length := by rw [rows, neurons, List.length_map, List.length_map]
  wellFormed := wellFormed_ofEdits edits
  accepted _ _ := edit_eq_ok_iff
  refused edit failure hfailure := by rw [attempt, hfailure]
  restores _ _ _ _ := removeSynapse_of_addSynapse

/-- The synapse to the removed neuron is gone, and the last neuron has a new name. -/
example : (ofEdits (delayedLine ++ [.addSynapse 2 0 1, .removeNeuron 0])).rows =
    [[⟨1, 3⟩], []] := by
  decide

end Network

end SpikingNeuralP
