import Mathlib.Data.List.Nodup
import SpikingNeuralP.Network.Basic
import SpikingNeuralP.Proofs.Vector.Traversal

/-!
# The synapse graph

Every network that is built by edits has synapses only to existing neurons, none
from a neuron to itself and never two from one neuron to another.  Refused edits
change nothing, and each edit that is done keeps these properties.
-/

namespace SpikingNeuralP

namespace Network

/-- The network after the edits, applied in order to the empty network; a
refused one is skipped. -/
def ofEdits (edits : List NetworkEdit) : Network :=
  edits.foldl attempt empty

structure WellFormed (network : Network) : Prop where
  target_lt : ∀ source, ∀ synapse ∈ network.outgoing source, synapse.target < network.neuronCount
  target_ne : ∀ source, ∀ synapse ∈ network.outgoing source, synapse.target ≠ source
  targets_nodup : ∀ source, ((network.outgoing source).map Synapse.target).Nodup

variable {network edited : Network} {source target index : Nat} {weight : UInt32}

theorem checkNeuron_eq_ok_iff :
    network.checkNeuron index = .ok () ↔ index < network.neuronCount := by
  simp [checkNeuron]

theorem connects_iff :
    network.connects source target ↔
      ∃ synapse ∈ network.outgoing source, synapse.target = target := by
  simp [connects]

theorem addSynapse_eq_ok_iff :
    network.addSynapse source target weight = .ok edited ↔
      source < network.neuronCount ∧ target < network.neuronCount ∧ source ≠ target ∧
        ¬network.connects source target ∧
        edited = network.setOutgoing source (network.outgoing source ++ [⟨target, weight⟩]) := by
  rw [addSynapse, check_bind_eq_ok_iff, check_bind_eq_ok_iff, checkNeuron_eq_ok_iff,
    checkNeuron_eq_ok_iff]
  split
  case isTrue hsame => simp [hsame]
  case isFalse hne =>
    split
    case isTrue hconnects => simp [hconnects]
    case isFalse hconnects => simp [hne, hconnects, eq_comm]

theorem removeSynapse_eq_ok_iff :
    network.removeSynapse source target = .ok edited ↔
      source < network.neuronCount ∧ target < network.neuronCount ∧
        network.connects source target ∧
        edited = network.setOutgoing source
          ((network.outgoing source).eraseP (·.target == target)) := by
  rw [removeSynapse, check_bind_eq_ok_iff, check_bind_eq_ok_iff, checkNeuron_eq_ok_iff,
    checkNeuron_eq_ok_iff]
  split
  case isTrue hconnects => simp [hconnects, eq_comm]
  case isFalse hconnects => simp [hconnects]

theorem neuronCount_setOutgoing (outgoing : List Synapse) :
    (network.setOutgoing source outgoing).neuronCount = network.neuronCount := by
  simp [neuronCount, setOutgoing]

theorem outgoing_setOutgoing (hsource : source < network.neuronCount) (outgoing : List Synapse)
    (other : Nat) :
    (network.setOutgoing source outgoing).outgoing other =
      if source = other then outgoing else network.outgoing other := by
  rw [Network.outgoing, Network.outgoing, setOutgoing, List.getElem?_modify]
  split
  case isTrue hsame =>
    subst hsame
    simp [List.getElem?_eq_getElem hsource]
  case isFalse => simp

theorem outgoing_addNeuron (neuron : Neuron) (source : Nat) :
    (network.addNeuron neuron).outgoing source = network.outgoing source := by
  rw [outgoing, outgoing, addNeuron]
  rcases Nat.lt_trichotomy source network.cells.length with hlt | heq | hgt
  · rw [List.getElem?_append_left hlt]
  · simp [heq]
  · rw [List.getElem?_eq_none (by simpa using Nat.succ_le_of_lt hgt),
      List.getElem?_eq_none (Nat.le_of_lt hgt)]

/-- Where a neuron stood before the one at `index` was removed. -/
def formerIndex (index source : Nat) : Nat :=
  if source < index then source else source + 1

theorem removeNeuron_eq_ok_iff {neuron : Neuron} :
    network.removeNeuron index = .ok (neuron, edited) ↔
      network.neuron? index = some neuron ∧
        edited = ⟨(network.cells.eraseIdx index).map fun cell =>
          { cell with outgoing := withoutTarget index cell.outgoing }⟩ := by
  rw [removeNeuron]
  cases network.neuron? index with
  | none => simp
  | some neuron' => simp [eq_comm]

theorem exists_neuron?_eq_some_iff :
    (∃ neuron, network.neuron? index = some neuron) ↔ index < network.neuronCount := by
  simp [neuron?, neuronCount, ← Option.isSome_iff_exists]

theorem edit_removeNeuron_eq_ok_iff :
    network.edit (.removeNeuron index) = .ok edited ↔
      ∃ neuron, network.removeNeuron index = .ok (neuron, edited) := by
  rw [edit]
  cases network.removeNeuron index with
  | error failure => simp [Except.map]
  | ok removed => simp [Except.map, Prod.ext_iff]

theorem outgoing_of_removeNeuron {neuron : Neuron}
    (hremove : network.removeNeuron index = .ok (neuron, edited)) (source : Nat) :
    edited.outgoing source = withoutTarget index (network.outgoing (formerIndex index source)) := by
  obtain ⟨_, rfl⟩ := removeNeuron_eq_ok_iff.mp hremove
  rw [outgoing, outgoing, List.getElem?_map, List.getElem?_eraseIdx, formerIndex]
  split
  · cases network.cells[source]? with
    | none => simp [withoutTarget]
    | some cell => rfl
  · cases network.cells[source + 1]? with
    | none => simp [withoutTarget]
    | some cell => rfl

theorem neuronCount_of_removeNeuron {neuron : Neuron}
    (hremove : network.removeNeuron index = .ok (neuron, edited)) :
    index < network.neuronCount ∧ edited.neuronCount + 1 = network.neuronCount := by
  obtain ⟨hneuron, rfl⟩ := removeNeuron_eq_ok_iff.mp hremove
  have hindex : index < network.cells.length := exists_neuron?_eq_some_iff.mp ⟨neuron, hneuron⟩
  refine ⟨hindex, ?_⟩
  simp only [neuronCount, List.length_map, List.length_eraseIdx_of_lt hindex]
  omega

theorem mem_withoutTarget {outgoing : List Synapse} {synapse : Synapse} :
    synapse ∈ withoutTarget index outgoing ↔
      ∃ former ∈ outgoing, former.target ≠ index ∧ synapse =
        if index < former.target then { former with target := former.target - 1 } else former := by
  simp only [withoutTarget, List.mem_map, List.mem_filter, bne_iff_ne]
  constructor
  · rintro ⟨former, ⟨hformer, hne⟩, rfl⟩
    exact ⟨former, hformer, hne, rfl⟩
  · rintro ⟨former, hformer, hne, rfl⟩
    exact ⟨former, ⟨hformer, hne⟩, rfl⟩

/-- Different targets keep different names. -/
theorem nodup_withoutTarget {outgoing : List Synapse}
    (hnodup : (outgoing.map Synapse.target).Nodup) :
    ((withoutTarget index outgoing).map Synapse.target).Nodup := by
  have hkept : ((outgoing.filter (·.target != index)).map Synapse.target).Nodup :=
    hnodup.sublist (List.filter_sublist.map _)
  have hrename : (withoutTarget index outgoing).map Synapse.target =
      ((outgoing.filter (·.target != index)).map Synapse.target).map
        fun target => if index < target then target - 1 else target := by
    rw [withoutTarget, List.map_map, List.map_map]
    apply List.map_congr_left
    intro synapse _
    simp only [Function.comp_apply]
    split <;> rfl
  rw [hrename]
  refine hkept.map_on ?_
  intro left hleft right hright hsame
  simp only [List.mem_map, List.mem_filter, bne_iff_ne] at hleft hright
  obtain ⟨_, ⟨_, hleft⟩, rfl⟩ := hleft
  obtain ⟨_, ⟨_, hright⟩, rfl⟩ := hright
  split at hsame <;> split at hsame <;> omega

theorem wellFormed_empty : empty.WellFormed where
  target_lt _ _ hsynapse := by simp [outgoing, empty] at hsynapse
  target_ne _ _ hsynapse := by simp [outgoing, empty] at hsynapse
  targets_nodup _ := by simp [outgoing, empty]

theorem WellFormed.addNeuron (hwell : network.WellFormed) (neuron : Neuron) :
    (network.addNeuron neuron).WellFormed where
  target_lt source synapse hsynapse := by
    rw [outgoing_addNeuron] at hsynapse
    have htarget := hwell.target_lt source synapse hsynapse
    simp only [neuronCount, Network.addNeuron, List.length_append] at htarget ⊢
    omega
  target_ne source synapse hsynapse := by
    rw [outgoing_addNeuron] at hsynapse
    exact hwell.target_ne source synapse hsynapse
  targets_nodup source := by
    rw [outgoing_addNeuron]
    exact hwell.targets_nodup source

/-- Replacing the synapses of one neuron by well-formed ones. -/
theorem WellFormed.setOutgoing (hwell : network.WellFormed)
    (hsource : source < network.neuronCount) {outgoing : List Synapse}
    (hlt : ∀ synapse ∈ outgoing, synapse.target < network.neuronCount)
    (hne : ∀ synapse ∈ outgoing, synapse.target ≠ source)
    (hnodup : (outgoing.map Synapse.target).Nodup) :
    (network.setOutgoing source outgoing).WellFormed where
  target_lt other synapse hsynapse := by
    rw [outgoing_setOutgoing hsource] at hsynapse
    rw [neuronCount_setOutgoing]
    split at hsynapse
    case isTrue => exact hlt synapse hsynapse
    case isFalse => exact hwell.target_lt other synapse hsynapse
  target_ne other synapse hsynapse := by
    rw [outgoing_setOutgoing hsource] at hsynapse
    split at hsynapse
    case isTrue hsame => exact hsame ▸ hne synapse hsynapse
    case isFalse => exact hwell.target_ne other synapse hsynapse
  targets_nodup other := by
    rw [outgoing_setOutgoing hsource]
    split
    case isTrue => exact hnodup
    case isFalse => exact hwell.targets_nodup other

theorem WellFormed.addSynapse (hwell : network.WellFormed)
    (hadd : network.addSynapse source target weight = .ok edited) : edited.WellFormed := by
  obtain ⟨hsource, htarget, hne, hconnects, rfl⟩ := addSynapse_eq_ok_iff.mp hadd
  have hnew : ∀ synapse ∈ network.outgoing source, synapse.target ≠ target := by
    simpa [connects_iff] using hconnects
  refine hwell.setOutgoing hsource ?_ ?_ ?_
  · rw [List.forall_mem_append]
    exact ⟨hwell.target_lt source, by simpa using htarget⟩
  · rw [List.forall_mem_append]
    exact ⟨hwell.target_ne source, by simpa using Ne.symm hne⟩
  · rw [List.map_append, List.nodup_append]
    refine ⟨hwell.targets_nodup source, by simp, ?_⟩
    simpa using hnew

theorem WellFormed.removeSynapse (hwell : network.WellFormed)
    (hremove : network.removeSynapse source target = .ok edited) : edited.WellFormed := by
  obtain ⟨hsource, _, _, rfl⟩ := removeSynapse_eq_ok_iff.mp hremove
  have hsub := List.eraseP_sublist (p := (·.target == target)) (l := network.outgoing source)
  exact hwell.setOutgoing hsource
    (fun synapse hsynapse => hwell.target_lt source synapse (hsub.subset hsynapse))
    (fun synapse hsynapse => hwell.target_ne source synapse (hsub.subset hsynapse))
    ((hwell.targets_nodup source).sublist (hsub.map _))

theorem WellFormed.removeNeuron (hwell : network.WellFormed) {neuron : Neuron}
    (hremove : network.removeNeuron index = .ok (neuron, edited)) : edited.WellFormed := by
  obtain ⟨hindex, hcount⟩ := neuronCount_of_removeNeuron hremove
  have hformer : ∀ source, ∀ synapse ∈ edited.outgoing source,
      synapse.target < edited.neuronCount ∧ synapse.target ≠ source := by
    intro source synapse hsynapse
    rw [outgoing_of_removeNeuron hremove, mem_withoutTarget] at hsynapse
    obtain ⟨former, hformer, hkept, rfl⟩ := hsynapse
    have hlt := hwell.target_lt _ former hformer
    have hne := hwell.target_ne _ former hformer
    rw [formerIndex] at hne
    split
    case isTrue => split at hne <;> constructor <;> dsimp only <;> omega
    case isFalse => split at hne <;> constructor <;> omega
  exact ⟨fun source synapse hsynapse => (hformer source synapse hsynapse).1,
    fun source synapse hsynapse => (hformer source synapse hsynapse).2,
    fun source => outgoing_of_removeNeuron hremove source ▸
      nodup_withoutTarget (hwell.targets_nodup _)⟩

theorem WellFormed.attempt (hwell : network.WellFormed) (edit : NetworkEdit) :
    (network.attempt edit).WellFormed := by
  rw [Network.attempt]
  split
  case h_1 edited hedit =>
    cases edit with
    | addNeuron neuron => exact Except.ok.inj hedit ▸ hwell.addNeuron neuron
    | addSynapse source target weight => exact hwell.addSynapse hedit
    | removeSynapse source target => exact hwell.removeSynapse hedit
    | removeNeuron index =>
        obtain ⟨neuron, hremove⟩ := edit_removeNeuron_eq_ok_iff.mp hedit
        exact hwell.removeNeuron hremove
  case h_2 => exact hwell

theorem wellFormed_ofEdits (edits : List NetworkEdit) : (ofEdits edits).WellFormed := by
  have hrun : ∀ network : Network, network.WellFormed →
      (edits.foldl Network.attempt network).WellFormed := by
    induction edits with
    | nil => exact fun _ hwell => hwell
    | cons edit edits ih => exact fun network hwell => ih _ (hwell.attempt edit)
  exact hrun empty wellFormed_empty

/-- An input neuron before a neuron with one delayed rule before an output neuron.
Two of the synapses are refused. -/
def delayedLine : List NetworkEdit :=
  [.addNeuron (.input [2, 1]),
    .addNeuron { label := none, body := .regular 2 [.spiking (.atLeast 1) 2 1] },
    .addNeuron .output,
    .addSynapse 0 1 1,
    .addSynapse 1 1 5,
    .addSynapse 1 2 3,
    .addSynapse 1 2 7]

end Network

end SpikingNeuralP
