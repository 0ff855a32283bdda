import SpikingNeuralP.Proofs.Network.Numbering
import SpikingNeuralP.Proofs.Step.Acceptance

/-!
# Choices and decisions

A decision over all rules says the same as one choice per neuron, and a rule that
a neuron may choose finds the spikes it consumes.
-/

namespace SpikingNeuralP

namespace Network

variable {network : Network} {topology : Topology} {state : State} {neuron index : Nat}
  {rule : Rule} {choices : List (Option Nat)} {decision : List Bool}

theorem checkChoice_eq_ok_iff {owner : Neuron} {choice : Option Nat} :
    checkChoice neuron owner choice = .ok () ↔
      ∀ rule, choice = some rule → rule < owner.rules.length := by
  cases choice with
  | none => simp [checkChoice]
  | some rule => simp [checkChoice]

/-- A decision is put together from the flags of the neurons, once every choice
is checked. -/
theorem decision_eq_ok_iff :
    network.decision choices = .ok decision ↔
      choices.length = network.neuronCount ∧
        (∀ item ∈ (network.neurons.zip choices).zipIdx,
          checkChoice item.2 item.1.1 item.1.2 = .ok ()) ∧
        (network.neurons.zip choices).flatMap (fun item => choiceFlags item.1 item.2) =
          decision := by
  have hvisit : ∀ (item : (Neuron × Option Nat) × Nat) (result : List Bool),
      (do
        checkChoice item.2 item.1.1 item.1.2
        pure (choiceFlags item.1.1 item.1.2)) = Except.ok result ↔
      checkChoice item.2 item.1.1 item.1.2 = .ok () ∧
        choiceFlags item.1.1 item.1.2 = result := by
    intro item result
    rw [check_bind_eq_ok_iff]
    exact and_congr_right fun _ => ⟨Except.ok.inj, congrArg Except.ok⟩
  have hnumbers : (network.neurons.zip choices).zipIdx.map
        (fun item => choiceFlags item.1.1 item.1.2) =
      (network.neurons.zip choices).map fun item => choiceFlags item.1 item.2 := by
    have hfirsts := List.map_map (f := Prod.fst)
      (g := fun item : Neuron × Option Nat => choiceFlags item.1 item.2)
      (l := (network.neurons.zip choices).zipIdx)
    rw [List.zipIdx_map_fst] at hfirsts
    exact hfirsts.symm
  rw [Network.decision, check_bind_eq_ok_iff, mapError_eq_ok_iff, checkLength_eq_ok_iff,
    bind_eq_ok_iff]
  simp only [mapM_eq_ok_iff_map hvisit, hnumbers]
  apply and_congr_right
  intro _
  constructor
  · rintro ⟨_, ⟨hallowed, rfl⟩, hanswer⟩
    exact ⟨hallowed, Except.ok.inj hanswer⟩
  · rintro ⟨hallowed, rfl⟩
    exact ⟨_, ⟨hallowed, rfl⟩, rfl⟩

/-- Choices of rules that exist stand for a decision. -/
theorem exists_decision (hlength : choices.length = network.neuronCount)
    (hchoices : ∀ neuron index, choices[neuron]? = some (some index) →
      index < (network.rulesOf neuron).length) :
    ∃ decision, network.decision choices = .ok decision := by
  refine ⟨_, decision_eq_ok_iff.mpr ⟨hlength, ?_, rfl⟩⟩
  rintro ⟨⟨owner, choice⟩, neuron⟩ hitem
  obtain ⟨howner, hchoice⟩ :=
    List.getElem?_zip_eq_some.mp (List.mem_zipIdx_iff_getElem?.mp hitem)
  rw [getElem?_neurons] at howner
  refine checkChoice_eq_ok_iff.mpr fun rule hrule => ?_
  have hindex := hchoices neuron rule (hchoice.trans (congrArg some hrule))
  rwa [rulesOf, howner] at hindex

/-- Neurons keep their numbers of rules beside their choices. -/
theorem map_length_rules_zip (hlength : choices.length = network.neuronCount) :
    (network.neurons.zip choices).map (fun item => item.1.rules.length) = network.ruleCounts := by
  have hfirsts := List.map_map (f := Prod.fst) (g := fun neuron : Neuron => neuron.rules.length)
    (l := network.neurons.zip choices)
  rw [List.map_fst_zip (by simp [hlength, neurons, neuronCount])] at hfirsts
  exact hfirsts.symm

theorem length_decision (hdecision : network.decision choices = .ok decision) :
    decision.length = network.ruleCounts.sum := by
  obtain ⟨hlength, _, rfl⟩ := decision_eq_ok_iff.mp hdecision
  rw [List.length_flatMap, ← map_length_rules_zip hlength]
  simp [choiceFlags]

/-- The decision sets exactly the flags of the chosen rules. -/
theorem getD_decision (hdecision : network.decision choices = .ok decision)
    (hrule : (network.rulesOf neuron)[index]? = some rule) :
    decision.getD (network.column neuron index) false = true ↔
      choices[neuron]? = some (some index) := by
  obtain ⟨hlength, _, rfl⟩ := decision_eq_ok_iff.mp hdecision
  have hneuron : neuron < choices.length := hlength ▸ neuron_lt_of_rule hrule
  obtain ⟨owner, howner, hrule⟩ := exists_neuron_of_rule hrule
  have hindex := (List.getElem?_eq_some_iff.mp hrule).1
  have hitem : (network.neurons.zip choices)[neuron]? = some (owner, choices[neuron]) := by
    rw [List.getElem?_zip_eq_some]
    exact ⟨getElem?_neurons.trans howner, List.getElem?_eq_getElem hneuron⟩
  have hblock := getElem?_flatMap_block
    (fun item : Neuron × Option Nat => choiceFlags item.1 item.2)
    (fun item => item.1.rules.length) (by simp [choiceFlags]) hitem hindex
  rw [map_length_rules_zip hlength] at hblock
  rw [List.getD_eq_getElem?_getD, column, hblock, List.getElem?_eq_getElem hneuron]
  simp [choiceFlags, hindex]

/-- The flags of a neuron stand for its one choice. -/
theorem singleChoices_of_decision (hassembles : network.Assembles topology)
    (hdecision : network.decision choices = .ok decision) : topology.SingleChoices decision := by
  intro neuron number other howns hother hset hset'
  obtain ⟨index, rule, hrule, rfl⟩ := hassembles.exists_rule_of_owns howns
  obtain ⟨index', rule', hrule', rfl⟩ := hassembles.exists_rule_of_owns hother
  have hchoice := (getD_decision hdecision hrule).mp hset
  have hchoice' := (getD_decision hdecision hrule').mp hset'
  have hsame : index = index' := by simpa using hchoice.symm.trans hchoice'
  rw [hsame]

/-- A decision that stands for choices of open neurons is permitted. -/
theorem permits_of_decision (hassembles : network.Assembles topology)
    (hdecision : network.decision choices = .ok decision)
    (hopened : ∀ neuron index, choices[neuron]? = some (some index) →
      state.isOpen topology neuron = true) : topology.Permits state decision where
  single := singleChoices_of_decision hassembles hdecision
  opened neuron number howns hset := by
    obtain ⟨index, rule, hrule, rfl⟩ := hassembles.exists_rule_of_owns howns
    exact hopened neuron index ((getD_decision hdecision hrule).mp hset)

theorem length_applicableRules :
    (network.applicableRules topology state).length = network.neuronCount := by
  simp [applicableRules, neurons, neuronCount]

theorem getElem?_applicableRules :
    (network.applicableRules topology state)[neuron]? =
      (network.neuron? neuron).map (applicableIn topology state neuron) := by
  rw [applicableRules, List.getElem?_map, List.getElem?_zipIdx, getElem?_neurons, Option.map_map,
    Nat.zero_add]
  rfl

theorem mem_applicableRules_iff {owner : Neuron} {spikes : UInt32} :
    index ∈ owner.applicableRules spikes ↔
      owner.kind = .regular ∧
        ∃ rule, owner.rules[index]? = some rule ∧ rule.applicable spikes = true := by
  obtain ⟨label, body⟩ := owner
  cases body with
  | regular count rules =>
      simp only [Neuron.applicableRules, Neuron.kind, Neuron.rules, List.mem_map, List.mem_filter,
        Prod.exists, List.mem_zipIdx_iff_getElem?, true_and]
      constructor
      · rintro ⟨rule, _, ⟨hrule, happlicable⟩, rfl⟩
        exact ⟨rule, hrule, happlicable⟩
      · rintro ⟨rule, hrule, happlicable⟩
        exact ⟨rule, index, ⟨hrule, happlicable⟩, rfl⟩
  | input train => simp [Neuron.applicableRules, Neuron.kind]
  | output => simp [Neuron.applicableRules, Neuron.kind]

/-- The spike count that is compared with a guard is the one of the neuron. -/
theorem wordOfSpikes?_eq_some_iff {spikes : Int32} {word : UInt32} :
    wordOfSpikes? spikes = some word ↔ spikes.toInt = word.toNat := by
  have hupper := spikes.toInt_lt
  have hsize : UInt32.size = 2 ^ 32 := rfl
  rw [wordOfSpikes?]
  split
  case isTrue hnonneg =>
    have hfits : spikes.toInt.toNat < UInt32.size := by omega
    rw [Option.some_inj, ← UInt32.toNat_inj, UInt32.toNat_ofNat_of_lt' hfits]
    omega
  case isFalse hnegative =>
    simp only [reduceCtorEq, false_iff]
    omega

theorem mem_applicableIn_iff {owner : Neuron} :
    index ∈ applicableIn topology state neuron owner ↔
      state.isOpen topology neuron = true ∧
        ∃ spikes : UInt32, (state.spikes.getD neuron 0).toInt = spikes.toNat ∧
          index ∈ owner.applicableRules spikes := by
  rw [applicableIn]
  split
  case isTrue hopen =>
    simp only [hopen, true_and, ← wordOfSpikes?_eq_some_iff]
    cases wordOfSpikes? (state.spikes.getD neuron 0) with
    | none => simp
    | some spikes => simp
  case isFalse hclosed => simp [hclosed]

/-- An applicable rule is one that its neuron, which is open, offers at its spike
count. -/
theorem applicable_of_mem
    (hindex : index ∈ (network.applicableRules topology state).getD neuron []) :
    ∃ owner spikes, network.neuron? neuron = some owner ∧ state.isOpen topology neuron = true ∧
      (state.spikes.getD neuron 0).toInt = (spikes : UInt32).toNat ∧
      index ∈ owner.applicableRules spikes := by
  rw [List.getD_eq_getElem?_getD, getElem?_applicableRules] at hindex
  cases howner : network.neuron? neuron with
  | none => simp [howner] at hindex
  | some owner =>
      rw [howner, Option.map_some, Option.getD_some] at hindex
      obtain ⟨hopen, spikes, hspikes, hindex⟩ := mem_applicableIn_iff.mp hindex
      exact ⟨owner, spikes, rfl, hopen, hspikes, hindex⟩

/-- A rule that may be chosen finds the spikes it consumes. -/
theorem consume_le_of_applicable
    (hindex : index ∈ (network.applicableRules topology state).getD neuron [])
    (hrule : (network.rulesOf neuron)[index]? = some rule) :
    (rule.consume.toNat : Int) ≤ (state.spikes.getD neuron 0).toInt := by
  obtain ⟨owner, spikes, howner, _, hspikes, hindex⟩ := applicable_of_mem hindex
  obtain ⟨_, rule', hrule', happlicable⟩ := mem_applicableRules_iff.mp hindex
  rw [rulesOf, howner] at hrule
  obtain rfl : rule' = rule := Option.some.inj (hrule'.symm.trans hrule)
  rw [Rule.applicable, Bool.and_eq_true, decide_eq_true_eq] at happlicable
  rw [hspikes]
  exact Int.ofNat_le.mpr (UInt32.le_iff_toNat_le.mp happlicable.1)

theorem exists_rule_of_applicable
    (hindex : index ∈ (network.applicableRules topology state).getD neuron []) :
    ∃ rule, (network.rulesOf neuron)[index]? = some rule := by
  obtain ⟨owner, spikes, howner, _, _, hindex⟩ := applicable_of_mem hindex
  obtain ⟨_, rule, hrule, _⟩ := mem_applicableRules_iff.mp hindex
  rw [rulesOf, howner]
  exact ⟨rule, hrule⟩

/-- Choices of applicable rules stand for a decision. -/
theorem exists_decision_of_applicable (hlength : choices.length = network.neuronCount)
    (hchoices : ∀ neuron index, choices[neuron]? = some (some index) →
      index ∈ (network.applicableRules topology state).getD neuron []) :
    ∃ decision, network.decision choices = .ok decision := by
  refine exists_decision hlength fun neuron index hchoice => ?_
  obtain ⟨rule, hrule⟩ := exists_rule_of_applicable (hchoices neuron index hchoice)
  exact (List.getElem?_eq_some_iff.mp hrule).1

/-- Their decision passes the checks of the engine, since only open neurons have
applicable rules. -/
theorem permits_of_applicable (hassembles : network.Assembles topology)
    (hdecision : network.decision choices = .ok decision)
    (hchoices : ∀ neuron index, choices[neuron]? = some (some index) →
      index ∈ (network.applicableRules topology state).getD neuron []) :
    topology.Permits state decision := by
  refine permits_of_decision hassembles hdecision fun neuron index hchoice => ?_
  obtain ⟨_, _, _, hopen, _, _⟩ := applicable_of_mem (hchoices neuron index hchoice)
  exact hopen

/-- The decision of neurons that all choose nothing sets no flag. -/
theorem eq_false_of_mem_decision (hdecision : network.decision choices = .ok decision)
    (hnone : ∀ neuron index : Nat, choices[neuron]? ≠ some (some index)) :
    ∀ flag ∈ decision, flag = false := by
  obtain ⟨_, _, rfl⟩ := decision_eq_ok_iff.mp hdecision
  intro flag hflag
  obtain ⟨⟨owner, choice⟩, hitem, hflag⟩ := List.mem_flatMap.mp hflag
  obtain ⟨neuron, hneuron⟩ := List.mem_iff_getElem?.mp (List.of_mem_zip hitem).2
  cases choice with
  | none =>
      obtain ⟨_, _, rfl⟩ := List.mem_map.mp hflag
      rfl
  | some index => exact absurd hneuron (hnone neuron index)

end Network

end SpikingNeuralP
