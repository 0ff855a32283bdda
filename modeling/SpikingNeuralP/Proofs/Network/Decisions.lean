import Mathlib.Data.Set.Function
import SpikingNeuralP.Proofs.Network.Choices
import SpikingNeuralP.Proofs.Network.Matrix

/-!
# Decisions stand for choices

One choice per neuron, written as one flag per rule, loses nothing: different choices make
different decisions, and every decision with at most one flag per neuron is made by choices.
Choices that make no decision are refused, first for their number and then over the least
neuron that names a rule it does not have.
-/

namespace SpikingNeuralP

/-- One flag per rule, and at most one of them set among the rules of a neuron. -/
structure Topology.IsDecision (topology : Topology) (decision : List Bool) : Prop where
  length : decision.length = topology.ruleCount
  single : ∀ neuron < topology.neuronCount,
    (topology.ranges.range neuron).countSet decision ≤ 1

theorem Topology.IsDecision.firstSet?_eq_some_iff {topology : Topology} {decision : List Bool}
    {neuron rule : Nat} (hdecision : topology.IsDecision decision) :
    (topology.ranges.range neuron).firstSet? decision = some rule ↔
      topology.Owns neuron rule ∧ decision.getD rule false = true := by
  refine ⟨owns_of_firstSet?, fun ⟨howns, hset⟩ => ?_⟩
  have hsingle := countSet_le_one_iff.mp (hdecision.single neuron howns.neuron_lt)
  cases hfirst : (topology.ranges.range neuron).firstSet? decision with
  | none =>
      rw [firstSet?_eq_none_iff.mp hfirst rule howns] at hset
      contradiction
  | some first =>
      obtain ⟨hfirstOwns, hfirstSet⟩ := owns_of_firstSet? hfirst
      rw [hsingle first rule hfirstOwns howns hfirstSet hset]

namespace Network

/-- One entry per neuron, which is nothing or one of its own rules. -/
structure IsChoice (network : Network) (choices : List (Option Nat)) : Prop where
  length : choices.length = network.neuronCount
  exists_rule : ∀ neuron index, choices[neuron]? = some (some index) →
    index < (network.rulesOf neuron).length

/-- The neuron chooses a rule it does not have. -/
def Misnames (network : Network) (choices : List (Option Nat)) (neuron index : Nat) : Prop :=
  choices[neuron]? = some (some index) ∧ (network.rulesOf neuron).length ≤ index

/-- The choices a decision stands for, as far as it has one flag per neuron: the place of the
flag among the rules of the neuron. -/
def choicesOf (topology : Topology) (decision : List Bool) : List (Option Nat) :=
  (List.range topology.neuronCount).map fun neuron =>
    ((topology.ranges.range neuron).firstSet? decision).map
      (· - (topology.ranges.range neuron).start)

variable {network : Network} {topology : Topology} {choices : List (Option Nat)}
  {decision : List Bool} {neuron index : Nat} {failure : NetworkError}

theorem Misnames.neuron_lt (hmisnames : network.Misnames choices neuron index)
    (hlength : choices.length = network.neuronCount) : neuron < network.neuronCount :=
  hlength ▸ (List.getElem?_eq_some_iff.mp hmisnames.1).1

theorem start_range_of_assembles (hassembles : network.Assembles topology)
    (hneuron : neuron < network.neuronCount) :
    (topology.ranges.range neuron).start + index = network.column neuron index := by
  rw [range_of_assembles hassembles hneuron]
  rfl

theorem isDecision_of_decision (hassembles : network.Assembles topology)
    (hdecision : network.decision choices = .ok decision) : topology.IsDecision decision where
  length := (length_decision hdecision).trans hassembles.ruleCount_eq.symm
  single neuron _ :=
    Topology.countSet_le_one_iff.mpr (singleChoices_of_decision hassembles hdecision neuron)

/-- What a neuron chose is read off the decision. -/
theorem IsChoice.getElem?_eq_some_iff (hchoice : network.IsChoice choices)
    (hdecision : network.decision choices = .ok decision) :
    choices[neuron]? = some (some index) ↔
      index < (network.rulesOf neuron).length ∧
        decision.getD (network.column neuron index) false = true := by
  constructor
  · intro hentry
    have hindex := hchoice.exists_rule neuron index hentry
    exact ⟨hindex, (getD_decision hdecision (List.getElem?_eq_getElem hindex)).mpr hentry⟩
  · rintro ⟨hindex, hset⟩
    exact (getD_decision hdecision (List.getElem?_eq_getElem hindex)).mp hset

theorem injOn_decision : Set.InjOn network.decision {choices | network.IsChoice choices} := by
  intro left hleft right hright hsame
  obtain ⟨decision, hdecision⟩ := exists_decision hleft.length hleft.exists_rule
  have hdecision' : network.decision right = .ok decision := hsame.symm.trans hdecision
  refine eq_of_getD_eq (hleft.length.trans hright.length.symm) none fun neuron hneuron => ?_
  have hneuron' : neuron < right.length := by rwa [hright.length, ← hleft.length]
  have hread : ∀ choices : List (Option Nat), neuron < choices.length → ∀ index,
      choices.getD neuron none = some index ↔ choices[neuron]? = some (some index) := by
    intro choices hlength index
    rw [List.getD_eq_getElem _ _ hlength, List.getElem?_eq_getElem hlength, Option.some_inj]
  ext index
  rw [hread left hneuron, hread right hneuron', hleft.getElem?_eq_some_iff hdecision,
    hright.getElem?_eq_some_iff hdecision']

theorem getElem?_choicesOf (hassembles : network.Assembles topology)
    (hdecision : topology.IsDecision decision) :
    (choicesOf topology decision)[neuron]? = some (some index) ↔
      index < (network.rulesOf neuron).length ∧
        decision.getD (network.column neuron index) false = true := by
  by_cases hneuron : neuron < network.neuronCount
  · have hstart : ∀ index, network.column neuron index - (topology.ranges.range neuron).start =
        index := by
      intro index
      rw [← start_range_of_assembles hassembles hneuron, Nat.add_sub_cancel_left]
    have hentry : (choicesOf topology decision)[neuron]? =
        some (((topology.ranges.range neuron).firstSet? decision).map
          (· - (topology.ranges.range neuron).start)) := by
      rw [choicesOf, List.getElem?_map,
        List.getElem?_range (hassembles.neuronCount_eq ▸ hneuron), Option.map_some]
    simp only [hentry, Option.some_inj, Option.map_eq_some_iff, hdecision.firstSet?_eq_some_iff,
      hassembles.owns_iff]
    constructor
    · rintro ⟨_, ⟨⟨position, hposition, rfl⟩, hset⟩, rfl⟩
      rw [hstart position]
      exact ⟨hposition, hset⟩
    · rintro ⟨hindex, hset⟩
      exact ⟨_, ⟨⟨index, hindex, rfl⟩, hset⟩, hstart index⟩
  · constructor
    · intro hentry
      have hlength := (List.getElem?_eq_some_iff.mp hentry).1
      rw [choicesOf, List.length_map, List.length_range, hassembles.neuronCount_eq] at hlength
      contradiction
    · rintro ⟨hindex, _⟩
      exact absurd (neuron_lt_of_rule (List.getElem?_eq_getElem hindex)) hneuron

/-- Choices that are read off a decision make that decision. -/
theorem decision_choicesOf (hassembles : network.Assembles topology)
    (hdecision : topology.IsDecision decision) :
    network.IsChoice (choicesOf topology decision) ∧
      network.decision (choicesOf topology decision) = .ok decision := by
  have hchoice : network.IsChoice (choicesOf topology decision) := {
    length := by
      rw [choicesOf, List.length_map, List.length_range, hassembles.neuronCount_eq]
    exists_rule := fun _ _ hentry =>
      ((getElem?_choicesOf hassembles hdecision).mp hentry).1 }
  obtain ⟨made, hmade⟩ := exists_decision hchoice.length hchoice.exists_rule
  have hlength : made.length = topology.ruleCount :=
    (isDecision_of_decision hassembles hmade).length
  have hsame : made = decision := by
    refine eq_of_getD_eq (hlength.trans hdecision.length.symm) false fun number hnumber => ?_
    obtain ⟨neuron, howns⟩ := Topology.exists_owns (hlength ▸ hnumber)
    obtain ⟨index, rule, hrule, rfl⟩ := hassembles.exists_rule_of_owns howns
    have hindex := (List.getElem?_eq_some_iff.mp hrule).1
    rw [Bool.eq_iff_iff, getD_decision hmade hrule, getElem?_choicesOf hassembles hdecision]
    exact and_iff_right hindex
  exact ⟨hchoice, hsame ▸ hmade⟩

/-- Between choices and decisions nothing is lost and nothing is left over. -/
theorem bijOn_decision (hassembles : network.Assembles topology) :
    Set.BijOn network.decision {choices | network.IsChoice choices}
      (Except.ok '' {decision | topology.IsDecision decision}) := by
  refine ⟨?_, injOn_decision, ?_⟩
  · intro choices hchoice
    obtain ⟨decision, hdecision⟩ := exists_decision hchoice.length hchoice.exists_rule
    exact ⟨decision, isDecision_of_decision hassembles hdecision, hdecision.symm⟩
  · rintro _ ⟨decision, hdecision, rfl⟩
    exact ⟨choicesOf topology decision, decision_choicesOf hassembles hdecision⟩

theorem checkChoice_eq_error_iff {owner : Neuron} {choice : Option Nat} :
    checkChoice neuron owner choice = .error failure ↔
      ∃ index, choice = some index ∧ owner.rules.length ≤ index ∧
        failure = .unknownRule neuron index := by
  cases choice with
  | none => simp [checkChoice]
  | some index =>
      rw [checkChoice]
      split
      case isTrue hindex =>
        simp only [reduceCtorEq, Option.some_inj, false_iff]
        rintro ⟨_, rfl, hbeyond, _⟩
        exact absurd hindex (Nat.not_lt.mpr hbeyond)
      case isFalse hindex =>
        simp [Nat.le_of_not_lt hindex, eq_comm]

theorem decision_of_length_ne (hlength : choices.length ≠ network.neuronCount) :
    network.decision choices =
      .error (.step (.lengthMismatch "choices" network.neuronCount choices.length)) := by
  rw [Network.decision, checkLength, if_neg hlength]
  rfl

/-- Choices of the right number are refused over the least neuron that misnames a rule. -/
theorem decision_eq_error_iff (hlength : choices.length = network.neuronCount) :
    network.decision choices = .error failure ↔
      ∃ neuron index, IsLeast {neuron | ∃ index, network.Misnames choices neuron index} neuron ∧
        network.Misnames choices neuron index ∧ failure = .unknownRule neuron index := by
  have hcheck : (checkLength "choices" network.neuronCount choices.length).mapError
      NetworkError.step = .ok () := mapError_eq_ok_iff.mpr (checkLength_eq_ok_iff.mpr hlength)
  have hcount : (network.neurons.zip choices).length = network.neuronCount := by
    rw [List.length_zip, hlength, neurons, List.length_map, neuronCount, Nat.min_self]
  have hthere : ∀ neuron, (neuron < network.neuronCount ∧
      ∃ failure index, network.Misnames choices neuron index ∧
        failure = NetworkError.unknownRule neuron index) ↔
      ∃ index, network.Misnames choices neuron index := by
    intro neuron
    constructor
    · rintro ⟨_, _, index, hmisnames, _⟩
      exact ⟨index, hmisnames⟩
    · rintro ⟨index, hmisnames⟩
      exact ⟨hmisnames.neuron_lt hlength, _, index, hmisnames, rfl⟩
  rw [Network.decision, hcheck, ok_bind]
  refine bind_ok_eq_error_iff.trans
    ((mapM_zipIdx_eq_error_iff_refusal (.output, none) fun neuron hneuron refusal =>
      (?_ : _ ↔ ∃ index, network.Misnames choices neuron index ∧
        refusal = .unknownRule neuron index)).trans ?_)
  · rw [hcount] at hneuron
    obtain ⟨owner, howner⟩ := exists_neuron?_eq_some_iff.mpr hneuron
    obtain ⟨choice, hchoice⟩ : ∃ choice, choices[neuron]? = some choice :=
      ⟨_, List.getElem?_eq_getElem (hlength ▸ hneuron)⟩
    have hpair : (network.neurons.zip choices)[neuron]? = some (owner, choice) :=
      List.getElem?_zip_eq_some.mpr ⟨getElem?_neurons.trans howner, hchoice⟩
    rw [List.getD_eq_getElem?_getD, hpair, Option.getD_some]
    refine bind_ok_eq_error_iff.trans (checkChoice_eq_error_iff.trans ?_)
    apply exists_congr
    intro index
    rw [Misnames, hchoice, Option.some_inj, rulesOf, howner, and_assoc]
    rfl
  · simp only [hcount, hthere]
    exact exists_congr fun neuron => exists_and_left.symm

/-- How choices and decisions of the network correspond. -/
structure MatchesChoices (network : Network) (topology : Topology) : Prop where
  bijective : Set.BijOn network.decision {choices | network.IsChoice choices}
    (Except.ok '' {decision | topology.IsDecision decision})
  flags : ∀ choices decision, network.decision choices = .ok decision →
    ∀ neuron < network.neuronCount, ∀ index < (network.rulesOf neuron).length,
      (decision.getD ((topology.ranges.range neuron).start + index) false = true ↔
        choices[neuron]? = some (some index))
  miscounted : ∀ choices, choices.length ≠ network.neuronCount →
    network.decision choices =
      .error (.step (.lengthMismatch "choices" network.neuronCount choices.length))
  misnamed : ∀ choices failure, choices.length = network.neuronCount →
    (network.decision choices = .error failure ↔
      ∃ neuron index, IsLeast {neuron | ∃ index, network.Misnames choices neuron index} neuron ∧
        network.Misnames choices neuron index ∧ failure = .unknownRule neuron index)

theorem matchesChoices_of_topology (htopology : network.topology = .ok topology) :
    network.MatchesChoices topology := by
  have hassembles := assembles_of_topology htopology
  exact {
    bijective := bijOn_decision hassembles
    flags := by
      intro choices decision hdecision neuron hneuron index hindex
      rw [start_range_of_assembles hassembles hneuron]
      exact getD_decision hdecision (List.getElem?_eq_getElem hindex)
    miscounted := fun _ => decision_of_length_ne
    misnamed := fun _ _ => decision_eq_error_iff }

/-- Neurons without rules stand before, between and behind those that have some. -/
def gappedNetwork : List NetworkEdit :=
  [.addNeuron .output,
    .addNeuron
      { label := none
        body := .regular 3 [.spiking (.atLeast 1) 1 0, .forgetting (.exactly 3) 3] },
    .addNeuron .output,
    .addNeuron (.input [1]),
    .addNeuron (.regular 4)]

/-- Three neurons misname a rule in the second choices, and the least of them is named. -/
theorem matchesChoices_of_topology_gappedNetwork :
    ∃ topology, (ofEdits gappedNetwork).topology = .ok topology ∧
      (ofEdits gappedNetwork).decision [none, some 1, none, some 0, none] =
        .ok [false, true, true] ∧
      (ofEdits gappedNetwork).decision [some 0, some 2, none, none, some 5] =
        .error (.unknownRule 0 0) ∧
      (ofEdits gappedNetwork).MatchesChoices topology := by
  have htopology : (ofEdits gappedNetwork).topology = .ok _ := rfl
  exact ⟨_, htopology, rfl, rfl, matchesChoices_of_topology htopology⟩

end Network

end SpikingNeuralP
