import SpikingNeuralP.Proofs.Topology.Partition
import SpikingNeuralP.Proofs.Vector.Traversal
import SpikingNeuralP.Step.Engine

/-!
# Accepted requests

What a request has to satisfy to be worked on: its vectors and those of the state
fit the topology, every neuron chooses at most one rule, and only open neurons
choose.  A decision that is not made so is refused over the least neuron at fault.
-/

namespace SpikingNeuralP

/-- Every vector of the state has the length the topology asks for. -/
structure State.Fits (state : State) (topology : Topology) : Prop where
  spikes : state.spikes.length = topology.neuronCount
  cooldown : state.cooldown.length = topology.neuronCount
  firing : state.firing.length = topology.neuronCount
  inFlight : state.inFlight.length = topology.ruleCount

structure StepInput.Fits (input : StepInput) (topology : Topology) : Prop where
  decision : input.decision.length = topology.ruleCount
  train : ∀ arriving, input.train = some arriving → arriving.length = topology.ruleCount

/-- A neuron chooses at most one rule. -/
def Topology.SingleChoices (topology : Topology) (decision : List Bool) : Prop :=
  ∀ neuron rule other, topology.Owns neuron rule → topology.Owns neuron other →
    decision.getD rule false = true → decision.getD other false = true → rule = other

/-- The decision may be made in the state. -/
structure Topology.Permits (topology : Topology) (state : State) (decision : List Bool) :
    Prop where
  single : topology.SingleChoices decision
  opened : ∀ neuron rule, topology.Owns neuron rule → decision.getD rule false = true →
    state.isOpen topology neuron = true

/-- The neuron is asked to choose although it is closed. -/
def Topology.ChoosesClosed (topology : Topology) (state : State) (decision : List Bool)
    (neuron : Nat) : Prop :=
  0 < (topology.ranges.range neuron).countSet decision ∧ state.isOpen topology neuron = false

variable {topology : Topology} {state : State} {input : StepInput} {decision : List Bool}
  {cause : StepError}

theorem checkLength_eq_ok_iff {vector : String} {expected actual : Nat} :
    checkLength vector expected actual = .ok () ↔ actual = expected := by
  simp [checkLength]

theorem checkGivenLength_eq_ok_iff {α : Type} {vector : String} {expected : Nat}
    {values : Option (List α)} :
    checkGivenLength vector expected values = .ok () ↔
      ∀ given, values = some given → given.length = expected := by
  cases values with
  | none => simp [checkGivenLength]
  | some given => simp [checkGivenLength, checkLength_eq_ok_iff]

namespace State

theorem isOpen_eq_true_iff {neuron : Nat} :
    state.isOpen topology neuron = true ↔
      state.cooldown.getD neuron 0 = 0 ∧
        ∀ rule, topology.Owns neuron rule → state.inFlight.getD rule false = false := by
  rw [isOpen, Bool.and_eq_true, beq_iff_eq, Bool.not_eq_true', Topology.anySet_eq_false_iff]

theorem checkShape_eq_ok_iff : state.checkShape topology = .ok () ↔ state.Fits topology := by
  simp only [checkShape, check_bind_eq_ok_iff, checkLength_eq_ok_iff]
  constructor
  · rintro ⟨hspikes, hcooldown, hfiring, hinFlight⟩
    exact ⟨hspikes, hcooldown, hfiring, hinFlight⟩
  · rintro ⟨hspikes, hcooldown, hfiring, hinFlight⟩
    exact ⟨hspikes, hcooldown, hfiring, hinFlight⟩

end State

namespace Topology

theorem checkInput_eq_ok_iff {inFlight : Option (List Bool)} :
    topology.checkInput state input inFlight = .ok () ↔
      state.Fits topology ∧ input.Fits topology ∧
        ∀ flags, inFlight = some flags → flags.length = topology.ruleCount := by
  simp only [checkInput, check_bind_eq_ok_iff, State.checkShape_eq_ok_iff,
    checkLength_eq_ok_iff, checkGivenLength_eq_ok_iff]
  constructor
  · rintro ⟨hstate, hdecision, hinFlight, htrain⟩
    exact ⟨hstate, ⟨hdecision, htrain⟩, hinFlight⟩
  · rintro ⟨hstate, ⟨hdecision, htrain⟩, hinFlight⟩
    exact ⟨hstate, hdecision, hinFlight, htrain⟩

theorem find?_enumerate_eq_none_iff {test : Nat × RuleRange → Bool} :
    topology.ranges.enumerate.find? test = none ↔
      ∀ neuron < topology.neuronCount, test (neuron, topology.ranges.range neuron) = false := by
  simp [RuleRanges.enumerate_eq_map_range, List.find?_eq_none]

/-- Going through the neurons finds the least one that passes a test. -/
theorem find?_enumerate_eq_some_iff {test : Nat × RuleRange → Bool} {item : Nat × RuleRange} :
    topology.ranges.enumerate.find? test = some item ↔
      IsLeast {neuron | neuron < topology.neuronCount ∧
        test (neuron, topology.ranges.range neuron) = true} item.1 ∧
      item.2 = topology.ranges.range item.1 := by
  rw [isLeast_setOf_lt_iff, RuleRanges.enumerate_eq_map_range, List.find?_map,
    Option.map_eq_some_iff]
  simp only [List.find?_range_eq_some, neuronCount_ranges, Function.comp_apply,
    Bool.not_eq_true]
  constructor
  · rintro ⟨neuron, ⟨htest, hneuron, hearlier⟩, rfl⟩
    exact ⟨⟨List.mem_range.mp hneuron, htest, by simpa using hearlier⟩, rfl⟩
  · rintro ⟨⟨hneuron, htest, hearlier⟩, hrange⟩
    exact ⟨item.1, ⟨htest, List.mem_range.mpr hneuron, by simpa using hearlier⟩,
      Prod.ext rfl hrange.symm⟩

theorem checkChoiceCounts_eq_error_iff :
    topology.checkChoiceCounts decision = .error cause ↔
      ∃ neuron, IsLeast {neuron | neuron < topology.neuronCount ∧
          1 < (topology.ranges.range neuron).countSet decision} neuron ∧
        cause = .severalChoices neuron ((topology.ranges.range neuron).countSet decision) := by
  have hfirst : ∀ neuron, IsLeast {neuron | neuron < topology.neuronCount ∧
      1 < (topology.ranges.range neuron).countSet decision} neuron ↔
      topology.ranges.enumerate.find? (fun item => decide (1 < item.2.countSet decision)) =
        some (neuron, topology.ranges.range neuron) := by
    intro neuron
    simp [find?_enumerate_eq_some_iff]
  simp only [hfirst, checkChoiceCounts]
  cases hfind : topology.ranges.enumerate.find? fun item =>
      decide (1 < item.2.countSet decision) with
  | none => simp
  | some item =>
      obtain ⟨neuron, range⟩ := item
      have hrange : range = topology.ranges.range neuron :=
        (find?_enumerate_eq_some_iff.mp hfind).2
      simp [hrange, eq_comm]

theorem checkChoiceCounts_eq_ok_iff_countSet :
    topology.checkChoiceCounts decision = .ok () ↔
      ∀ neuron < topology.neuronCount,
        ¬1 < (topology.ranges.range neuron).countSet decision := by
  have hnone : (∀ neuron < topology.neuronCount,
      ¬1 < (topology.ranges.range neuron).countSet decision) ↔
      topology.ranges.enumerate.find?
        (fun item => decide (1 < item.2.countSet decision)) = none := by
    rw [find?_enumerate_eq_none_iff]
    simp
  rw [hnone, checkChoiceCounts]
  cases hfind : topology.ranges.enumerate.find? fun item =>
      decide (1 < item.2.countSet decision) with
  | none => simp
  | some item => simp

theorem checkChoiceCounts_eq_ok_iff :
    topology.checkChoiceCounts decision = .ok () ↔ topology.SingleChoices decision := by
  simp only [checkChoiceCounts_eq_ok_iff_countSet, Nat.not_lt, countSet_le_one_iff]
  constructor
  · intro hsingle neuron rule other hrule
    exact hsingle neuron hrule.neuron_lt rule other hrule
  · intro hsingle neuron _
    exact hsingle neuron

theorem anySet_eq_true_iff_countSet {range : RuleRange} :
    range.anySet decision = true ↔ 0 < range.countSet decision := by
  rw [RuleRange.anySet, RuleRange.any_eq_any_rules, RuleRange.countSet, List.countP_pos_iff,
    List.any_eq_true]

theorem checkDecision_eq_error_iff :
    topology.checkDecision state decision = .error cause ↔
      topology.checkChoiceCounts decision = .error cause ∨
      topology.checkChoiceCounts decision = .ok () ∧
        ∃ neuron, IsLeast {neuron | neuron < topology.neuronCount ∧
            topology.ChoosesClosed state decision neuron} neuron ∧
          cause = .closedNeuron neuron := by
  have hfirst : ∀ neuron, IsLeast {neuron | neuron < topology.neuronCount ∧
      topology.ChoosesClosed state decision neuron} neuron ↔
      topology.ranges.enumerate.find?
        (fun item => item.2.anySet decision && !state.isOpen topology item.1) =
        some (neuron, topology.ranges.range neuron) := by
    intro neuron
    simp [find?_enumerate_eq_some_iff, ChoosesClosed, anySet_eq_true_iff_countSet]
  rw [checkDecision, check_bind_eq_error_iff]
  apply or_congr Iff.rfl
  apply and_congr_right
  intro _
  simp only [hfirst]
  cases hfind : topology.ranges.enumerate.find? fun item =>
      item.2.anySet decision && !state.isOpen topology item.1 with
  | none => simp
  | some item =>
      obtain ⟨neuron, range⟩ := item
      have hrange : range = topology.ranges.range neuron :=
        (find?_enumerate_eq_some_iff.mp hfind).2
      simp [hrange, eq_comm]

theorem checkDecision_eq_ok_iff_choosesClosed :
    topology.checkDecision state decision = .ok () ↔
      topology.checkChoiceCounts decision = .ok () ∧
        ∀ neuron < topology.neuronCount, ¬topology.ChoosesClosed state decision neuron := by
  have hnone : (∀ neuron < topology.neuronCount,
      ¬topology.ChoosesClosed state decision neuron) ↔
      topology.ranges.enumerate.find?
        (fun item => item.2.anySet decision && !state.isOpen topology item.1) = none := by
    rw [find?_enumerate_eq_none_iff]
    simp [ChoosesClosed, ← anySet_eq_true_iff_countSet]
  rw [hnone, checkDecision, check_bind_eq_ok_iff]
  apply and_congr_right
  intro _
  cases hfind : topology.ranges.enumerate.find? fun item =>
      item.2.anySet decision && !state.isOpen topology item.1 with
  | none => simp
  | some item => simp

theorem checkDecision_eq_ok_iff :
    topology.checkDecision state decision = .ok () ↔ topology.Permits state decision := by
  rw [checkDecision_eq_ok_iff_choosesClosed, checkChoiceCounts_eq_ok_iff]
  constructor
  · rintro ⟨hsingle, hnone⟩
    refine ⟨hsingle, fun neuron rule howns hchosen => ?_⟩
    by_contra hclosed
    apply hnone neuron howns.neuron_lt
    exact ⟨anySet_eq_true_iff_countSet.mp (anySet_eq_true_iff.mpr ⟨rule, howns, hchosen⟩),
      Bool.not_eq_true _ ▸ hclosed⟩
  · intro hpermits
    refine ⟨hpermits.single, fun neuron hneuron hchooses => ?_⟩
    obtain ⟨rule, howns, hchosen⟩ :=
      anySet_eq_true_iff.mp (anySet_eq_true_iff_countSet.mpr hchooses.1)
    have hopen := hpermits.opened neuron rule howns hchosen
    rw [hchooses.2] at hopen
    contradiction

/-- A decision is refused over a neuron that makes several choices or is closed. -/
theorem exists_of_checkDecision_eq_error
    (hfail : topology.checkDecision state decision = .error cause) :
    ∃ neuron < topology.neuronCount,
      (∃ chosen, 1 < chosen ∧ cause = .severalChoices neuron chosen) ∨
        cause = .closedNeuron neuron := by
  rcases checkDecision_eq_error_iff.mp hfail with hcounts | ⟨_, neuron, hleast, hcause⟩
  · obtain ⟨neuron, hleast, hcause⟩ := checkChoiceCounts_eq_error_iff.mp hcounts
    exact ⟨neuron, hleast.1.1, Or.inl ⟨_, hleast.1.2, hcause⟩⟩
  · exact ⟨neuron, hleast.1.1, Or.inr hcause⟩

end Topology

end SpikingNeuralP
