import Mathlib.Algebra.Order.BigOperators.Group.List
import Mathlib.Algebra.Order.Ring.Nat
import Mathlib.Data.Finset.Card
import SpikingNeuralP.Proofs.Vector.Block
import SpikingNeuralP.Topology.Basic

/-!
# Every rule has one owner

The ranges cut the rules of a topology into one piece per neuron.  A vector over
rules can therefore be read neuron by neuron, and a flag over rules is a flag of
the one neuron that owns the rule.
-/

namespace SpikingNeuralP

/-- The offset of a neuron counts the rules of all neurons before it. -/
theorem getElem?_offsetsFrom {start neuron : Nat} {counts : List Nat}
    (hneuron : neuron ≤ counts.length) :
    (offsetsFrom start counts)[neuron]? = some (start + (counts.take neuron).sum) := by
  induction counts generalizing start neuron with
  | nil =>
      obtain rfl : neuron = 0 := by simpa using hneuron
      simp [offsetsFrom]
  | cons count counts ih =>
      cases neuron with
      | zero => simp [offsetsFrom]
      | succ neuron =>
          have hrest : neuron ≤ counts.length := by simpa using hneuron
          simp [offsetsFrom, ih hrest, Nat.add_assoc]

namespace RuleRanges

theorem ruleCount_ofCounts (counts : List Nat) : (ofCounts counts).ruleCount = counts.sum := by
  rw [ruleCount, List.getLast?_eq_getElem?, ofCounts, length_offsetsFrom, Nat.add_sub_cancel,
    getElem?_offsetsFrom (Nat.le_refl _)]
  simp

/-- Enumerating meets every neuron with the range it would be looked up with. -/
theorem enumerate_eq_map_range (ranges : RuleRanges) :
    ranges.enumerate =
      (List.range ranges.neuronCount).map fun neuron => (neuron, ranges.range neuron) := by
  apply List.ext_getElem
  · simp
  · intro neuron hneuron _
    have hneuron : neuron + 1 < ranges.offsets.length := by
      rw [length_enumerate, neuronCount] at hneuron
      omega
    have hstart : ranges.offsets[neuron]? = some ranges.offsets[neuron] :=
      List.getElem?_eq_getElem (Nat.lt_of_succ_lt hneuron)
    have hstop : ranges.offsets[neuron + 1]? = some ranges.offsets[neuron + 1] :=
      List.getElem?_eq_getElem hneuron
    simp [enumerate, range, hstart, hstop]

theorem range_ofCounts {counts : List Nat} {neuron : Nat} (hneuron : neuron < counts.length) :
    (ofCounts counts).range neuron =
      ⟨(counts.take neuron).sum, (counts.take (neuron + 1)).sum⟩ := by
  simp [range, ofCounts, List.getD_eq_getElem?_getD, getElem?_offsetsFrom hneuron.le,
    getElem?_offsetsFrom (Nat.succ_le_of_lt hneuron)]

/-- A neuron that does not exist has an empty range. -/
theorem range_ofCounts_of_le {counts : List Nat} {neuron : Nat}
    (hneuron : counts.length ≤ neuron) : ((ofCounts counts).range neuron).stop = 0 := by
  have hoffset : (offsetsFrom 0 counts)[neuron + 1]? = none := by
    rw [List.getElem?_eq_none_iff, length_offsetsFrom]
    omega
  simp [range, ofCounts, List.getD_eq_getElem?_getD, hoffset]

theorem length_range_ofCounts {counts : List Nat} {neuron : Nat}
    (hneuron : neuron < counts.length) :
    ((ofCounts counts).range neuron).length = counts[neuron] := by
  rw [range_ofCounts hneuron, RuleRange.length, List.sum_take_succ _ _ hneuron,
    Nat.add_sub_cancel_left]

theorem map_length_enumerate_ofCounts (counts : List Nat) :
    ((ofCounts counts).enumerate.map fun (_, range) => range.length) = counts := by
  rw [enumerate_eq_map_range, neuronCount_ofCounts, List.map_map]
  apply List.ext_getElem
  · simp
  · intro neuron _ hneuron
    simpa using length_range_ofCounts hneuron

/-- Every number below the total lies between two neighbouring prefix sums. -/
theorem exists_between_prefix_sums {counts : List Nat} {rule : Nat} (hrule : rule < counts.sum) :
    ∃ neuron < counts.length,
      (counts.take neuron).sum ≤ rule ∧ rule < (counts.take (neuron + 1)).sum := by
  induction counts generalizing rule with
  | nil => simp at hrule
  | cons count counts ih =>
      by_cases hfirst : rule < count
      · exact ⟨0, by simp, by simp, by simpa using hfirst⟩
      · have hrest : rule - count < counts.sum := by
          rw [List.sum_cons] at hrule
          omega
        obtain ⟨neuron, hneuron, hstart, hstop⟩ := ih hrest
        refine ⟨neuron + 1, by simpa using hneuron, ?_, ?_⟩
        · rw [List.take_succ_cons, List.sum_cons]
          omega
        · rw [List.take_succ_cons, List.sum_cons]
          omega

/-- No number lies between two pairs of neighbouring prefix sums. -/
theorem eq_of_between_prefix_sums {counts : List Nat} {neuron other rule : Nat}
    (hbetween : (counts.take neuron).sum ≤ rule ∧ rule < (counts.take (neuron + 1)).sum)
    (hbetween' : (counts.take other).sum ≤ rule ∧ rule < (counts.take (other + 1)).sum) :
    neuron = other := by
  have hmono := List.monotone_sum_take counts
  rcases Nat.lt_trichotomy neuron other with hlt | heq | hgt
  · have hstop : (counts.take (neuron + 1)).sum ≤ (counts.take other).sum := hmono hlt
    omega
  · exact heq
  · have hstop : (counts.take (other + 1)).sum ≤ (counts.take neuron).sum := hmono hgt
    omega

end RuleRanges

namespace Topology

/-- A topology is built from its parts and from no others. -/
theorem build_eq_ok_iff {counts : List Nat} {delays : List UInt32} {matrix : EffectMatrix}
    {topology : Topology} :
    build counts delays matrix = .ok topology ↔
      topology.counts = counts ∧ topology.delays = delays ∧ topology.matrix = matrix := by
  rw [build]
  constructor
  · intro hbuild
    split at hbuild
    case isFalse => contradiction
    case isTrue =>
      split at hbuild
      case isFalse => contradiction
      case isTrue =>
        split at hbuild
        case isFalse => contradiction
        case isTrue =>
          obtain rfl := Except.ok.inj hbuild
          exact ⟨rfl, rfl, rfl⟩
  · rintro ⟨rfl, rfl, rfl⟩
    rw [dif_pos topology.delays_length, dif_pos topology.matrix_neurons,
      dif_pos topology.matrix_rules]

/-- The rule is one of the neuron's. -/
def Owns (topology : Topology) (neuron rule : Nat) : Prop :=
  rule ∈ (topology.ranges.range neuron).rules

instance (topology : Topology) (neuron rule : Nat) : Decidable (topology.Owns neuron rule) :=
  inferInstanceAs (Decidable (rule ∈ (topology.ranges.range neuron).rules))

variable {topology : Topology} {neuron other rule : Nat} {flags : List Bool}

theorem ruleCount_eq_sum_counts (topology : Topology) :
    topology.ruleCount = topology.counts.sum := by
  rw [ruleCount, topology.delays_length, RuleRanges.ruleCount_ofCounts]

/-- The matrix has a column for every rule. -/
theorem rules_matrix (topology : Topology) : topology.matrix.rules = topology.ruleCount :=
  topology.matrix_rules.trans topology.delays_length.symm

theorem owns_iff (hneuron : neuron < topology.neuronCount) :
    topology.Owns neuron rule ↔
      (topology.counts.take neuron).sum ≤ rule ∧
        rule < (topology.counts.take (neuron + 1)).sum := by
  rw [Owns, ranges, RuleRanges.range_ofCounts hneuron, RuleRange.mem_rules]

theorem Owns.neuron_lt (howns : topology.Owns neuron rule) : neuron < topology.neuronCount := by
  by_contra hneuron
  have hstop := RuleRanges.range_ofCounts_of_le (Nat.le_of_not_lt hneuron)
  rw [Owns, ranges, RuleRange.mem_rules, hstop] at howns
  omega

theorem Owns.rule_lt (howns : topology.Owns neuron rule) : rule < topology.ruleCount := by
  have hstop := ((owns_iff howns.neuron_lt).mp howns).2
  have htotal : (topology.counts.take (neuron + 1)).sum ≤ topology.counts.sum :=
    (List.take_sublist _ _).sum_le_sum (by simp)
  rw [ruleCount_eq_sum_counts]
  omega

theorem exists_owns (hrule : rule < topology.ruleCount) : ∃ neuron, topology.Owns neuron rule := by
  rw [ruleCount_eq_sum_counts] at hrule
  obtain ⟨neuron, hneuron, hbetween⟩ := RuleRanges.exists_between_prefix_sums hrule
  exact ⟨neuron, (owns_iff hneuron).mpr hbetween⟩

theorem Owns.unique (howns : topology.Owns neuron rule) (hother : topology.Owns other rule) :
    neuron = other :=
  RuleRanges.eq_of_between_prefix_sums ((owns_iff howns.neuron_lt).mp howns)
    ((owns_iff hother.neuron_lt).mp hother)

theorem anySet_eq_true_iff :
    (topology.ranges.range neuron).anySet flags = true ↔
      ∃ rule, topology.Owns neuron rule ∧ flags.getD rule false = true := by
  rw [RuleRange.anySet, RuleRange.any_eq_any_rules, List.any_eq_true]
  rfl

theorem anySet_eq_false_iff :
    (topology.ranges.range neuron).anySet flags = false ↔
      ∀ rule, topology.Owns neuron rule → flags.getD rule false = false := by
  rw [RuleRange.anySet, RuleRange.any_eq_any_rules, List.any_eq_false]
  simp [Owns]

/-- At most one flag is set among the rules of a neuron: any two set flags are
the same one. -/
theorem countSet_le_one_iff :
    (topology.ranges.range neuron).countSet flags ≤ 1 ↔
      ∀ rule other, topology.Owns neuron rule → topology.Owns neuron other →
        flags.getD rule false = true → flags.getD other false = true → rule = other := by
  have hnodup : ((topology.ranges.range neuron).rules.filter (flags.getD · false)).Nodup :=
    (List.nodup_range').filter _
  rw [RuleRange.countSet, List.countP_eq_length_filter, ← List.toFinset_card_of_nodup hnodup,
    Finset.card_le_one]
  simp only [List.mem_toFinset, List.mem_filter, Owns]
  constructor
  · intro hsame rule other hrule hother hset hset'
    exact hsame rule ⟨hrule, hset⟩ other ⟨hother, hset'⟩
  · intro hsame rule hrule other hother
    exact hsame rule other hrule.1 hother.1 hrule.2 hother.2

theorem owns_of_firstSet? (hfirst : (topology.ranges.range neuron).firstSet? flags = some rule) :
    topology.Owns neuron rule ∧ flags.getD rule false = true :=
  ⟨List.mem_of_find?_eq_some hfirst, List.find?_some (p := (flags.getD · false)) hfirst⟩

theorem firstSet?_eq_none_iff :
    (topology.ranges.range neuron).firstSet? flags = none ↔
      ∀ rule, topology.Owns neuron rule → flags.getD rule false = false := by
  simp [RuleRange.firstSet?, Owns]

/-- The rules of a range are there. -/
theorem range_le (hneuron : neuron < topology.neuronCount) :
    (topology.ranges.range neuron).start ≤ (topology.ranges.range neuron).stop ∧
      (topology.ranges.range neuron).stop ≤ topology.ruleCount := by
  have hnext : (topology.counts.take neuron).sum ≤ (topology.counts.take (neuron + 1)).sum :=
    List.monotone_sum_take topology.counts (Nat.le_succ neuron)
  have htotal : (topology.counts.take (neuron + 1)).sum ≤ topology.counts.sum :=
    (List.take_sublist _ _).sum_le_sum (by simp)
  rw [ranges, RuleRanges.range_ofCounts hneuron, ruleCount_eq_sum_counts]
  exact ⟨hnext, htotal⟩

/-- Enumerating meets nothing but neurons with their ranges. -/
theorem forall_mem_enumerate {property : Nat × RuleRange → Prop} :
    (∀ item ∈ topology.ranges.enumerate, property item) ↔
      ∀ neuron < topology.neuronCount, property (neuron, topology.ranges.range neuron) := by
  simp [RuleRanges.enumerate_eq_map_range]

/-- What a vector over neurons holds when it is made by going through all
neurons. -/
theorem getD_map_enumerate {α : Type} (hneuron : neuron < topology.neuronCount)
    (entry : Nat × RuleRange → α) (fallback : α) :
    (topology.ranges.enumerate.map entry).getD neuron fallback =
      entry (neuron, topology.ranges.range neuron) := by
  rw [RuleRanges.enumerate_eq_map_range, List.map_map, neuronCount_ranges,
    getD_map_range hneuron]
  rfl

/-- A vector over rules made by going through all ranges holds for every rule
what its owner writes. -/
theorem getD_flatMap_enumerate {α : Type} (howns : topology.Owns neuron rule)
    (entry : Nat → Nat → α) (fallback : α) :
    (topology.ranges.enumerate.flatMap fun (neuron, range) =>
      range.rules.map (entry neuron)).getD rule fallback = entry neuron rule := by
  have hneuron := howns.neuron_lt
  obtain ⟨hstart, hstop⟩ := (owns_iff hneuron).mp howns
  have hrange : topology.ranges.range neuron =
      ⟨(topology.counts.take neuron).sum, (topology.counts.take (neuron + 1)).sum⟩ :=
    RuleRanges.range_ofCounts hneuron
  have hitem : topology.ranges.enumerate[neuron]? =
      some (neuron, topology.ranges.range neuron) := by
    simp [RuleRanges.enumerate_eq_map_range, hneuron]
  have hposition : rule - (topology.counts.take neuron).sum <
      (topology.ranges.range neuron).length := by
    simp only [hrange, RuleRange.length]
    omega
  have hblock := getD_flatMap_block
    (fun item : Nat × RuleRange => item.2.rules.map (entry item.1))
    (fun item => item.2.length) (by simp [RuleRange.rules]) hitem hposition fallback
  have hcounts : topology.ranges.enumerate.map (fun item => item.2.length) = topology.counts :=
    RuleRanges.map_length_enumerate_ofCounts topology.counts
  rw [hcounts, Nat.add_sub_cancel' hstart] at hblock
  rw [hblock, List.getD_eq_getElem _ _ (by simpa [RuleRange.rules] using hposition)]
  simp [RuleRange.rules, hrange, Nat.add_sub_cancel' hstart]

end Topology

end SpikingNeuralP
