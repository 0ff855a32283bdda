import SpikingNeuralP.Proofs.Topology.Partition
import SpikingNeuralP.Proofs.Vector.Measure

/-!
# The parts of a topology

The ranges made from the rule counts cut the numbers of all rules into consecutive pieces, one per
neuron.  Delays and a matrix make a topology with these counts exactly when they have the lengths
that the pieces ask for, and everything that is looked up by neuron or by rule is then there.
-/

namespace SpikingNeuralP

namespace RuleRanges

variable {counts : List Nat} {neuron rule : Nat}

theorem mem_rules_range_iff (hneuron : neuron < counts.length) :
    rule ∈ ((ofCounts counts).range neuron).rules ↔
      (counts.take neuron).sum ≤ rule ∧ rule < (counts.take (neuron + 1)).sum := by
  rw [range_ofCounts hneuron, RuleRange.mem_rules]

theorem existsUnique_owner (hrule : rule < counts.sum) :
    ∃! neuron, neuron < counts.length ∧ rule ∈ ((ofCounts counts).range neuron).rules := by
  obtain ⟨neuron, hneuron, hbetween⟩ := exists_between_prefix_sums hrule
  refine ⟨neuron, ⟨hneuron, (mem_rules_range_iff hneuron).mpr hbetween⟩, ?_⟩
  rintro other ⟨hother, hbetween'⟩
  exact eq_of_between_prefix_sums ((mem_rules_range_iff hother).mp hbetween') hbetween

theorem start_add_count_eq_stop (hneuron : neuron < counts.length) :
    ((ofCounts counts).range neuron).start + counts[neuron] =
      ((ofCounts counts).range neuron).stop := by
  rw [range_ofCounts hneuron, List.sum_take_succ _ _ hneuron]

/-- The pieces, put one after the other, are all numbers in order. -/
theorem flatMap_rules_offsetsFrom (start : Nat) (counts : List Nat) :
    (List.zipWith RuleRange.mk (offsetsFrom start counts) (offsetsFrom start counts).tail).flatMap
        RuleRange.rules =
      List.range' start counts.sum := by
  induction counts generalizing start with
  | nil => rfl
  | cons count counts ih =>
      obtain ⟨later, hlater⟩ :
          ∃ later, offsetsFrom (start + count) counts = (start + count) :: later := by
        cases counts <;> exact ⟨_, rfl⟩
      have hfirst : (RuleRange.mk start (start + count)).rules = List.range' start count := by
        rw [RuleRange.rules, RuleRange.length, Nat.add_sub_cancel_left]
      have hrest := ih (start + count)
      rw [hlater, List.tail_cons] at hrest
      rw [offsetsFrom, List.tail_cons, hlater, List.zipWith_cons_cons, List.flatMap_cons, hfirst,
        hrest, List.range'_append_1, List.sum_cons]

theorem flatMap_rules_enumerate (counts : List Nat) :
    ((ofCounts counts).enumerate.flatMap fun (_, range) => range.rules) =
      List.range counts.sum := by
  have hranges := congrArg (List.flatMap RuleRange.rules)
    (List.zipIdx_map_fst 0 (List.zipWith RuleRange.mk (offsetsFrom 0 counts)
      (offsetsFrom 0 counts).tail))
  rw [flatMap_rules_offsetsFrom, ← List.range_eq_range', List.flatMap_map] at hranges
  rw [enumerate, List.flatMap_map]
  exact hranges

/-- The ranges cut the rules into consecutive pieces, one per neuron and as long as its count. -/
structure Partitions (ranges : RuleRanges) (counts : List Nat) : Prop where
  neuronCount_eq : ranges.neuronCount = counts.length
  ruleCount_eq : ranges.ruleCount = counts.sum
  starts : (ranges.range 0).start = 0
  adjacent : ∀ neuron, neuron + 1 < counts.length →
    (ranges.range neuron).stop = (ranges.range (neuron + 1)).start
  stops : ∀ neuron, neuron + 1 = counts.length → (ranges.range neuron).stop = ranges.ruleCount
  sized : ∀ (neuron : Nat) (hneuron : neuron < counts.length),
    (ranges.range neuron).start + counts[neuron] = (ranges.range neuron).stop ∧
      (ranges.range neuron).length = counts[neuron]
  enumerated : ranges.enumerate =
    (List.range counts.length).map fun neuron => (neuron, ranges.range neuron)
  listed : (ranges.enumerate.flatMap fun (_, range) => range.rules) = List.range ranges.ruleCount
  owned : ∀ rule < ranges.ruleCount,
    ∃! neuron, neuron < counts.length ∧ rule ∈ (ranges.range neuron).rules

theorem partitions_ofCounts (counts : List Nat) : (ofCounts counts).Partitions counts where
  neuronCount_eq := neuronCount_ofCounts counts
  ruleCount_eq := ruleCount_ofCounts counts
  starts := by cases counts <;> rfl
  adjacent _ _ := rfl
  stops neuron hlast := by
    rw [range_ofCounts (by omega), ruleCount_ofCounts, hlast, List.take_length]
  sized _ hneuron := ⟨start_add_count_eq_stop hneuron, length_range_ofCounts hneuron⟩
  enumerated := by rw [enumerate_eq_map_range, neuronCount_ofCounts]
  listed := by rw [flatMap_rules_enumerate, ruleCount_ofCounts]
  owned _ hrule := existsUnique_owner (ruleCount_ofCounts counts ▸ hrule)

end RuleRanges

namespace Topology

variable {counts : List Nat} {delays : List UInt32} {matrix : EffectMatrix} {topology : Topology}
  {cause : StepError}

/-- What is measured when parts are put together, in this order. -/
def partMeasures (counts : List Nat) (delays : List UInt32) (matrix : EffectMatrix) :
    List Measure :=
  [⟨"delay vector", counts.sum, delays.length⟩,
    ⟨"transition matrix rows", counts.length, matrix.neurons⟩,
    ⟨"transition matrix columns", counts.sum, matrix.rules⟩]

theorem build_eq_error_iff :
    build counts delays matrix = .error cause ↔
      ∃ measure, (partMeasures counts delays matrix).find? Measure.misfits = some measure ∧
        cause = .lengthMismatch measure.vector measure.expected measure.actual := by
  simp only [build, RuleRanges.ruleCount_ofCounts, partMeasures]
  split
  case isFalse hdelays =>
    rw [Measure.find?_misfits_cons_of_ne hdelays]
    simp [eq_comm]
  case isTrue hdelays =>
    rw [Measure.find?_misfits_cons_of_eq hdelays]
    split
    case isFalse hrows =>
      rw [Measure.find?_misfits_cons_of_ne hrows]
      simp [eq_comm]
    case isTrue hrows =>
      rw [Measure.find?_misfits_cons_of_eq hrows]
      split
      case isFalse hcolumns =>
        rw [Measure.find?_misfits_cons_of_ne hcolumns]
        simp [eq_comm]
      case isTrue hcolumns =>
        rw [Measure.find?_misfits_cons_of_eq hcolumns]
        simp

theorem exists_build_eq_ok_iff :
    (∃ topology, build counts delays matrix = .ok topology) ↔
      delays.length = counts.sum ∧ matrix.neurons = counts.length ∧ matrix.rules = counts.sum := by
  simp only [build_eq_ok_iff]
  constructor
  · rintro ⟨topology, rfl, rfl, rfl⟩
    exact ⟨ruleCount_eq_sum_counts topology, topology.matrix_neurons,
      topology.rules_matrix.trans (ruleCount_eq_sum_counts topology)⟩
  · rintro ⟨hdelays, hrows, hcolumns⟩
    rw [← RuleRanges.ruleCount_ofCounts] at hdelays hcolumns
    exact ⟨⟨counts, delays, matrix, hdelays, hrows, hcolumns⟩, rfl, rfl, rfl⟩

/-- Rows, ranges and delays are there for every neuron and every rule of its range. -/
structure InBounds (topology : Topology) : Prop where
  row : ∀ neuron < topology.neuronCount,
    neuron * topology.matrix.rules + topology.matrix.rules ≤ topology.matrix.values.length ∧
      (topology.matrix.row neuron).length = topology.ruleCount
  delay : ∀ neuron < topology.neuronCount, ∀ rule ∈ (topology.ranges.range neuron).rules,
    rule < topology.delays.length

theorem inBounds (topology : Topology) : topology.InBounds where
  row neuron hneuron := by
    have hrow : neuron < topology.matrix.neurons := topology.matrix_neurons ▸ hneuron
    exact ⟨EffectMatrix.row_stop_le hrow,
      (EffectMatrix.length_row hrow).trans topology.rules_matrix⟩
  delay _ _ _ hrule := Owns.rule_lt hrule

/-- How rule counts, delays and a matrix go together. -/
structure BuildsExactly (counts : List Nat) (delays : List UInt32) (matrix : EffectMatrix) :
    Prop where
  partitions : (RuleRanges.ofCounts counts).Partitions counts
  accepted : (∃ topology, build counts delays matrix = .ok topology) ↔
    delays.length = counts.sum ∧ matrix.neurons = counts.length ∧ matrix.rules = counts.sum
  refused : ∀ cause, build counts delays matrix = .error cause ↔
    ∃ measure, (partMeasures counts delays matrix).find? Measure.misfits = some measure ∧
      cause = .lengthMismatch measure.vector measure.expected measure.actual
  built : ∀ topology, build counts delays matrix = .ok topology →
    topology.counts = counts ∧ topology.delays = delays ∧ topology.matrix = matrix ∧
      topology.ranges = .ofCounts counts ∧ topology.InBounds

theorem buildsExactly (counts : List Nat) (delays : List UInt32) (matrix : EffectMatrix) :
    BuildsExactly counts delays matrix where
  partitions := RuleRanges.partitions_ofCounts counts
  accepted := exists_build_eq_ok_iff
  refused _ := build_eq_error_iff
  built topology hbuild := by
    obtain ⟨rfl, rfl, rfl⟩ := build_eq_ok_iff.mp hbuild
    exact ⟨rfl, rfl, rfl, rfl, topology.inBounds⟩

/-- Neither rows nor columns fit, and the rows come first. -/
example :
    build [1, 0, 1] [0, 4] (.zeros 2 3) =
      .error (.lengthMismatch "transition matrix rows" 3 2) :=
  rfl

end Topology

end SpikingNeuralP
