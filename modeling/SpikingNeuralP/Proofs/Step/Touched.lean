import SpikingNeuralP.Proofs.Step.Acceptance
import SpikingNeuralP.Proofs.Vector.Block

/-!
# What a change log touches

The entries of a log about one neuron stand together, so a neuron is touched once
however many of them there are; and a neuron that is not touched looks after the
step as it did before.
-/

namespace SpikingNeuralP

section Repeats

variable {index : Nat} {last : Option Nat} {neurons : List Nat}

theorem withoutRepeats_replicate_append (count index : Nat) (rest : List Nat) :
    withoutRepeats (some index) (List.replicate count index ++ rest) =
      withoutRepeats (some index) rest := by
  induction count with
  | zero => rfl
  | succ count ih =>
      rw [List.replicate_succ, List.cons_append, withoutRepeats, if_pos rfl, ih]

/-- Numbers that are repeated in place, each any number of times, are kept once
when they occur at all. -/
theorem withoutRepeats_flatMap_replicate (times : Nat → Nat) (hnodup : neurons.Nodup)
    (hlast : ∀ neuron ∈ neurons, last ≠ some neuron) :
    withoutRepeats last (neurons.flatMap fun neuron => List.replicate (times neuron) neuron) =
      neurons.filter fun neuron => decide (0 < times neuron) := by
  induction neurons generalizing last with
  | nil => rfl
  | cons neuron neurons ih =>
      obtain ⟨hfresh, hnodup⟩ := List.nodup_cons.mp hnodup
      obtain ⟨hneuron, hneurons⟩ := List.forall_mem_cons.mp hlast
      rw [List.flatMap_cons]
      cases htimes : times neuron with
      | zero =>
          rw [List.filter_cons_of_neg (by simp [htimes])]
          exact ih hnodup hneurons
      | succ count =>
          have hothers : ∀ other ∈ neurons, some neuron ≠ some other := by
            rintro _ hother ⟨⟩
            exact hfresh hother
          rw [List.filter_cons_of_pos (by simp [htimes]), List.replicate_succ,
            List.cons_append, withoutRepeats, if_neg hneuron, withoutRepeats_replicate_append,
            ih hnodup hothers]

end Repeats

theorem logIndex_of_lt {neuron : Nat} (hneuron : neuron < UInt32.size) :
    logIndex neuron = neuron :=
  UInt32.toNat_ofNat_of_lt' hneuron

namespace ChangeSet

variable {changes : ChangeSet} {neuron : Nat}

/-- How many entries a log has about a neuron. -/
def entryCount (changes : ChangeSet) (neuron : Nat) : Nat :=
  (changes.updated.getD neuron false).toNat + (changes.firingChanged.getD neuron false).toNat +
    (changes.fired.getD neuron false).toNat

theorem map_index_entries (changes : ChangeSet) (neuron : Nat) :
    (changes.entries neuron).map Change.index =
      List.replicate (changes.entryCount neuron) (logIndex neuron) := by
  rw [entries, entryCount]
  cases changes.updated.getD neuron false <;> cases changes.firingChanged.getD neuron false <;>
    cases changes.fired.getD neuron false <;> rfl

theorem entryCount_pos_iff :
    0 < changes.entryCount neuron ↔
      changes.updated.getD neuron false = true ∨ changes.firingChanged.getD neuron false = true ∨
        changes.fired.getD neuron false = true := by
  rw [entryCount]
  cases changes.updated.getD neuron false <;> cases changes.firingChanged.getD neuron false <;>
    cases changes.fired.getD neuron false <;> simp

/-- The neurons touched are the ones with an entry, in ascending order and each
once, as long as the words of the log can tell all neurons apart. -/
theorem touched_log (hcount : changes.fired.length ≤ UInt32.size) :
    changes.log.touched =
      (List.range changes.fired.length).filter fun neuron =>
        decide (0 < changes.entryCount neuron) := by
  have hindices : changes.log.map Change.index =
      (List.range changes.fired.length).flatMap fun neuron =>
        List.replicate (changes.entryCount neuron) neuron := by
    rw [log, List.map_flatMap]
    apply List.flatMap_congr
    intro neuron hneuron
    rw [map_index_entries, logIndex_of_lt (lt_of_lt_of_le (List.mem_range.mp hneuron) hcount)]
  rw [ChangeLog.touched, hindices]
  exact withoutRepeats_flatMap_replicate changes.entryCount List.nodup_range nofun

theorem pairwise_touched (hcount : changes.fired.length ≤ UInt32.size) :
    changes.log.touched.Pairwise (· < ·) := by
  rw [touched_log hcount]
  exact List.pairwise_lt_range.filter _

theorem nodup_touched (hcount : changes.fired.length ≤ UInt32.size) :
    changes.log.touched.Nodup :=
  (pairwise_touched hcount).imp Nat.ne_of_lt

end ChangeSet

theorem getD_differences {α : Type} [BEq α] [LawfulBEq α] {before after : List α} {index : Nat}
    (hbefore : index < before.length) (hafter : index < after.length) (fallback : α) :
    (differences before after).getD index false = true ↔
      before.getD index fallback ≠ after.getD index fallback := by
  rw [differences, getD_zipWith _ hbefore hafter fallback fallback, bne_iff_ne]

/-- The neuron looks the same in both states. -/
@[mk_iff]
structure State.AgreeAt (before after : State) (neuron : Nat) : Prop where
  spikes : before.spikes.getD neuron 0 = after.spikes.getD neuron 0
  cooldown : before.cooldown.getD neuron 0 = after.cooldown.getD neuron 0
  firing : before.firing.getD neuron false = after.firing.getD neuron false

instance (before after : State) (neuron : Nat) : Decidable (before.AgreeAt after neuron) :=
  decidable_of_iff _ (State.agreeAt_iff before after neuron).symm

/-- How many of the first `count` neurons fire in the step from one state to the
other or look different after it. -/
def State.redraws (before after : State) (count : Nat) : Nat :=
  (List.range count).countP fun neuron =>
    decide (after.firing.getD neuron false = true ∨ ¬before.AgreeAt after neuron)

namespace ChangeSet

variable {topology : Topology} {before after : State} {neuron : Nat}

section Flags

variable (hbefore : before.Fits topology) (hafter : after.Fits topology)
  (hneuron : neuron < topology.neuronCount)

include hbefore hafter hneuron

theorem getD_firingChanged_between :
    (between before after).firingChanged.getD neuron false = true ↔
      before.firing.getD neuron false ≠ after.firing.getD neuron false :=
  getD_differences (hneuron.trans_eq hbefore.firing.symm) (hneuron.trans_eq hafter.firing.symm)
    false

theorem getD_cooldownChanged_between :
    (between before after).cooldownChanged.getD neuron false = true ↔
      before.cooldown.getD neuron 0 ≠ after.cooldown.getD neuron 0 :=
  getD_differences (hneuron.trans_eq hbefore.cooldown.symm)
    (hneuron.trans_eq hafter.cooldown.symm) 0

theorem getD_updated_between :
    (between before after).updated.getD neuron false = true ↔
      before.cooldown.getD neuron 0 ≠ after.cooldown.getD neuron 0 ∨
        before.spikes.getD neuron 0 ≠ after.spikes.getD neuron 0 := by
  have hcooldown := getD_differences (hneuron.trans_eq hbefore.cooldown.symm)
    (hneuron.trans_eq hafter.cooldown.symm) 0
  have hspikes := getD_differences (hneuron.trans_eq hbefore.spikes.symm)
    (hneuron.trans_eq hafter.spikes.symm) 0
  rw [between, getD_zipWith (· || ·) _ _ false false, Bool.or_eq_true, hcooldown, hspikes]
  · simpa [differences, hbefore.cooldown, hafter.cooldown] using hneuron
  · simpa [differences, hbefore.spikes, hafter.spikes] using hneuron

/-- A step is logged at the neurons that fire in it and at those that look
different after it. -/
theorem entryCount_between_pos_iff :
    0 < (between before after).entryCount neuron ↔
      after.firing.getD neuron false = true ∨ ¬before.AgreeAt after neuron := by
  have hfired : (between before after).fired = after.firing := rfl
  rw [entryCount_pos_iff, getD_updated_between hbefore hafter hneuron,
    getD_firingChanged_between hbefore hafter hneuron, hfired, State.agreeAt_iff, not_and_or,
    not_and_or]
  simp only [or_comm, or_left_comm, or_assoc]

end Flags

/-- The neurons that a step touches. -/
theorem mem_touched_between_iff (hbefore : before.Fits topology) (hafter : after.Fits topology)
    (hcount : topology.neuronCount ≤ UInt32.size) :
    neuron ∈ (between before after).log.touched ↔
      neuron < topology.neuronCount ∧
        (after.firing.getD neuron false = true ∨ ¬before.AgreeAt after neuron) := by
  have hfired : (between before after).fired.length = topology.neuronCount := hafter.firing
  rw [touched_log (hfired ▸ hcount), List.mem_filter, List.mem_range, decide_eq_true_eq, hfired]
  exact and_congr_right (entryCount_between_pos_iff hbefore hafter)

/-- A log touches as many neurons as a redraw has to write anew. -/
theorem length_touched_between (hbefore : before.Fits topology) (hafter : after.Fits topology)
    (hcount : topology.neuronCount ≤ UInt32.size) :
    (between before after).log.touched.length = before.redraws after topology.neuronCount := by
  have hfired : (between before after).fired.length = topology.neuronCount := hafter.firing
  rw [touched_log (hfired ▸ hcount), hfired, State.redraws, List.countP_eq_length_filter]
  congr 1
  apply List.filter_congr
  intro neuron hneuron
  rw [decide_eq_decide]
  exact entryCount_between_pos_iff hbefore hafter (List.mem_range.mp hneuron)

end ChangeSet

end SpikingNeuralP
