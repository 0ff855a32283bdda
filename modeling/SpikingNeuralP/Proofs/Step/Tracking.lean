import SpikingNeuralP.Proofs.Step.RoundTrip
import SpikingNeuralP.Proofs.Step.Touched

/-!
# What a tracked step tells

The flags of a change set are taken from the old state and the new one and then laid out
as one log.  For every accepted step the flags hold exactly where the states differ, the
log has one entry for every flag and no other, in a fixed order, and the touched neurons
are those for which something is to be redrawn.
-/

namespace SpikingNeuralP

namespace Change

/-- The place of an entry among those about the same neuron. -/
def rank : Change → Nat
  | .neuron _ => 0
  | .synapses _ => 1
  | .fired _ => 2

/-- The order of a log: by neuron, then by rank. -/
def Precedes (first second : Change) : Prop :=
  first.index < second.index ∨ first.index = second.index ∧ first.rank < second.rank

theorem Precedes.ne {first second : Change} (hprecedes : first.Precedes second) :
    first ≠ second := by
  rintro rfl
  rcases hprecedes with hindex | ⟨_, hrank⟩
  · exact Nat.lt_irrefl _ hindex
  · exact Nat.lt_irrefl _ hrank

end Change

namespace ChangeSet

variable {changes : ChangeSet} {change : Change} {neuron : Nat}

/-- The flag an entry stands for. -/
def flag (changes : ChangeSet) : Change → Bool
  | .neuron index => changes.updated.getD index false
  | .synapses index => changes.firingChanged.getD index false
  | .fired index => changes.fired.getD index false

theorem mem_entries_iff (hneuron : neuron < UInt32.size) :
    change ∈ changes.entries neuron ↔ change.index = neuron ∧ changes.flag change = true := by
  rw [entries, logIndex_of_lt hneuron]
  cases change with
  | neuron index =>
      simp only [flag, Change.index]
      grind
  | synapses index =>
      simp only [flag, Change.index]
      grind
  | fired index =>
      simp only [flag, Change.index]
      grind

theorem pairwise_entries (changes : ChangeSet) (neuron : Nat) :
    (changes.entries neuron).Pairwise Change.Precedes := by
  rw [entries]
  cases changes.updated.getD neuron false <;> cases changes.firingChanged.getD neuron false <;>
    cases changes.fired.getD neuron false <;> simp [Change.Precedes, Change.index, Change.rank]

theorem mem_log_iff (hcount : changes.fired.length ≤ UInt32.size) :
    change ∈ changes.log ↔
      change.index < changes.fired.length ∧ changes.flag change = true := by
  rw [log, List.mem_flatMap]
  constructor
  · rintro ⟨neuron, hneuron, hentry⟩
    rw [List.mem_range] at hneuron
    obtain ⟨rfl, hflag⟩ := (mem_entries_iff (hneuron.trans_le hcount)).mp hentry
    exact ⟨hneuron, hflag⟩
  · rintro ⟨hindex, hflag⟩
    exact ⟨change.index, List.mem_range.mpr hindex,
      (mem_entries_iff (hindex.trans_le hcount)).mpr ⟨rfl, hflag⟩⟩

/-- The entries about one neuron come before those about the next. -/
theorem pairwise_log (hcount : changes.fired.length ≤ UInt32.size) :
    changes.log.Pairwise Change.Precedes := by
  rw [log, List.pairwise_flatMap]
  refine ⟨fun neuron _ => pairwise_entries changes neuron, ?_⟩
  apply List.pairwise_lt_range.imp_of_mem
  intro earlier later hearlier hlater hlt first hfirst second hsecond
  have hbound := (List.mem_range.mp hlater).trans_le hcount
  obtain ⟨rfl, _⟩ := (mem_entries_iff (hlt.trans hbound)).mp hfirst
  obtain ⟨rfl, _⟩ := (mem_entries_iff hbound).mp hsecond
  exact Or.inl hlt

theorem nodup_log (hcount : changes.fired.length ≤ UInt32.size) : changes.log.Nodup :=
  (pairwise_log hcount).imp Change.Precedes.ne

/-- A flag that holds has one entry, any other has none. -/
theorem count_log (hcount : changes.fired.length ≤ UInt32.size)
    (hfiring : changes.firingChanged.length = changes.fired.length)
    (hupdated : changes.updated.length = changes.fired.length) (change : Change) :
    changes.log.count change = (changes.flag change).toNat := by
  cases hflag : changes.flag change with
  | false =>
      apply List.count_eq_zero_of_not_mem
      intro hentry
      have hset := ((mem_log_iff hcount).mp hentry).2
      rw [hflag] at hset
      contradiction
  | true =>
      have hindex : change.index < changes.fired.length := by
        cases change with
        | neuron index => exact (lt_length_of_getD hflag).trans_eq hupdated
        | synapses index => exact (lt_length_of_getD hflag).trans_eq hfiring
        | fired index => exact lt_length_of_getD hflag
      exact List.count_eq_one_of_mem (nodup_log hcount)
        ((mem_log_iff hcount).mpr ⟨hindex, hflag⟩)

/-- The change set tells what became of the neurons between two states. -/
structure Describes (changes : ChangeSet) (topology : Topology) (before after : State) : Prop where
  fired : changes.fired = after.firing
  lengths : changes.fired.length = topology.neuronCount ∧
    changes.firingChanged.length = topology.neuronCount ∧
    changes.cooldownChanged.length = topology.neuronCount ∧
    changes.updated.length = topology.neuronCount
  firingChanged : ∀ neuron < topology.neuronCount,
    changes.firingChanged.getD neuron false = true ↔
      before.firing.getD neuron false ≠ after.firing.getD neuron false
  cooldownChanged : ∀ neuron < topology.neuronCount,
    changes.cooldownChanged.getD neuron false = true ↔
      before.cooldown.getD neuron 0 ≠ after.cooldown.getD neuron 0
  updated : ∀ neuron < topology.neuronCount,
    changes.updated.getD neuron false = true ↔
      before.spikes.getD neuron 0 ≠ after.spikes.getD neuron 0 ∨
        before.cooldown.getD neuron 0 ≠ after.cooldown.getD neuron 0
  /-- The log has one entry for every flag that holds, and no other entry. -/
  logged : ∀ change, changes.log.count change = (changes.flag change).toNat
  ordered : changes.log.Pairwise Change.Precedes
  touched : ∀ neuron, neuron ∈ changes.log.touched ↔
    neuron < topology.neuronCount ∧
      (after.firing.getD neuron false = true ∨
        before.spikes.getD neuron 0 ≠ after.spikes.getD neuron 0 ∨
        before.cooldown.getD neuron 0 ≠ after.cooldown.getD neuron 0 ∨
        before.firing.getD neuron false ≠ after.firing.getD neuron false)
  touched_ordered : changes.log.touched.Pairwise (· < ·)

variable {topology : Topology} {before after : State}

theorem lengths_between (hbefore : before.Fits topology) (hafter : after.Fits topology) :
    (between before after).fired.length = topology.neuronCount ∧
      (between before after).firingChanged.length = topology.neuronCount ∧
      (between before after).cooldownChanged.length = topology.neuronCount ∧
      (between before after).updated.length = topology.neuronCount := by
  simp [between, differences, hbefore.spikes, hbefore.cooldown, hbefore.firing, hafter.spikes,
    hafter.cooldown, hafter.firing]

theorem describes_between (hbefore : before.Fits topology) (hafter : after.Fits topology)
    (hcount : topology.neuronCount ≤ UInt32.size) :
    (between before after).Describes topology before after where
  fired := rfl
  lengths := lengths_between hbefore hafter
  firingChanged _ := getD_firingChanged_between hbefore hafter
  cooldownChanged _ := getD_cooldownChanged_between hbefore hafter
  updated _ hneuron := (getD_updated_between hbefore hafter hneuron).trans or_comm
  logged := by
    obtain ⟨hfired, hfiring, _, hupdated⟩ := lengths_between hbefore hafter
    exact count_log (hfired.trans_le hcount) (hfiring.trans hfired.symm)
      (hupdated.trans hfired.symm)
  ordered := pairwise_log (hafter.firing.trans_le hcount)
  touched neuron := by
    rw [mem_touched_between_iff hbefore hafter hcount, State.agreeAt_iff, not_and_or, not_and_or]
  touched_ordered := pairwise_touched (hafter.firing.trans_le hcount)

end ChangeSet

namespace Engine

/-- What a tracked step reports agrees with what it did. -/
structure TracksExactly (engine : Engine) (before : State) (input : StepInput)
    (report : StepReport) (next : State) : Prop where
  fired : report.fired =
    (List.range engine.topology.neuronCount).countP (next.firing.getD · false)
  changes : ∃ changes, report.changes = some changes ∧
    changes.Describes engine.topology before next
  /-- Without tracking the same state is reached by the same number of firing neurons. -/
  untracked : { engine with tracksChanges := false }.forward before input =
    .ok ({ report with changes := none }, next)

/-- Every accepted step is tracked without omission, as long as the log can name all
neurons. -/
theorem tracksExactly_of_forward {engine : Engine} {before next : State} {input : StepInput}
    {report : StepReport} (hcount : engine.topology.neuronCount ≤ UInt32.size)
    (htracks : engine.tracksChanges = true)
    (hforward : engine.forward before input = .ok (report, next)) :
    engine.TracksExactly before input report next := by
  obtain ⟨hstep, rfl⟩ := forward_eq_ok_iff.mp hforward
  have hnext := hstep.next_fits
  exact {
    fired := by
      rw [← hnext.firing, ← count_true_eq_countP]
      rfl
    changes := by
      refine ⟨.between before next, by rw [Engine.report, if_pos htracks], ?_⟩
      exact ChangeSet.describes_between hstep.fits hnext hcount
    untracked := forward_eq_ok_iff.mpr ⟨hstep, rfl⟩ }

theorem tracksExactly_of_forward_strained :
    strainedEngine.topology.neuronCount = 3 ∧ strainedEngine.tracksChanges = true ∧
      ∃ report next,
        strainedEngine.forward strainedState ⟨[true, false, true], some [1, 7, 0]⟩ =
          .ok (report, next) ∧
        report.changes.map (·.log) =
          some [.neuron 0, .fired 0, .neuron 1, .synapses 1, .fired 1, .neuron 2] ∧
        strainedEngine.TracksExactly strainedState ⟨[true, false, true], some [1, 7, 0]⟩
          report next :=
  ⟨rfl, rfl, _, _, rfl, rfl, tracksExactly_of_forward (by decide) rfl rfl⟩

end Engine

end SpikingNeuralP
