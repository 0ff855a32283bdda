import SpikingNeuralP.Proofs.Step.Accumulation
import SpikingNeuralP.Proofs.Step.Phase

/-!
# The step that cannot overflow

Which rules act, and which neurons are open afterwards, does not depend on the effects of
the rules.  A topology that differs in its effects alone grants every permitted step, so
what is known of the steps that were made also holds of a step that is refused for a
count that cannot be held.
-/

namespace SpikingNeuralP

namespace EffectMatrix

variable {acting : List Bool} {train : Option (List UInt32)} {direction : Direction}

theorem partialGain_zeros (neurons rules neuron count : Nat) :
    (zeros neurons rules).partialGain neuron acting train count = 0 := by
  have hnothing : ∀ rule, (zeros neurons rules).contribution neuron acting train rule = 0 := by
    intro rule
    simp [contribution, cell_zeros]
  simp [partialGain, funext hnothing]

theorem not_overflows_zeros (neurons rules neuron : Nat) (spikes : Int32) :
    ¬(zeros neurons rules).Overflows acting train direction neuron spikes := by
  have hspikes : Fits32 spikes.toInt := ⟨spikes.le_toInt, spikes.toInt_lt⟩
  rw [Overflows, ← partialGain_rules]
  simp only [partialGain_zeros]
  rintro (⟨count, _, hbeyond⟩ | hbeyond)
  · exact hbeyond fits64_zero
  · cases direction with
    | forward => exact hbeyond (by simpa [Direction.apply] using hspikes)
    | backward => exact hbeyond (by simpa [Direction.apply] using hspikes)

end EffectMatrix

namespace Topology

variable {topology : Topology} {state : State} {input : StepInput} {neuron rule other : Nat}

/-- The topology with rules that do nothing to any neuron. -/
def withoutEffects (topology : Topology) : Topology where
  counts := topology.counts
  delays := topology.delays
  matrix := .zeros topology.counts.length (RuleRanges.ofCounts topology.counts).ruleCount
  delays_length := topology.delays_length
  matrix_neurons := rfl
  matrix_rules := rfl

/-- The request passes all checks. -/
structure Accepts (topology : Topology) (state : State) (input : StepInput) : Prop where
  fits : state.Fits topology
  inputFits : input.Fits topology
  permits : topology.Permits state input.decision

theorem Advances.accepts {next : State} (hstep : topology.Advances state input next) :
    topology.Accepts state input :=
  ⟨hstep.fits, hstep.inputFits, hstep.permits⟩

/-- Without effects an accepted request is granted. -/
theorem Accepts.exists_advances (haccepts : topology.Accepts state input) :
    ∃ next, topology.withoutEffects.Advances state input next := by
  have hgranted : ∃ spikes, topology.withoutEffects.matrix.settle state.spikes
      (nextCooldown state.cooldown input.decision topology.delays topology.ranges)
      (topology.acting state input) input.train .forward = .ok spikes := by
    rw [exists_eq_ok_iff_forall_ne_error]
    intro cause hfail
    obtain ⟨neuron, hleast, _⟩ :=
      (EffectMatrix.settle_eq_error_iff haccepts.fits.spikes rfl).mp hfail
    exact EffectMatrix.not_overflows_zeros _ _ _ _ hleast.1.2.2
  obtain ⟨spikes, hspikes⟩ := hgranted
  let hstate := haccepts.fits
  exact ⟨{
    spikes
    cooldown := nextCooldown state.cooldown input.decision topology.delays topology.ranges
    inFlight := nextInFlight state.inFlight (topology.acting state input) input.decision
      topology.delays
    firing := firingNeurons (topology.acting state input) input.train topology.ranges },
    ⟨hstate.spikes, hstate.cooldown, hstate.firing, hstate.inFlight⟩,
    ⟨haccepts.inputFits.decision, haccepts.inputFits.train⟩,
    ⟨haccepts.permits.single, haccepts.permits.opened⟩, rfl, hspikes, rfl, rfl⟩

theorem Accepts.acting_iff_due (haccepts : topology.Accepts state input)
    (hcoupled : state.Coupled topology) (howns : topology.Owns neuron rule) :
    (topology.acting state input).getD rule false = true ↔
      input.decision.getD rule false = true ∧ topology.delays.getD rule 0 = 0 ∨
        state.inFlight.getD rule false = true ∧ state.cooldown.getD neuron 0 = 1 := by
  obtain ⟨_, hstep⟩ := haccepts.exists_advances
  exact hstep.acting_iff_due hcoupled howns

theorem Accepts.acting_unique (haccepts : topology.Accepts state input)
    (hphased : state.Phased topology) (howns : topology.Owns neuron rule)
    (hother : topology.Owns neuron other)
    (hacting : (topology.acting state input).getD rule false = true)
    (hacting' : (topology.acting state input).getD other false = true) : rule = other := by
  obtain ⟨_, hstep⟩ := haccepts.exists_advances
  have hphased' : state.Phased topology.withoutEffects := by
    intro neuron hneuron
    rcases hphased neuron hneuron with hopen | ⟨rule, hbusy⟩
    · exact Or.inl hopen
    · exact Or.inr ⟨rule, hbusy.owns, hbusy.inFlight, hbusy.only, hbusy.waits, hbusy.within⟩
  exact hstep.acting_unique hphased' howns hother hacting hacting'

end Topology

end SpikingNeuralP
