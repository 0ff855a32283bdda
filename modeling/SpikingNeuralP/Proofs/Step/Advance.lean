import SpikingNeuralP.Proofs.Step.Acceptance
import SpikingNeuralP.Proofs.Step.Accumulation

/-!
# What a step does

A successful forward step is described once, by the equations of its vectors, and
then read neuron by neuron and rule by rule.  Everything said elsewhere about
steps goes through these readings.
-/

namespace SpikingNeuralP

namespace Topology

theorem getD_actingRules {topology : Topology} {neuron rule : Nat}
    (howns : topology.Owns neuron rule) {cooldown : List UInt32} {decision inFlight : List Bool}
    {delays : List UInt32} :
    (actingRules cooldown decision inFlight delays topology.ranges).getD rule false =
      (cooldown.getD neuron 0 == 0 &&
        (decision.getD rule false && delays.getD rule 0 == 0 || inFlight.getD rule false)) :=
  getD_flatMap_enumerate howns
    (fun neuron rule => cooldown.getD neuron 0 == 0 &&
      (decision.getD rule false && delays.getD rule 0 == 0 || inFlight.getD rule false)) false

theorem length_actingRules (topology : Topology) (cooldown : List UInt32)
    (decision inFlight : List Bool) :
    (actingRules cooldown decision inFlight topology.delays topology.ranges).length =
      topology.ruleCount := by
  have hcounts : topology.ranges.enumerate.map (fun item => item.2.length) = topology.counts :=
    RuleRanges.map_length_enumerate_ofCounts topology.counts
  rw [actingRules, List.length_flatMap]
  simp only [List.length_map, RuleRange.rules, List.length_range']
  rw [hcounts, ruleCount_eq_sum_counts]

/-- The rules that act in a step from the state. -/
def acting (topology : Topology) (state : State) (input : StepInput) : List Bool :=
  actingRules (nextCooldown state.cooldown input.decision topology.delays topology.ranges)
    input.decision state.inFlight topology.delays topology.ranges

/-- The step from `state` is accepted and leads to `next`. -/
structure Advances (topology : Topology) (state : State) (input : StepInput) (next : State) :
    Prop where
  fits : state.Fits topology
  inputFits : input.Fits topology
  permits : topology.Permits state input.decision
  cooldown : next.cooldown =
    nextCooldown state.cooldown input.decision topology.delays topology.ranges
  spikes : topology.matrix.settle state.spikes next.cooldown (topology.acting state input)
    input.train .forward = .ok next.spikes
  inFlight : next.inFlight =
    nextInFlight state.inFlight (topology.acting state input) input.decision topology.delays
  firing : next.firing =
    firingNeurons (topology.acting state input) input.train topology.ranges

theorem advance_eq_ok_iff {topology : Topology} {state next : State} {input : StepInput} :
    topology.advance state input = .ok next ↔
      ∃ spikes, topology.matrix.settle state.spikes
          (nextCooldown state.cooldown input.decision topology.delays topology.ranges)
          (topology.acting state input) input.train .forward = .ok spikes ∧
        next = {
          spikes
          cooldown := nextCooldown state.cooldown input.decision topology.delays topology.ranges
          inFlight := nextInFlight state.inFlight (topology.acting state input) input.decision
            topology.delays
          firing := firingNeurons (topology.acting state input) input.train topology.ranges } := by
  simp only [advance, bind_eq_ok_iff, acting]
  apply exists_congr
  intro spikes
  apply and_congr_right
  intro _
  exact ⟨fun hnext => (Except.ok.inj hnext).symm, fun hnext => congrArg Except.ok hnext.symm⟩

end Topology

namespace Engine

/-- What the engine reports of a step. -/
def report (engine : Engine) (before after : State) : StepReport :=
  { fired := after.firing.count true
    changes := if engine.tracksChanges then some (.between before after) else none }

theorem forward_eq_ok_iff {engine : Engine} {state next : State} {input : StepInput}
    {report : StepReport} :
    engine.forward state input = .ok (report, next) ↔
      engine.topology.Advances state input next ∧ report = engine.report state next := by
  rw [forward, check_bind_eq_ok_iff, check_bind_eq_ok_iff, bind_eq_ok_iff,
    Topology.checkInput_eq_ok_iff, Topology.checkDecision_eq_ok_iff]
  simp only [Topology.advance_eq_ok_iff]
  constructor
  · rintro ⟨⟨hfits, hinputFits, _⟩, hpermits, next', ⟨spikes, hspikes, rfl⟩, hanswer⟩
    obtain ⟨rfl, rfl⟩ := Prod.mk.inj (Except.ok.inj hanswer)
    exact ⟨⟨hfits, hinputFits, hpermits, rfl, hspikes, rfl, rfl⟩, rfl⟩
  · rintro ⟨⟨hfits, hinputFits, hpermits, hcooldown, hspikes, hinFlight, hfiring⟩, rfl⟩
    refine ⟨⟨hfits, hinputFits, by simp⟩, hpermits, next, ⟨next.spikes, ?_, ?_⟩, rfl⟩
    · rw [← hcooldown]
      exact hspikes
    · rw [← hcooldown, ← hinFlight, ← hfiring]

/-- A request that passes all checks is refused only for a count that cannot be
held. -/
theorem exists_of_forward_eq_error {engine : Engine} {state : State} {input : StepInput}
    {cause : StepError} (hfits : state.Fits engine.topology)
    (hinputFits : input.Fits engine.topology)
    (hpermits : engine.topology.Permits state input.decision)
    (hfail : engine.forward state input = .error cause) :
    ∃ neuron < engine.topology.neuronCount, cause = .spikeOverflow neuron := by
  have hinput : engine.topology.checkInput state input none = .ok () :=
    Topology.checkInput_eq_ok_iff.mpr ⟨hfits, hinputFits, nofun⟩
  have hdecision := Topology.checkDecision_eq_ok_iff.mpr hpermits
  rw [forward, hinput, hdecision] at hfail
  have hsettle := bind_ok_eq_error_iff.mp (bind_ok_eq_error_iff.mp hfail)
  obtain ⟨neuron, hleast, hcause⟩ := (EffectMatrix.settle_eq_error_iff hfits.spikes
    engine.topology.matrix_neurons).mp hsettle
  exact ⟨neuron, hleast.1.1, hcause⟩

/-- Where all vectors fit, a step is refused over its decision or a count. -/
theorem forward_eq_error_cases {engine : Engine} {state : State} {input : StepInput}
    {cause : StepError} (hfits : state.Fits engine.topology)
    (hinputFits : input.Fits engine.topology)
    (hfail : engine.forward state input = .error cause) :
    engine.topology.checkDecision state input.decision = .error cause ∨
      ∃ neuron < engine.topology.neuronCount, cause = .spikeOverflow neuron := by
  cases hdecision : engine.topology.checkDecision state input.decision with
  | ok checked =>
      have hpermits := Topology.checkDecision_eq_ok_iff.mp hdecision
      exact Or.inr (exists_of_forward_eq_error hfits hinputFits hpermits hfail)
  | error refusal =>
      have hinput : engine.topology.checkInput state input none = .ok () :=
        Topology.checkInput_eq_ok_iff.mpr ⟨hfits, hinputFits, nofun⟩
      rw [forward, hinput, hdecision] at hfail
      exact Or.inl (congrArg Except.error (Except.error.inj hfail))

/-- The decision is measured right after the vectors of the state. -/
theorem forward_of_length_ne {engine : Engine} {state : State} {input : StepInput}
    (hfits : state.Fits engine.topology)
    (hlength : input.decision.length ≠ engine.topology.ruleCount) :
    engine.forward state input =
      .error (.lengthMismatch "decision" engine.topology.ruleCount input.decision.length) := by
  have hshape := State.checkShape_eq_ok_iff.mpr hfits
  rw [forward, Topology.checkInput, hshape]
  simp [checkLength, hlength, bind, Except.bind]

end Engine

namespace Topology.Advances

variable {topology : Topology} {state next : State} {input : StepInput} {neuron rule : Nat}

/-- A step keeps all lengths. -/
theorem next_fits (hstep : topology.Advances state input next) : next.Fits topology where
  spikes := (EffectMatrix.settle_eq_ok_iff.mp hstep.spikes).1.trans hstep.fits.spikes
  cooldown := by rw [hstep.cooldown, length_nextCooldown, neuronCount_ranges]
  firing := by rw [hstep.firing, length_firingNeurons, neuronCount_ranges]
  inFlight := by rw [hstep.inFlight, length_nextInFlight, hstep.fits.inFlight]

theorem getD_cooldown (hstep : topology.Advances state input next)
    (hneuron : neuron < topology.neuronCount) :
    next.cooldown.getD neuron 0 =
      if 0 < state.cooldown.getD neuron 0 then
        state.cooldown.getD neuron 0 - 1
      else
        match (topology.ranges.range neuron).firstSet? input.decision with
        | some rule => topology.delays.getD rule 0
        | none => 0 := by
  rw [hstep.cooldown]
  exact getD_map_enumerate hneuron _ 0

/-- A closed neuron counts down. -/
theorem cooldown_of_closed (hstep : topology.Advances state input next)
    (hneuron : neuron < topology.neuronCount) (hclosed : 0 < state.cooldown.getD neuron 0) :
    next.cooldown.getD neuron 0 = state.cooldown.getD neuron 0 - 1 := by
  rw [hstep.getD_cooldown hneuron, if_pos hclosed]

/-- A chosen rule belongs to an open neuron. -/
theorem open_of_chosen (hstep : topology.Advances state input next)
    (howns : topology.Owns neuron rule) (hchosen : input.decision.getD rule false = true) :
    state.cooldown.getD neuron 0 = 0 ∧
      ∀ other, topology.Owns neuron other → state.inFlight.getD other false = false :=
  State.isOpen_eq_true_iff.mp (hstep.permits.opened neuron rule howns hchosen)

/-- A neuron that chooses takes over the delay of its choice. -/
theorem cooldown_of_chosen (hstep : topology.Advances state input next)
    (howns : topology.Owns neuron rule) (hchosen : input.decision.getD rule false = true) :
    next.cooldown.getD neuron 0 = topology.delays.getD rule 0 := by
  have hopen := (hstep.open_of_chosen howns hchosen).1
  rw [hstep.getD_cooldown howns.neuron_lt, if_neg (by rw [hopen]; decide)]
  cases hfirst : (topology.ranges.range neuron).firstSet? input.decision with
  | none =>
      rw [firstSet?_eq_none_iff.mp hfirst rule howns] at hchosen
      contradiction
  | some first =>
      obtain ⟨hfirstOwns, hfirstSet⟩ := owns_of_firstSet? hfirst
      rw [hstep.permits.single neuron first rule hfirstOwns howns hfirstSet hchosen]

/-- An open neuron that chooses nothing stays open. -/
theorem cooldown_of_idle (hstep : topology.Advances state input next)
    (hneuron : neuron < topology.neuronCount) (hopen : state.cooldown.getD neuron 0 = 0)
    (hidle : ∀ rule, topology.Owns neuron rule → input.decision.getD rule false = false) :
    next.cooldown.getD neuron 0 = 0 := by
  rw [hstep.getD_cooldown hneuron, if_neg (by rw [hopen]; decide), firstSet?_eq_none_iff.mpr hidle]

/-- A rule acts when its neuron is open after the step and it was due. -/
theorem acting_iff (hstep : topology.Advances state input next)
    (howns : topology.Owns neuron rule) :
    (topology.acting state input).getD rule false = true ↔
      next.cooldown.getD neuron 0 = 0 ∧
        (input.decision.getD rule false = true ∧ topology.delays.getD rule 0 = 0 ∨
          state.inFlight.getD rule false = true) := by
  rw [acting, getD_actingRules howns, ← hstep.cooldown]
  simp only [Bool.and_eq_true, Bool.or_eq_true, beq_iff_eq]

theorem inFlight_iff (hstep : topology.Advances state input next)
    (howns : topology.Owns neuron rule) :
    next.inFlight.getD rule false = true ↔
      state.inFlight.getD rule false = true ∧
          (topology.acting state input).getD rule false = false ∨
        input.decision.getD rule false = true ∧ 0 < topology.delays.getD rule 0 := by
  have hrule : rule < state.inFlight.length := hstep.fits.inFlight ▸ howns.rule_lt
  have hentry : next.inFlight.getD rule false =
      (state.inFlight.getD rule false && !(topology.acting state input).getD rule false ||
        input.decision.getD rule false && decide (0 < topology.delays.getD rule 0)) := by
    rw [hstep.inFlight, nextInFlight, List.getD_eq_getElem _ _ (by simpa using hrule),
      List.getD_eq_getElem state.inFlight _ hrule]
    simp only [List.getElem_map, List.getElem_zipIdx, Nat.zero_add]
  rw [hentry]
  simp only [Bool.or_eq_true, Bool.and_eq_true, Bool.not_eq_true', decide_eq_true_eq]

theorem firing_iff (hstep : topology.Advances state input next)
    (hneuron : neuron < topology.neuronCount) :
    next.firing.getD neuron false = true ↔
      ∃ rule, topology.Owns neuron rule ∧
        ((topology.acting state input).getD rule false = true ∨ 0 < arrivals input.train rule) := by
  have hentry : next.firing.getD neuron false =
      (topology.ranges.range neuron).any fun rule =>
        (topology.acting state input).getD rule false ||
          decide (0 < arrivals input.train rule) := by
    rw [hstep.firing]
    exact getD_map_enumerate hneuron _ false
  rw [hentry, RuleRange.any_eq_any_rules, List.any_eq_true]
  simp only [Owns, Bool.or_eq_true, decide_eq_true_eq]

/-- The count of a neuron that is open after the step moves by its gain. -/
theorem spikes_of_open (hstep : topology.Advances state input next)
    (hneuron : neuron < topology.neuronCount) (hopen : next.cooldown.getD neuron 0 = 0) :
    (next.spikes.getD neuron 0).toInt = (state.spikes.getD neuron 0).toInt +
      topology.matrix.exactGain neuron (topology.acting state input) input.train := by
  have hentry := (EffectMatrix.settle_eq_ok_iff.mp hstep.spikes).2 neuron
    (hstep.fits.spikes ▸ hneuron)
  rw [if_pos hopen] at hentry
  obtain ⟨gain, hgain, hmoved⟩ := EffectMatrix.settle?_eq_some_iff.mp hentry
  have hrow : neuron < topology.matrix.neurons := topology.matrix_neurons ▸ hneuron
  rw [hmoved, EffectMatrix.eq_exactGain_of_gain? hrow hgain, Direction.apply]

/-- A neuron that is closed after the step keeps its count. -/
theorem spikes_of_closed (hstep : topology.Advances state input next)
    (hneuron : neuron < topology.neuronCount) (hclosed : next.cooldown.getD neuron 0 ≠ 0) :
    next.spikes.getD neuron 0 = state.spikes.getD neuron 0 := by
  have hentry := (EffectMatrix.settle_eq_ok_iff.mp hstep.spikes).2 neuron
    (hstep.fits.spikes ▸ hneuron)
  rwa [if_neg hclosed] at hentry

end Topology.Advances

end SpikingNeuralP
