import SpikingNeuralP.Proofs.Step.Phase

/-!
# Steps at rest

When no neuron is closed, no rule is in flight and nothing is chosen, a step
without arriving spikes is accepted and moves nothing: no rule acts, so every gain
is zero.
-/

namespace SpikingNeuralP

/-- From one state to the other no count, no cooldown and no rule in flight
changes, and no neuron fires. -/
structure State.RestsIn (before after : State) : Prop where
  spikes : after.spikes = before.spikes
  cooldown : after.cooldown = before.cooldown
  inFlight : after.inFlight = before.inFlight
  silent : ∀ fired ∈ after.firing, fired = false

/-- No neuron is closed and no rule waits for its release. -/
structure State.Quiet (state : State) : Prop where
  opened : ∀ remaining ∈ state.cooldown, remaining = 0
  landed : ∀ flying ∈ state.inFlight, flying = false

/-- A total to which no rule contributes stays as it is. -/
theorem gainFrom_of_silent {acting : List Bool} {train : Option (List UInt32)}
    (hsilent : ∀ rule, multiplicity acting train rule = 0) (rule : Nat) (total : Int)
    (cells : List Int32) : gainFrom acting train rule total cells = some total := by
  induction cells generalizing rule with
  | nil => rfl
  | cons cell cells ih =>
      rw [gainFrom]
      split
      case isTrue => exact ih (rule + 1)
      case isFalse =>
        dsimp only
        rw [if_pos (hsilent rule)]
        exact ih (rule + 1)

theorem EffectMatrix.settle_of_silent {matrix : EffectMatrix} {acting : List Bool}
    {train : Option (List UInt32)} (hsilent : ∀ rule, multiplicity acting train rule = 0)
    (spikes : List Int32) (cooldown : List UInt32) :
    matrix.settle spikes cooldown acting train .forward = .ok spikes := by
  refine settle_eq_ok_iff.mpr ⟨rfl, fun neuron _ => ?_⟩
  split
  case isTrue =>
    refine settle?_eq_some_iff.mpr ⟨0, gainFrom_of_silent hsilent 0 0 _, ?_⟩
    rw [Direction.apply, Int.add_zero]
  case isFalse => rfl

namespace State.Quiet

variable {topology : Topology} {state next : State} {decision : List Bool}

/-- Without a choice and without a rule in flight no rule acts. -/
theorem acting_eq_false (hquiet : state.Quiet) (hidle : ∀ rule, decision.getD rule false = false)
    (train : Option (List UInt32)) (rule : Nat) :
    (topology.acting state { decision, train }).getD rule false = false := by
  apply getD_eq_of_forall_mem
  intro flag hflag
  simp only [Topology.acting, actingRules, List.mem_flatMap, List.mem_map] at hflag
  obtain ⟨_, _, rule, _, rfl⟩ := hflag
  rw [hidle rule, getD_eq_of_forall_mem hquiet.landed rule]
  simp

theorem multiplicity_eq_zero (hquiet : state.Quiet)
    (hidle : ∀ rule, decision.getD rule false = false) (rule : Nat) :
    multiplicity (topology.acting state { decision, train := none }) none rule = 0 := by
  rw [multiplicity, hquiet.acting_eq_false hidle]
  rfl

theorem exists_advances (hquiet : state.Quiet) (hfits : state.Fits topology)
    (hlength : decision.length = topology.ruleCount)
    (hidle : ∀ rule, decision.getD rule false = false) :
    ∃ next, topology.Advances state { decision, train := none } next := by
  have hpermits : topology.Permits state decision := by
    constructor
    · intro _ rule _ _ _ hchosen
      rw [hidle rule] at hchosen
      contradiction
    · intro _ rule _ hchosen
      rw [hidle rule] at hchosen
      contradiction
  refine ⟨{
    spikes := state.spikes
    cooldown := nextCooldown state.cooldown decision topology.delays topology.ranges
    inFlight := nextInFlight state.inFlight (topology.acting state { decision, train := none })
      decision topology.delays
    firing := firingNeurons (topology.acting state { decision, train := none }) none
      topology.ranges }, hfits, ⟨hlength, nofun⟩, hpermits, rfl, ?_, rfl, rfl⟩
  exact EffectMatrix.settle_of_silent (hquiet.multiplicity_eq_zero hidle) _ _

theorem restsIn (hquiet : state.Quiet) (hidle : ∀ rule, decision.getD rule false = false)
    (hstep : topology.Advances state { decision, train := none } next) :
    state.RestsIn next := by
  have hnext := hstep.next_fits
  refine ⟨?_, ?_, ?_, ?_⟩
  · have hsettle := hstep.spikes
    rw [EffectMatrix.settle_of_silent (hquiet.multiplicity_eq_zero hidle)] at hsettle
    exact (Except.ok.inj hsettle).symm
  · apply eq_of_getD_eq (hnext.cooldown.trans hstep.fits.cooldown.symm) 0
    intro neuron hneuron
    have hopen := getD_eq_of_forall_mem hquiet.opened neuron
    rw [hstep.cooldown_of_idle (hnext.cooldown ▸ hneuron) hopen fun rule _ => hidle rule, hopen]
  · apply eq_of_getD_eq (hnext.inFlight.trans hstep.fits.inFlight.symm) false
    intro rule hrule
    obtain ⟨neuron, howns⟩ := Topology.exists_owns (hnext.inFlight ▸ hrule)
    have hlanded := getD_eq_of_forall_mem hquiet.landed rule
    rw [hlanded, ← Bool.not_eq_true, hstep.inFlight_iff_of_quiet howns hlanded, hidle rule]
    exact fun hflying => Bool.false_ne_true hflying.1
  · intro fired hfired
    obtain ⟨neuron, hneuron, rfl⟩ := List.getElem_of_mem hfired
    rw [← List.getD_eq_getElem _ false hneuron, ← Bool.not_eq_true,
      hstep.firing_iff (hnext.firing ▸ hneuron)]
    rintro ⟨rule, _, hacts | harrives⟩
    · rw [hquiet.acting_eq_false hidle] at hacts
      contradiction
    · contradiction

end State.Quiet

end SpikingNeuralP
