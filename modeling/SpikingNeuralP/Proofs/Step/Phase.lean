import SpikingNeuralP.Proofs.Step.Advance

/-!
# Phases of a neuron

The cooldown of a neuron and its rules in flight are kept in two vectors that the
stages of a step update separately.  They stay linked: a neuron is closed exactly
while one of its rules is in flight.  From the start on there is never more than
one such rule, and the cooldown never exceeds its delay.
-/

namespace SpikingNeuralP

namespace State

/-- A neuron cools down exactly when one of its rules is in flight. -/
def Coupled (state : State) (topology : Topology) : Prop :=
  ∀ neuron < topology.neuronCount,
    (0 < state.cooldown.getD neuron 0 ↔
      (topology.ranges.range neuron).anySet state.inFlight = true)

instance (state : State) (topology : Topology) : Decidable (state.Coupled topology) :=
  inferInstanceAs (Decidable (∀ neuron < topology.neuronCount,
    (0 < state.cooldown.getD neuron 0 ↔
      (topology.ranges.range neuron).anySet state.inFlight = true)))

/-- The neuron waits for one rule, and no longer than the delay of the rule. -/
structure BusyWith (state : State) (topology : Topology) (neuron rule : Nat) : Prop where
  owns : topology.Owns neuron rule
  inFlight : state.inFlight.getD rule false = true
  only : ∀ other, topology.Owns neuron other → state.inFlight.getD other false = true →
    other = rule
  waits : 0 < state.cooldown.getD neuron 0
  within : state.cooldown.getD neuron 0 ≤ topology.delays.getD rule 0

/-- Every neuron is open or busy with one rule. -/
def Phased (state : State) (topology : Topology) : Prop :=
  ∀ neuron < topology.neuronCount,
    state.isOpen topology neuron = true ∨ ∃ rule, state.BusyWith topology neuron rule

variable {topology : Topology} {state next : State} {input : StepInput} {neuron rule : Nat}

theorem Coupled.waits_iff (hcoupled : state.Coupled topology)
    (hneuron : neuron < topology.neuronCount) :
    0 < state.cooldown.getD neuron 0 ↔
      ∃ rule, topology.Owns neuron rule ∧ state.inFlight.getD rule false = true :=
  (hcoupled neuron hneuron).trans Topology.anySet_eq_true_iff

theorem Phased.coupled (hphased : state.Phased topology) : state.Coupled topology := by
  intro neuron hneuron
  rw [Topology.anySet_eq_true_iff]
  rcases hphased neuron hneuron with hopen | ⟨rule, hbusy⟩
  · obtain ⟨hcooldown, hquiet⟩ := isOpen_eq_true_iff.mp hopen
    constructor
    · intro hwaits
      rw [hcooldown] at hwaits
      contradiction
    · rintro ⟨rule, howns, hflying⟩
      rw [hquiet rule howns] at hflying
      contradiction
  · exact ⟨fun _ => ⟨rule, hbusy.owns, hbusy.inFlight⟩, fun _ => hbusy.waits⟩

theorem phased_initial {spikes : List Int32} (hinitial : initial topology spikes = .ok state) :
    state.Phased topology := by
  obtain ⟨_, hstate⟩ := check_bind_eq_ok_iff.mp hinitial
  obtain rfl := Except.ok.inj hstate
  intro neuron _
  left
  rw [isOpen_eq_true_iff]
  simp only [List.getD_eq_getElem?_getD, List.getElem?_getD_replicate_default_eq, true_and]
  exact fun _ _ => trivial

end State

namespace Topology.Advances

variable {topology : Topology} {state next : State} {input : StepInput} {neuron rule : Nat}

/-- A neuron that waits does not choose. -/
theorem idle_of_closed (hstep : topology.Advances state input next)
    (hclosed : 0 < state.cooldown.getD neuron 0) (howns : topology.Owns neuron rule) :
    input.decision.getD rule false = false := by
  by_contra hchosen
  rw [(hstep.open_of_chosen howns (Bool.eq_true_of_not_eq_false hchosen)).1] at hclosed
  contradiction

/-- A rule of a neuron that waits stays in flight until the neuron opens. -/
theorem inFlight_iff_of_closed (hstep : topology.Advances state input next)
    (hclosed : 0 < state.cooldown.getD neuron 0) (howns : topology.Owns neuron rule) :
    next.inFlight.getD rule false = true ↔
      state.inFlight.getD rule false = true ∧ next.cooldown.getD neuron 0 ≠ 0 := by
  have hidle := hstep.idle_of_closed hclosed howns
  rw [hstep.inFlight_iff howns, ← Bool.not_eq_true, hstep.acting_iff howns, hidle]
  tauto

/-- A rule of an open neuron takes off when it is chosen with a delay. -/
theorem inFlight_iff_of_quiet (hstep : topology.Advances state input next)
    (howns : topology.Owns neuron rule) (hquiet : state.inFlight.getD rule false = false) :
    next.inFlight.getD rule false = true ↔
      input.decision.getD rule false = true ∧ 0 < topology.delays.getD rule 0 := by
  rw [hstep.inFlight_iff howns, hquiet]
  simp

/-- A neuron that waited goes on waiting exactly while its rules stay in flight. -/
theorem waits_iff_of_closed (hstep : topology.Advances state input next)
    (hclosed : 0 < state.cooldown.getD neuron 0) (howns : topology.Owns neuron rule)
    (hflying : state.inFlight.getD rule false = true) :
    0 < next.cooldown.getD neuron 0 ↔
      ∃ other, topology.Owns neuron other ∧ next.inFlight.getD other false = true := by
  rw [UInt32.pos_iff_ne_zero]
  constructor
  · intro hwaits
    exact ⟨rule, howns, (hstep.inFlight_iff_of_closed hclosed howns).mpr ⟨hflying, hwaits⟩⟩
  · rintro ⟨other, hother, hflying'⟩
    exact ((hstep.inFlight_iff_of_closed hclosed hother).mp hflying').2

/-- An open neuron has to wait exactly when it chooses a rule with a delay. -/
theorem waits_iff_of_quiet (hstep : topology.Advances state input next)
    (hneuron : neuron < topology.neuronCount) (hopen : state.cooldown.getD neuron 0 = 0)
    (hquiet : ∀ rule, topology.Owns neuron rule → state.inFlight.getD rule false = false) :
    0 < next.cooldown.getD neuron 0 ↔
      ∃ rule, topology.Owns neuron rule ∧ next.inFlight.getD rule false = true := by
  constructor
  · intro hwaits
    by_contra hnone
    have hidle : ∀ rule, topology.Owns neuron rule → input.decision.getD rule false = false := by
      intro rule howns
      by_contra hchosen
      have hchosen := Bool.eq_true_of_not_eq_false hchosen
      rw [hstep.cooldown_of_chosen howns hchosen] at hwaits
      exact hnone ⟨rule, howns,
        (hstep.inFlight_iff_of_quiet howns (hquiet rule howns)).mpr ⟨hchosen, hwaits⟩⟩
    rw [hstep.cooldown_of_idle hneuron hopen hidle] at hwaits
    contradiction
  · rintro ⟨rule, howns, hflying⟩
    obtain ⟨hchosen, hdelay⟩ :=
      (hstep.inFlight_iff_of_quiet howns (hquiet rule howns)).mp hflying
    rwa [hstep.cooldown_of_chosen howns hchosen]

theorem coupled (hstep : topology.Advances state input next)
    (hcoupled : state.Coupled topology) : next.Coupled topology := by
  intro neuron hneuron
  rw [anySet_eq_true_iff]
  by_cases hclosed : 0 < state.cooldown.getD neuron 0
  · obtain ⟨rule, howns, hflying⟩ := (hcoupled.waits_iff hneuron).mp hclosed
    exact hstep.waits_iff_of_closed hclosed howns hflying
  · refine hstep.waits_iff_of_quiet hneuron ?_ ?_
    · by_contra hcooldown
      exact hclosed (UInt32.pos_iff_ne_zero.mpr hcooldown)
    · intro rule howns
      by_contra hflying
      exact hclosed ((hcoupled.waits_iff hneuron).mpr
        ⟨rule, howns, Bool.eq_true_of_not_eq_false hflying⟩)

/-- A rule acts when it is chosen and has no delay, or when it is in flight and
the last step of its neuron's wait is done. -/
theorem acting_iff_due (hstep : topology.Advances state input next)
    (hcoupled : state.Coupled topology) (howns : topology.Owns neuron rule) :
    (topology.acting state input).getD rule false = true ↔
      input.decision.getD rule false = true ∧ topology.delays.getD rule 0 = 0 ∨
        state.inFlight.getD rule false = true ∧ state.cooldown.getD neuron 0 = 1 := by
  rw [hstep.acting_iff howns]
  have hcountdown : state.inFlight.getD rule false = true →
      next.cooldown.getD neuron 0 = state.cooldown.getD neuron 0 - 1 ∧
        0 < state.cooldown.getD neuron 0 := by
    intro hflying
    have hwaits := (hcoupled.waits_iff howns.neuron_lt).mpr ⟨rule, howns, hflying⟩
    exact ⟨hstep.cooldown_of_closed howns.neuron_lt hwaits, hwaits⟩
  constructor
  · rintro ⟨hopen, hprompt | hflying⟩
    · exact Or.inl hprompt
    · obtain ⟨hcooldown, hwaits⟩ := hcountdown hflying
      exact Or.inr ⟨hflying, by grind⟩
  · rintro (⟨hchosen, hdelay⟩ | ⟨hflying, hdue⟩)
    · exact ⟨(hstep.cooldown_of_chosen howns hchosen).trans hdelay, Or.inl ⟨hchosen, hdelay⟩⟩
    · refine ⟨?_, Or.inr hflying⟩
      rw [(hcountdown hflying).1, hdue]
      rfl

/-- No two rules of a neuron act in the same step. -/
theorem acting_unique (hstep : topology.Advances state input next)
    (hphased : state.Phased topology) {other : Nat} (howns : topology.Owns neuron rule)
    (hother : topology.Owns neuron other)
    (hacting : (topology.acting state input).getD rule false = true)
    (hacting' : (topology.acting state input).getD other false = true) : rule = other := by
  rw [hstep.acting_iff_due hphased.coupled howns] at hacting
  rw [hstep.acting_iff_due hphased.coupled hother] at hacting'
  rcases hphased neuron howns.neuron_lt with hopen | ⟨waiting, hbusy⟩
  · -- Nothing of an open neuron is in flight, so both rules were chosen.
    have hquiet := (State.isOpen_eq_true_iff.mp hopen).2
    rw [hquiet rule howns] at hacting
    rw [hquiet other hother] at hacting'
    simp only [Bool.false_eq_true, false_and, or_false] at hacting hacting'
    exact hstep.permits.single neuron rule other howns hother hacting.1 hacting'.1
  · -- A busy neuron does not choose, so both rules were in flight.
    rw [hstep.idle_of_closed hbusy.waits howns] at hacting
    rw [hstep.idle_of_closed hbusy.waits hother] at hacting'
    simp only [Bool.false_eq_true, false_and, false_or] at hacting hacting'
    rw [hbusy.only rule howns hacting.1, hbusy.only other hother hacting'.1]

/-- A neuron whose wait is over opens. -/
theorem opens_of_busy (hstep : topology.Advances state input next)
    (hbusy : state.BusyWith topology neuron rule) (hdue : state.cooldown.getD neuron 0 = 1) :
    next.isOpen topology neuron = true := by
  have hcooldown : next.cooldown.getD neuron 0 = 0 := by
    rw [hstep.cooldown_of_closed hbusy.owns.neuron_lt hbusy.waits, hdue]
    rfl
  refine State.isOpen_eq_true_iff.mpr ⟨hcooldown, fun other hother => ?_⟩
  rw [← Bool.not_eq_true, hstep.inFlight_iff_of_closed hbusy.waits hother]
  exact fun hflying => hflying.2 hcooldown

/-- A neuron with more than one step to wait stays busy with its rule. -/
theorem stays_busy (hstep : topology.Advances state input next)
    (hbusy : state.BusyWith topology neuron rule) (hdue : state.cooldown.getD neuron 0 ≠ 1) :
    next.BusyWith topology neuron rule := by
  have hcooldown := hstep.cooldown_of_closed hbusy.owns.neuron_lt hbusy.waits
  have hwaits : 0 < next.cooldown.getD neuron 0 := by
    rw [hcooldown]
    have := hbusy.waits
    grind
  refine ⟨hbusy.owns, ?_, fun other hother hflying => ?_, hwaits, ?_⟩
  · exact (hstep.inFlight_iff_of_closed hbusy.waits hbusy.owns).mpr
      ⟨hbusy.inFlight, UInt32.pos_iff_ne_zero.mp hwaits⟩
  · exact hbusy.only other hother
      ((hstep.inFlight_iff_of_closed hbusy.waits hother).mp hflying).1
  · rw [hcooldown]
    have := hbusy.waits
    have := hbusy.within
    grind

/-- An open neuron that chooses a rule with a delay is busy with it afterwards. -/
theorem busy_of_chosen (hstep : topology.Advances state input next)
    (howns : topology.Owns neuron rule) (hchosen : input.decision.getD rule false = true)
    (hdelay : 0 < topology.delays.getD rule 0) : next.BusyWith topology neuron rule := by
  have hquiet := (hstep.open_of_chosen howns hchosen).2
  have hcooldown := hstep.cooldown_of_chosen howns hchosen
  refine ⟨howns, ?_, fun other hother hflying => ?_, ?_, ?_⟩
  · exact (hstep.inFlight_iff_of_quiet howns (hquiet rule howns)).mpr ⟨hchosen, hdelay⟩
  · have hother' := (hstep.inFlight_iff_of_quiet hother (hquiet other hother)).mp hflying
    exact hstep.permits.single neuron other rule hother howns hother'.1 hchosen
  · rwa [hcooldown]
  · rw [hcooldown]
    exact UInt32.le_refl _

/-- An open neuron stays open unless it chooses a rule with a delay. -/
theorem stays_open (hstep : topology.Advances state input next)
    (hneuron : neuron < topology.neuronCount) (hopen : state.isOpen topology neuron = true)
    (hprompt : ∀ rule, topology.Owns neuron rule → input.decision.getD rule false = true →
      topology.delays.getD rule 0 = 0) : next.isOpen topology neuron = true := by
  obtain ⟨hcooldown, hquiet⟩ := State.isOpen_eq_true_iff.mp hopen
  refine State.isOpen_eq_true_iff.mpr ⟨?_, fun other hother => ?_⟩
  · by_cases hidle : ∀ rule, topology.Owns neuron rule → input.decision.getD rule false = false
    · exact hstep.cooldown_of_idle hneuron hcooldown hidle
    · push Not at hidle
      obtain ⟨rule, howns, hchosen⟩ := hidle
      have hchosen := Bool.eq_true_of_not_eq_false hchosen
      rw [hstep.cooldown_of_chosen howns hchosen, hprompt rule howns hchosen]
  · rw [← Bool.not_eq_true, hstep.inFlight_iff_of_quiet hother (hquiet other hother)]
    rintro ⟨hchosen, hdelay⟩
    rw [hprompt other hother hchosen] at hdelay
    contradiction

theorem phased (hstep : topology.Advances state input next) (hphased : state.Phased topology) :
    next.Phased topology := by
  intro neuron hneuron
  rcases hphased neuron hneuron with hopen | ⟨rule, hbusy⟩
  · by_cases hprompt : ∀ rule, topology.Owns neuron rule →
        input.decision.getD rule false = true → topology.delays.getD rule 0 = 0
    · exact Or.inl (hstep.stays_open hneuron hopen hprompt)
    · push Not at hprompt
      obtain ⟨rule, howns, hchosen, hdelay⟩ := hprompt
      exact Or.inr ⟨rule, hstep.busy_of_chosen howns hchosen (UInt32.pos_iff_ne_zero.mpr hdelay)⟩
  · by_cases hdue : state.cooldown.getD neuron 0 = 1
    · exact Or.inl (hstep.opens_of_busy hbusy hdue)
    · exact Or.inr ⟨rule, hstep.stays_busy hbusy hdue⟩

end Topology.Advances

end SpikingNeuralP
