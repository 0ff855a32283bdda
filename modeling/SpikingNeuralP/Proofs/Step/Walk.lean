import SpikingNeuralP.Proofs.Step.RoundTrip

/-!
# Walks forward and back

A walk takes steps forward and takes the latest of them back, in any order.  A
step that is taken back leads to the state it started from, except that the
firing neurons stay.  So every state of a walk is, the firing neurons left aside,
one that steps forward alone lead to, and what these keep holds on the whole walk:
every neuron is either open or busy with one rule.
-/

namespace SpikingNeuralP

namespace State

/-- All vectors fit, every neuron is in exactly one of its two phases, and the
cooldown alone tells in which. -/
structure WellPhased (state : State) (topology : Topology) : Prop where
  fits : state.Fits topology
  phases : ∀ neuron < topology.neuronCount,
    Xor
      (state.cooldown.getD neuron 0 = 0 ∧
        ∀ rule, topology.Owns neuron rule → state.inFlight.getD rule false = false)
      (∃ rule, state.BusyWith topology neuron rule)
  isOpen_iff : ∀ neuron < topology.neuronCount,
    (state.isOpen topology neuron = true ↔ state.cooldown.getD neuron 0 = 0)
  anyInFlight_iff : state.anyInFlight = true ↔ ∃ remaining ∈ state.cooldown, remaining ≠ 0

variable {topology : Topology} {state : State} {neuron rule : Nat}

theorem fits_initial {spikes : List Int32} (hinitial : initial topology spikes = .ok state) :
    state.Fits topology := by
  obtain ⟨hlength, hstate⟩ := check_bind_eq_ok_iff.mp hinitial
  have hlength := checkLength_eq_ok_iff.mp hlength
  obtain rfl := Except.ok.inj hstate
  exact ⟨hlength, by simpa using hlength, by simpa using hlength, by simp⟩

/-- The firing neurons take no part in the phases. -/
theorem Phased.withFiring (hphased : state.Phased topology) (firing : List Bool) :
    ({ state with firing } : State).Phased topology := by
  intro neuron hneuron
  rcases hphased neuron hneuron with hopen | ⟨rule, hbusy⟩
  · exact Or.inl hopen
  · exact Or.inr ⟨rule, { hbusy with }⟩

theorem BusyWith.cooldown_ne_zero (hbusy : state.BusyWith topology neuron rule) :
    state.cooldown.getD neuron 0 ≠ 0 :=
  UInt32.pos_iff_ne_zero.mp hbusy.waits

/-- A rule is in flight somewhere exactly when a neuron is cooling down. -/
theorem anyInFlight_iff_of_coupled (hfits : state.Fits topology)
    (hcoupled : state.Coupled topology) :
    state.anyInFlight = true ↔ ∃ remaining ∈ state.cooldown, remaining ≠ 0 := by
  have hflags : state.anyInFlight = true ↔
      ∃ rule < state.inFlight.length, state.inFlight.getD rule false = true := by
    rw [anyInFlight, List.any_eq_true]
    exact exists_mem_iff_getD false
  rw [hflags, exists_mem_iff_getD 0]
  constructor
  · rintro ⟨rule, hrule, hflying⟩
    obtain ⟨neuron, howns⟩ := Topology.exists_owns (hfits.inFlight ▸ hrule)
    refine ⟨neuron, hfits.cooldown ▸ howns.neuron_lt, UInt32.pos_iff_ne_zero.mp ?_⟩
    exact (hcoupled.waits_iff howns.neuron_lt).mpr ⟨rule, howns, hflying⟩
  · rintro ⟨neuron, hneuron, hwaits⟩
    obtain ⟨rule, howns, hflying⟩ := (hcoupled.waits_iff (hfits.cooldown ▸ hneuron)).mp
      (UInt32.pos_iff_ne_zero.mpr hwaits)
    exact ⟨rule, hfits.inFlight ▸ howns.rule_lt, hflying⟩

theorem Phased.wellPhased (hphased : state.Phased topology) (hfits : state.Fits topology) :
    state.WellPhased topology where
  fits := hfits
  phases neuron hneuron := by
    rcases hphased neuron hneuron with hopen | ⟨rule, hbusy⟩
    · have hidle := isOpen_eq_true_iff.mp hopen
      exact Or.inl ⟨hidle, fun ⟨_, hbusy⟩ => hbusy.cooldown_ne_zero hidle.1⟩
    · exact Or.inr ⟨⟨rule, hbusy⟩, fun hidle => hbusy.cooldown_ne_zero hidle.1⟩
  isOpen_iff neuron hneuron := by
    rcases hphased neuron hneuron with hopen | ⟨rule, hbusy⟩
    · exact ⟨fun hopen => (isOpen_eq_true_iff.mp hopen).1, fun _ => hopen⟩
    · exact ⟨fun hopen => (isOpen_eq_true_iff.mp hopen).1,
        fun hcooldown => absurd hcooldown hbusy.cooldown_ne_zero⟩
  anyInFlight_iff := anyInFlight_iff_of_coupled hfits hphased.coupled

end State

namespace Engine

/-- The states that accepted steps lead to when they may be taken back, the latest
first.  The list holds what is kept of the steps not taken back, the latest
first. -/
inductive Walks (engine : Engine) (start : State) : List PastStep → State → Prop
  | start : Walks engine start [] start
  | forward {pasts : List PastStep} {state next : State} {report : StepReport}
      (hwalks : Walks engine start pasts state) (input : StepInput)
      (hforward : engine.forward state input = .ok (report, next)) :
      Walks engine start ({ input, inFlight := state.inFlight } :: pasts) next
  | backward {pasts : List PastStep} {past : PastStep} {state before : State}
      (hwalks : Walks engine start (past :: pasts) state)
      (hbackward : engine.backward state past = .ok before) : Walks engine start pasts before

/-- The states that steps forward alone lead to, with any neurons marked as firing
after a step. -/
inductive Leads (topology : Topology) (start : State) : List PastStep → State → Prop
  | start {firing : List Bool} (hfiring : firing.length = topology.neuronCount) :
      Leads topology start [] { start with firing }
  | step {pasts : List PastStep} {before next : State} {input : StepInput}
      {firing : List Bool} (hleads : Leads topology start pasts before)
      (hstep : topology.Advances before input next)
      (hfiring : firing.length = topology.neuronCount) :
      Leads topology start ({ input, inFlight := before.inFlight } :: pasts)
        { next with firing }

variable {engine : Engine} {topology : Topology} {start state : State} {pasts : List PastStep}

theorem Leads.withFiring (hleads : Leads topology start pasts state) {firing : List Bool}
    (hfiring : firing.length = topology.neuronCount) :
    Leads topology start pasts { state with firing } := by
  cases hleads with
  | start => exact .start hfiring
  | step hleads hstep => exact (Leads.step hleads hstep hfiring :)

theorem Leads.fits (hleads : Leads topology start pasts state) (hstart : start.Fits topology) :
    state.Fits topology := by
  cases hleads with
  | start hfiring => exact { hstart with firing := hfiring }
  | step hleads hstep hfiring => exact { hstep.next_fits with firing := hfiring }

theorem Leads.phased (hleads : Leads topology start pasts state)
    (hstart : start.Phased topology) : state.Phased topology := by
  induction hleads with
  | start hfiring => exact hstart.withFiring _
  | step hleads hstep hfiring ih => exact (hstep.phased ih).withFiring _

/-- A step back on a walk meets the state before the step again, so the walk goes
on as if the step had not been taken. -/
theorem Walks.leads (hwalks : engine.Walks start pasts state)
    (hfits : start.Fits engine.topology) (hphased : start.Phased engine.topology) :
    Leads engine.topology start pasts state := by
  induction hwalks with
  | start => exact Leads.start hfits.firing
  | forward hwalks input hforward ih =>
      have hstep := (forward_eq_ok_iff.mp hforward).1
      exact Leads.step ih hstep hstep.next_fits.firing
  | backward hwalks hbackward ih =>
      cases ih with
      | step hleads hstep hfiring =>
          rw [backward_of_advances hstep (hleads.phased hphased).coupled hfiring] at hbackward
          obtain rfl := Except.ok.inj hbackward
          exact hleads.withFiring hfiring

/-- On every walk from an initial state the vectors keep their lengths and every
neuron is in exactly one phase: open with nothing in flight, or busy with exactly
one rule and closed for no longer than its delay. -/
theorem wellPhased_of_walks {spikes : List Int32}
    (hinitial : State.initial engine.topology spikes = .ok start)
    (hwalks : engine.Walks start pasts state) : state.WellPhased engine.topology := by
  have hfits := State.fits_initial hinitial
  have hphased := State.phased_initial hinitial
  have hleads := hwalks.leads hfits hphased
  exact (hleads.phased hphased).wellPhased (hleads.fits hfits)

def restingState : State where
  spikes := [5, 3, 4]
  cooldown := [0, 0, 0]
  inFlight := [false, false, false]
  firing := [false, false, false]

/-- Neuron 1 goes into the longest wait there is, its first step of waiting is
taken back, and another one is taken in which neuron 2 chooses as well. -/
theorem wellPhased_of_walks_strained :
    ∃ pasts state,
      State.initial strainedEngine.topology [5, 3, 4] = .ok restingState ∧
        strainedEngine.Walks restingState pasts state ∧
        state.cooldown = [0, 4294967294, 1] ∧ state.inFlight = [false, true, true] ∧
        state.WellPhased strainedEngine.topology := by
  have hinitial : State.initial strainedEngine.topology [5, 3, 4] = .ok restingState := rfl
  have hresting : strainedEngine.Walks restingState [] restingState := .start
  have hchosen := hresting.forward ⟨[false, true, false], some [0, 7, 0]⟩ rfl
  have hwaited := hchosen.forward ⟨[true, false, false], none⟩ rfl
  have hundone := hwaited.backward rfl
  have hwalks := hundone.forward ⟨[false, false, true], none⟩ rfl
  exact ⟨_, _, hinitial, hwalks, rfl, rfl, wellPhased_of_walks hinitial hwalks⟩

end Engine

end SpikingNeuralP
