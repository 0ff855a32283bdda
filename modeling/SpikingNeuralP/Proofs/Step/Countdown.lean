import Mathlib.Algebra.BigOperators.Ring.Finset
import Mathlib.Algebra.BigOperators.Ring.List
import SpikingNeuralP.Proofs.Step.RoundTrip

/-!
# The countdown of a delayed rule

A rule that is chosen with a delay closes its neuron.  From then on the cooldown
and the number of steps done add up to the delay, whatever other neurons do, and
nothing can be chosen in the neuron.  In the step that brings the cooldown to zero
the rule acts, alone in its neuron, and the neuron is open again.
-/

namespace SpikingNeuralP

section Gain

variable {acting : List Bool} {train : Option (List UInt32)} {rule : Nat}

theorem multiplicity_of_acting (hacting : acting.getD rule false = true) (other : Nat) :
    multiplicity acting train other =
      multiplicity (acting.set rule false) train other + if other = rule then 1 else 0 := by
  have hrule : rule < acting.length := lt_length_of_getD hacting
  rw [multiplicity, multiplicity]
  by_cases hsame : other = rule
  · subst hsame
    have hcleared : (acting.set other false).getD other false = false := by
      simp [List.getD_eq_getElem?_getD, hrule]
    rw [hacting, hcleared, if_pos rfl]
    simp only [Bool.toNat_true, Bool.toNat_false]
    omega
  · have hkept : (acting.set rule false).getD other false = acting.getD other false := by
      rw [List.getD_eq_getElem?_getD, List.getElem?_set_ne (Ne.symm hsame),
        List.getD_eq_getElem?_getD]
    rw [hkept, if_neg hsame, Nat.add_zero]

/-- A rule that acts contributes its cell once, on top of what the neuron gains
without it. -/
theorem EffectMatrix.exactGain_of_acting {matrix : EffectMatrix} (hrule : rule < matrix.rules)
    (hacting : acting.getD rule false = true) (neuron : Nat) :
    matrix.exactGain neuron acting train =
      (matrix.cell neuron rule).toInt +
        matrix.exactGain neuron (acting.set rule false) train := by
  have hterm : ∀ other ∈ List.range matrix.rules,
      (multiplicity acting train other : Int) * (matrix.cell neuron other).toInt =
        (if other = rule then (matrix.cell neuron rule).toInt else 0) +
          (multiplicity (acting.set rule false) train other : Int) *
            (matrix.cell neuron other).toInt := by
    intro other _
    rw [multiplicity_of_acting hacting]
    split
    case isTrue hsame =>
      subst hsame
      push_cast
      rw [Int.add_mul, Int.one_mul, Int.add_comm]
    case isFalse => rw [Nat.add_zero, Int.zero_add]
  calc
    matrix.exactGain neuron acting train =
        ((List.range matrix.rules).map fun other =>
          (if other = rule then (matrix.cell neuron rule).toInt else 0) +
            (multiplicity (acting.set rule false) train other : Int) *
              (matrix.cell neuron other).toInt).sum := by
      rw [exactGain, List.map_congr_left hterm]
    _ = (matrix.cell neuron rule).toInt +
          matrix.exactGain neuron (acting.set rule false) train := by
      rw [List.sum_map_add, List.sum_map_ite_eq, List.count_eq_one_of_mem List.nodup_range
        (List.mem_range.mpr hrule), exactGain]
      simp

end Gain

namespace Topology

/-- No rule of the neuron acts in the step. -/
def Silent (topology : Topology) (neuron : Nat) (state : State) (input : StepInput) : Prop :=
  ∀ rule, topology.Owns neuron rule → (topology.acting state input).getD rule false = false

/-- In the step from `due` to `next` the rule acts after its wait, alone in its
neuron, and the neuron opens. -/
structure Releases (topology : Topology) (neuron rule : Nat) (due : State) (input : StepInput)
    (next : State) : Prop where
  acts : (topology.acting due input).getD rule false = true
  alone : ∀ other, topology.Owns neuron other →
    (topology.acting due input).getD other false = true → other = rule
  fires : next.firing.getD neuron false = true
  /-- Every neuron that is open afterwards gains the cell of the rule once, besides
  what it gains in a step in which the rule does not act. -/
  delivers : ∀ target < topology.neuronCount, next.cooldown.getD target 0 = 0 →
    (next.spikes.getD target 0).toInt = (due.spikes.getD target 0).toInt +
      ((topology.matrix.cell target rule).toInt +
        topology.matrix.exactGain target ((topology.acting due input).set rule false) input.train)
  opens : next.cooldown.getD neuron 0 = 0
  lands : ∀ other, topology.Owns neuron other → next.inFlight.getD other false = false

namespace Advances

variable {topology : Topology} {state next : State} {input : StepInput} {neuron rule : Nat}

/-- Nothing acts in a neuron that is closed after the step. -/
theorem silent_of_waits (hstep : topology.Advances state input next)
    (hwaits : 0 < next.cooldown.getD neuron 0) : topology.Silent neuron state input := by
  intro rule howns
  rw [← Bool.not_eq_true, hstep.acting_iff howns]
  exact fun hacts => UInt32.pos_iff_ne_zero.mp hwaits hacts.1

/-- A step of the wait takes one from the cooldown. -/
theorem toNat_cooldown_of_busy (hstep : topology.Advances state input next)
    (hbusy : state.BusyWith topology neuron rule) :
    (next.cooldown.getD neuron 0).toNat + 1 = (state.cooldown.getD neuron 0).toNat := by
  have hwaits : 1 ≤ (state.cooldown.getD neuron 0).toNat := UInt32.lt_iff_toNat_lt.mp hbusy.waits
  have hone : (1 : UInt32) ≤ state.cooldown.getD neuron 0 := UInt32.le_iff_toNat_le.mpr hwaits
  rw [hstep.cooldown_of_closed hbusy.owns.neuron_lt hbusy.waits, UInt32.toNat_sub_of_le _ _ hone]
  exact Nat.sub_add_cancel hwaits

theorem releases_of_busy (hstep : topology.Advances state input next)
    (hbusy : state.BusyWith topology neuron rule) (hdue : state.cooldown.getD neuron 0 = 1) :
    topology.Releases neuron rule state input next := by
  obtain ⟨hopens, hlands⟩ := State.isOpen_eq_true_iff.mp (hstep.opens_of_busy hbusy hdue)
  have hacts : (topology.acting state input).getD rule false = true :=
    (hstep.acting_iff hbusy.owns).mpr ⟨hopens, Or.inr hbusy.inFlight⟩
  refine ⟨hacts, ?_, ?_, ?_, hopens, hlands⟩
  · intro other hother hacts'
    rw [hstep.acting_iff hother, hstep.idle_of_closed hbusy.waits hother] at hacts'
    rcases hacts'.2 with ⟨hchosen, _⟩ | hflying
    · contradiction
    · exact hbusy.only other hother hflying
  · exact (hstep.firing_iff hbusy.owns.neuron_lt).mpr ⟨rule, hbusy.owns, Or.inl hacts⟩
  · intro target htarget hopen
    have hrule : rule < topology.matrix.rules := topology.rules_matrix ▸ hbusy.owns.rule_lt
    rw [hstep.spikes_of_open htarget hopen, EffectMatrix.exactGain_of_acting hrule hacts]

end Advances

end Topology

namespace Engine

/-- The state of a run after some of its steps. -/
def stateAfter (states : List State) (last : State) (done : Nat) : State :=
  states.getD done last

variable {engine : Engine} {state next last : State} {input : StepInput}
  {inputs : List StepInput} {states : List State} {neuron rule done : Nat}

theorem stateAfter_zero (hrun : engine.forwardRun state inputs = .ok (states, last)) :
    stateAfter states last 0 = state := by
  cases inputs with
  | nil =>
      obtain ⟨rfl, rfl⟩ := Prod.mk.inj (Except.ok.inj hrun)
      rfl
  | cons input inputs =>
      obtain ⟨_, later, _, _, rfl⟩ := forwardRun_cons_eq_ok_iff.mp hrun
      rfl

/-- Each step of a run leads from the state after the steps before it to the state
after it. -/
theorem advances_of_forwardRun (hrun : engine.forwardRun state inputs = .ok (states, last))
    (hinput : inputs[done]? = some input) :
    engine.topology.Advances (stateAfter states last done) input
      (stateAfter states last (done + 1)) := by
  induction inputs generalizing state states done with
  | nil => simp at hinput
  | cons first inputs ih =>
      obtain ⟨next, later, hstep, hlater, rfl⟩ := forwardRun_cons_eq_ok_iff.mp hrun
      cases done with
      | zero =>
          obtain rfl : first = input := by simpa using hinput
          have hnext : stateAfter (state :: later) last 1 = next := stateAfter_zero hlater
          rw [hnext]
          exact hstep
      | succ done =>
          have hinput : inputs[done]? = some input := by simpa using hinput
          have hrest := ih hlater hinput
          exact hrest

theorem stateAfter_length (hrun : engine.forwardRun state inputs = .ok (states, last)) :
    stateAfter states last inputs.length = last := by
  induction inputs generalizing state states with
  | nil =>
      obtain ⟨rfl, rfl⟩ := Prod.mk.inj (Except.ok.inj hrun)
      rfl
  | cons input inputs ih =>
      obtain ⟨next, later, _, hlater, rfl⟩ := forwardRun_cons_eq_ok_iff.mp hrun
      exact ih hlater

/-- Whatever is chosen in a neuron that waits is refused. -/
theorem forward_refused_of_waits (hwaits : 0 < state.cooldown.getD neuron 0)
    (howns : engine.topology.Owns neuron rule) (hchosen : input.decision.getD rule false = true) :
    ∃ cause, engine.forward state input = .error cause := by
  cases hforward : engine.forward state input with
  | error cause => exact ⟨cause, rfl⟩
  | ok accepted =>
      have hstep := (forward_eq_ok_iff.mp hforward).1
      rw [hstep.idle_of_closed hwaits howns] at hchosen
      contradiction

/-- What happens to a rule that is chosen with the given delay in a step from
`before`, in the steps that follow: `states` are the states they start from, in
order, and `last` is the state after them. -/
structure RunsCourse (engine : Engine) (neuron rule delay : Nat) (before : State)
    (choice : StepInput) (inputs : List StepInput) (states : List State) (last : State) :
    Prop where
  /-- The rule is the only one of its neuron in flight. -/
  busy : ∀ done < delay, (stateAfter states last done).BusyWith engine.topology neuron rule
  countdown : ∀ done < delay,
    ((stateAfter states last done).cooldown.getD neuron 0).toNat + done = delay
  keeps : ∀ done < delay,
    (stateAfter states last done).spikes.getD neuron 0 = before.spikes.getD neuron 0
  refuses : ∀ done < delay, ∀ (request : StepInput) (other : Nat),
    engine.topology.Owns neuron other → request.decision.getD other false = true →
      ∃ cause, engine.forward (stateAfter states last done) request = .error cause
  silentChoice : engine.topology.Silent neuron before choice
  silent : ∀ (done : Nat) (input : StepInput), done + 1 < delay → inputs[done]? = some input →
    engine.topology.Silent neuron (stateAfter states last done) input
  releases : ∃ input, inputs[delay - 1]? = some input ∧
    engine.topology.Releases neuron rule (stateAfter states last (delay - 1)) input last

/-- The cooldown and the steps done add up to what the cooldown was at first. -/
theorem countdown_of_busy (hrun : engine.forwardRun state inputs = .ok (states, last))
    (hbusy : state.BusyWith engine.topology neuron rule)
    (hlength : inputs.length = (state.cooldown.getD neuron 0).toNat)
    (hdone : done < inputs.length) :
    (stateAfter states last done).BusyWith engine.topology neuron rule ∧
      ((stateAfter states last done).cooldown.getD neuron 0).toNat + done = inputs.length ∧
      (stateAfter states last done).spikes.getD neuron 0 = state.spikes.getD neuron 0 := by
  induction done with
  | zero =>
      rw [stateAfter_zero hrun]
      exact ⟨hbusy, hlength.symm, rfl⟩
  | succ done ih =>
      obtain ⟨hbusy, hcount, hspikes⟩ := ih (Nat.lt_of_succ_lt hdone)
      have hstep := advances_of_forwardRun hrun
        (List.getElem?_eq_getElem (Nat.lt_of_succ_lt hdone))
      have hcooldown := hstep.toNat_cooldown_of_busy hbusy
      have hdue : (stateAfter states last done).cooldown.getD neuron 0 ≠ 1 := by
        intro hdue
        rw [hdue] at hcount
        simp only [UInt32.toNat_one] at hcount
        omega
      have hbusy' := hstep.stays_busy hbusy hdue
      refine ⟨hbusy', by omega, ?_⟩
      rw [hstep.spikes_of_closed hbusy.owns.neuron_lt (UInt32.pos_iff_ne_zero.mp hbusy'.waits),
        hspikes]

/-- A rule chosen with a delay runs its course: for as many steps as its delay its
neuron counts down, keeps its spikes, refuses every choice and is silent; in the
last of them the rule acts, once and alone, and the neuron is open again.  This
holds in every state in which the choice is accepted, for any decisions and trains
of the steps that follow. -/
theorem runsCourse_of_chosen {report : StepReport} {choice : StepInput}
    (howns : engine.topology.Owns neuron rule)
    (hdelay : 0 < engine.topology.delays.getD rule 0)
    (hchosen : choice.decision.getD rule false = true)
    (hforward : engine.forward state choice = .ok (report, next))
    (hrun : engine.forwardRun next inputs = .ok (states, last))
    (hlength : inputs.length = (engine.topology.delays.getD rule 0).toNat) :
    engine.RunsCourse neuron rule (engine.topology.delays.getD rule 0).toNat state choice inputs
      states last := by
  have hstep := (forward_eq_ok_iff.mp hforward).1
  have hbusy := hstep.busy_of_chosen howns hchosen hdelay
  have hcooldown := hstep.cooldown_of_chosen howns hchosen
  have hkept := hstep.spikes_of_closed howns.neuron_lt (UInt32.pos_iff_ne_zero.mp hbusy.waits)
  have hcourse := fun (done : Nat) (hdone : done < inputs.length) =>
    countdown_of_busy hrun hbusy (hcooldown ▸ hlength) hdone
  rw [← hlength]
  refine ⟨fun done hdone => (hcourse done hdone).1, fun done hdone => (hcourse done hdone).2.1,
    fun done hdone => (hcourse done hdone).2.2.trans hkept, ?_, ?_, ?_, ?_⟩
  · intro done hdone request other hother hrequest
    exact forward_refused_of_waits (hcourse done hdone).1.waits hother hrequest
  · exact hstep.silent_of_waits hbusy.waits
  · intro done input hdone hinput
    have hwaits := (hcourse (done + 1) hdone).1.waits
    exact (advances_of_forwardRun hrun hinput).silent_of_waits hwaits
  · have hpositive : 0 < inputs.length := by
      rw [hlength]
      exact UInt32.lt_iff_toNat_lt.mp hdelay
    have hfinal : inputs.length - 1 < inputs.length := Nat.sub_one_lt_of_lt hpositive
    obtain ⟨hbusy, hcount, _⟩ := hcourse _ hfinal
    have hinput := List.getElem?_eq_getElem hfinal
    have hrelease := advances_of_forwardRun hrun hinput
    rw [Nat.sub_add_cancel hpositive, stateAfter_length hrun] at hrelease
    refine ⟨_, hinput, hrelease.releases_of_busy hbusy ?_⟩
    apply UInt32.toNat_inj.mp
    rw [UInt32.toNat_one]
    omega

/-- Neuron 0 has a rule without and a rule with delay, neuron 1 a rule that takes
from both. -/
def staggeredEngine : Engine where
  topology :=
    { counts := [2, 1]
      delays := [0, 2, 0]
      matrix :=
        { neurons := 2
          rules := 3
          values := [-1, -2, -3, 1, 4, -1]
          shape := rfl }
      delays_length := rfl
      matrix_neurons := rfl
      matrix_rules := rfl }
  tracksChanges := false

/-- While the rule with the delay waits, neuron 1 goes on and spikes arrive at both
neurons. -/
def staggeredInputs : List StepInput :=
  [⟨[false, false, true], some [0, 1, 0]⟩, ⟨[false, false, false], some [0, 0, 2]⟩]

theorem runsCourse_of_chosen_staggered :
    ∃ report next states last,
      staggeredEngine.forward ⟨[9, 7], [0, 0], [false, false, false], [false, false]⟩
          ⟨[false, true, true], none⟩ = .ok (report, next) ∧
        staggeredEngine.forwardRun next staggeredInputs = .ok (states, last) ∧
        states.map State.spikes = [[9, 6], [9, 9]] ∧ last.spikes = [1, 11] ∧
        staggeredEngine.RunsCourse 0 1 2
          ⟨[9, 7], [0, 0], [false, false, false], [false, false]⟩ ⟨[false, true, true], none⟩
          staggeredInputs states last := by
  have howns : staggeredEngine.topology.Owns 0 1 := by decide
  have hdelay : 0 < staggeredEngine.topology.delays.getD 1 0 := by decide
  exact ⟨_, _, _, _, rfl, rfl, rfl, rfl, runsCourse_of_chosen howns hdelay rfl rfl rfl rfl⟩

end Engine

end SpikingNeuralP
