import Mathlib.Data.List.Find
import SpikingNeuralP.Proofs.Step.Touched
import SpikingNeuralP.Proofs.Step.Walk

/-!
# Influence

A rule influences the neurons in whose rows its cell is not zero.  A set of neurons
that no rule from outside influences develops by itself: two runs that agree on the
set and on what is put into it agree on it after every step, whatever happens
outside.
-/

namespace SpikingNeuralP

/-- The rule belongs to a neuron of the given kind. -/
def Topology.OwnedBy (topology : Topology) (kind : Nat → Prop) (rule : Nat) : Prop :=
  ∃ neuron < topology.neuronCount, kind neuron ∧ topology.Owns neuron rule

instance (topology : Topology) (kind : Nat → Prop) [DecidablePred kind] (rule : Nat) :
    Decidable (topology.OwnedBy kind rule) :=
  inferInstanceAs (Decidable (∃ neuron < topology.neuronCount,
    kind neuron ∧ topology.Owns neuron rule))

/-- No rule of a neuron outside influences a neuron inside. -/
def Topology.Isolates (topology : Topology) (inside : Nat → Prop) : Prop :=
  ∀ neuron < topology.neuronCount, inside neuron → ∀ rule < topology.ruleCount,
    topology.OwnedBy (¬inside ·) rule → topology.matrix.cell neuron rule = 0

instance (topology : Topology) (inside : Nat → Prop) [DecidablePred inside] :
    Decidable (topology.Isolates inside) :=
  inferInstanceAs (Decidable (∀ neuron < topology.neuronCount, inside neuron →
    ∀ rule < topology.ruleCount,
      topology.OwnedBy (¬inside ·) rule → topology.matrix.cell neuron rule = 0))

/-- The neurons inside look the same in both states, and the same of their rules are
in flight. -/
structure State.AgreeOn (topology : Topology) (inside : Nat → Prop) (left right : State) :
    Prop where
  neurons : ∀ neuron < topology.neuronCount, inside neuron → left.AgreeAt right neuron
  inFlight : ∀ rule < topology.ruleCount, topology.OwnedBy inside rule →
    left.inFlight.getD rule false = right.inFlight.getD rule false

/-- The neurons inside choose the same rules, and the same spikes arrive at their
rules. -/
structure StepInput.AgreeOn (topology : Topology) (inside : Nat → Prop)
    (left right : StepInput) : Prop where
  decision : ∀ rule < topology.ruleCount, topology.OwnedBy inside rule →
    left.decision.getD rule false = right.decision.getD rule false
  arrivals : ∀ rule < topology.ruleCount, topology.OwnedBy inside rule →
    arrivals left.train rule = arrivals right.train rule

/-- All four flags of the neuron are the same. -/
structure ChangeSet.AgreeAt (left right : ChangeSet) (neuron : Nat) : Prop where
  fired : left.fired.getD neuron false = right.fired.getD neuron false
  firingChanged : left.firingChanged.getD neuron false = right.firingChanged.getD neuron false
  cooldownChanged :
    left.cooldownChanged.getD neuron false = right.cooldownChanged.getD neuron false
  updated : left.updated.getD neuron false = right.updated.getD neuron false

theorem Topology.Owns.ownedBy {topology : Topology} {kind : Nat → Prop} {neuron rule : Nat}
    (howns : topology.Owns neuron rule) (hkind : kind neuron) : topology.OwnedBy kind rule :=
  ⟨neuron, howns.neuron_lt, hkind, howns⟩

namespace Topology.Advances

variable {topology : Topology} {inside : Nat → Prop} {left right leftNext rightNext : State}
  {leftInput rightInput : StepInput} {neuron rule : Nat}

section TwoSteps

variable (hleft : topology.Advances left leftInput leftNext)
  (hright : topology.Advances right rightInput rightNext)
  (hstates : left.AgreeOn topology inside right)
  (hinputs : leftInput.AgreeOn topology inside rightInput)

include hleft hright hstates hinputs

theorem cooldown_eq_of_agreeOn (hneuron : neuron < topology.neuronCount)
    (hinside : inside neuron) :
    leftNext.cooldown.getD neuron 0 = rightNext.cooldown.getD neuron 0 := by
  have hfirst : (topology.ranges.range neuron).firstSet? leftInput.decision =
      (topology.ranges.range neuron).firstSet? rightInput.decision :=
    List.find?_congr fun rule (howns : topology.Owns neuron rule) =>
      hinputs.decision rule howns.rule_lt (howns.ownedBy hinside)
  rw [hleft.getD_cooldown hneuron, hright.getD_cooldown hneuron,
    (hstates.neurons neuron hneuron hinside).cooldown, hfirst]

theorem acting_eq_of_agreeOn (hinside : inside neuron) (howns : topology.Owns neuron rule) :
    (topology.acting left leftInput).getD rule false =
      (topology.acting right rightInput).getD rule false := by
  rw [Bool.eq_iff_iff, hleft.acting_iff howns, hright.acting_iff howns,
    cooldown_eq_of_agreeOn hleft hright hstates hinputs howns.neuron_lt hinside,
    hinputs.decision rule howns.rule_lt (howns.ownedBy hinside),
    hstates.inFlight rule howns.rule_lt (howns.ownedBy hinside)]

theorem inFlight_eq_of_agreeOn (hinside : inside neuron) (howns : topology.Owns neuron rule) :
    leftNext.inFlight.getD rule false = rightNext.inFlight.getD rule false := by
  rw [Bool.eq_iff_iff, hleft.inFlight_iff howns, hright.inFlight_iff howns,
    acting_eq_of_agreeOn hleft hright hstates hinputs hinside howns,
    hinputs.decision rule howns.rule_lt (howns.ownedBy hinside),
    hstates.inFlight rule howns.rule_lt (howns.ownedBy hinside)]

theorem firing_eq_of_agreeOn (hneuron : neuron < topology.neuronCount)
    (hinside : inside neuron) :
    leftNext.firing.getD neuron false = rightNext.firing.getD neuron false := by
  rw [Bool.eq_iff_iff, hleft.firing_iff hneuron, hright.firing_iff hneuron]
  apply exists_congr
  intro rule
  apply and_congr_right
  intro howns
  rw [acting_eq_of_agreeOn hleft hright hstates hinputs hinside howns,
    hinputs.arrivals rule howns.rule_lt (howns.ownedBy hinside)]

/-- A rule counts alike in both gains when its owner is inside, and has no effect
when its owner is outside. -/
theorem exactGain_eq_of_agreeOn (hisolates : topology.Isolates inside)
    (hneuron : neuron < topology.neuronCount) (hinside : inside neuron) :
    topology.matrix.exactGain neuron (topology.acting left leftInput) leftInput.train =
      topology.matrix.exactGain neuron (topology.acting right rightInput) rightInput.train := by
  rw [EffectMatrix.exactGain, EffectMatrix.exactGain]
  apply congrArg List.sum
  apply List.map_congr_left
  intro rule hrule
  have hrule : rule < topology.ruleCount := by
    rwa [List.mem_range, topology.rules_matrix] at hrule
  obtain ⟨other, howns⟩ := exists_owns hrule
  by_cases hother : inside other
  · rw [multiplicity, multiplicity,
      acting_eq_of_agreeOn hleft hright hstates hinputs hother howns,
      hinputs.arrivals rule hrule (howns.ownedBy hother)]
  · rw [hisolates neuron hneuron hinside rule hrule (howns.ownedBy hother),
      Int32.toInt_zero, Int.mul_zero, Int.mul_zero]

theorem spikes_eq_of_agreeOn (hisolates : topology.Isolates inside)
    (hneuron : neuron < topology.neuronCount) (hinside : inside neuron) :
    leftNext.spikes.getD neuron 0 = rightNext.spikes.getD neuron 0 := by
  have hcooldown := cooldown_eq_of_agreeOn hleft hright hstates hinputs hneuron hinside
  have hspikes := (hstates.neurons neuron hneuron hinside).spikes
  by_cases hopen : leftNext.cooldown.getD neuron 0 = 0
  · apply Int32.toInt_inj.mp
    rw [hleft.spikes_of_open hneuron hopen, hright.spikes_of_open hneuron (hcooldown ▸ hopen),
      hspikes, exactGain_eq_of_agreeOn hleft hright hstates hinputs hisolates hneuron hinside]
  · rw [hleft.spikes_of_closed hneuron hopen, hright.spikes_of_closed hneuron (hcooldown ▸ hopen),
      hspikes]

theorem agreeOn (hisolates : topology.Isolates inside) :
    leftNext.AgreeOn topology inside rightNext where
  neurons _ hneuron hinside :=
    ⟨spikes_eq_of_agreeOn hleft hright hstates hinputs hisolates hneuron hinside,
      cooldown_eq_of_agreeOn hleft hright hstates hinputs hneuron hinside,
      firing_eq_of_agreeOn hleft hright hstates hinputs hneuron hinside⟩
  inFlight _ _ := fun ⟨_, _, hinside, howns⟩ =>
    inFlight_eq_of_agreeOn hleft hright hstates hinputs hinside howns

end TwoSteps

/-- The change flags of a neuron compare nothing but the neuron before and after. -/
theorem changes_agreeAt (hleft : topology.Advances left leftInput leftNext)
    (hright : topology.Advances right rightInput rightNext)
    (hneuron : neuron < topology.neuronCount) (hbefore : left.AgreeAt right neuron)
    (hafter : leftNext.AgreeAt rightNext neuron) :
    (ChangeSet.between left leftNext).AgreeAt (ChangeSet.between right rightNext) neuron where
  fired := hafter.firing
  firingChanged := by
    rw [Bool.eq_iff_iff, ChangeSet.getD_firingChanged_between hleft.fits hleft.next_fits hneuron,
      ChangeSet.getD_firingChanged_between hright.fits hright.next_fits hneuron, hbefore.firing,
      hafter.firing]
  cooldownChanged := by
    rw [Bool.eq_iff_iff, ChangeSet.getD_cooldownChanged_between hleft.fits hleft.next_fits hneuron,
      ChangeSet.getD_cooldownChanged_between hright.fits hright.next_fits hneuron,
      hbefore.cooldown, hafter.cooldown]
  updated := by
    rw [Bool.eq_iff_iff, ChangeSet.getD_updated_between hleft.fits hleft.next_fits hneuron,
      ChangeSet.getD_updated_between hright.fits hright.next_fits hneuron, hbefore.cooldown,
      hafter.cooldown, hbefore.spikes, hafter.spikes]

end Topology.Advances

namespace Engine

/-- Steps forward with one input after the other.  The answer holds the report of
every step and the state it leads to, in order. -/
def forwardOutcomes (engine : Engine) (state : State) :
    List StepInput → Except StepError (List (StepReport × State))
  | [] => .ok []
  | input :: inputs => do
      let (report, next) ← engine.forward state input
      let later ← engine.forwardOutcomes next inputs
      return (report, next) :: later

variable {engine : Engine} {inside : Nat → Prop} {left right : State} {input : StepInput}
  {inputs leftInputs rightInputs : List StepInput}
  {outcomes leftOutcomes rightOutcomes : List (StepReport × State)}

theorem forwardOutcomes_cons_eq_ok_iff {state : State} :
    engine.forwardOutcomes state (input :: inputs) = .ok outcomes ↔
      ∃ next later, engine.topology.Advances state input next ∧
        engine.forwardOutcomes next inputs = .ok later ∧
        outcomes = (engine.report state next, next) :: later := by
  rw [forwardOutcomes, bind_eq_ok_iff]
  constructor
  · rintro ⟨⟨report, next⟩, hstep, hrest⟩
    obtain ⟨later, hlater, hanswer⟩ := bind_eq_ok_iff.mp hrest
    obtain ⟨hadvances, rfl⟩ := forward_eq_ok_iff.mp hstep
    exact ⟨next, later, hadvances, hlater, (Except.ok.inj hanswer).symm⟩
  · rintro ⟨next, later, hstep, hlater, rfl⟩
    exact ⟨(engine.report state next, next), forward_eq_ok_iff.mpr ⟨hstep, rfl⟩,
      bind_eq_ok_iff.mpr ⟨later, hlater, rfl⟩⟩

/-- Inside, the outcomes of two steps cannot be told apart: neither by the states
they lead to nor, when changes are tracked, by the flags. -/
structure OutcomesAgree (engine : Engine) (inside : Nat → Prop) (left right : StepReport × State) :
    Prop where
  state : left.2.AgreeOn engine.topology inside right.2
  changes : engine.tracksChanges = true → ∃ leftChanges rightChanges,
    left.1.changes = some leftChanges ∧ right.1.changes = some rightChanges ∧
      ∀ neuron < engine.topology.neuronCount, inside neuron →
        leftChanges.AgreeAt rightChanges neuron

theorem outcomesAgree_of_advances {leftInput rightInput : StepInput} {leftNext rightNext : State}
    (hisolates : engine.topology.Isolates inside)
    (hleft : engine.topology.Advances left leftInput leftNext)
    (hright : engine.topology.Advances right rightInput rightNext)
    (hstates : left.AgreeOn engine.topology inside right)
    (hinputs : leftInput.AgreeOn engine.topology inside rightInput) :
    engine.OutcomesAgree inside (engine.report left leftNext, leftNext)
      (engine.report right rightNext, rightNext) := by
  have hagree := hleft.agreeOn hright hstates hinputs hisolates
  refine ⟨hagree, fun htracks => ⟨_, _, if_pos htracks, if_pos htracks, ?_⟩⟩
  intro neuron hneuron hinside
  exact hleft.changes_agreeAt hright hneuron (hstates.neurons neuron hneuron hinside)
    (hagree.neurons neuron hneuron hinside)

/-- Two runs agree after every step on a set of neurons that is isolated from the
others, when they start in agreement on it and are given the same there.  What the
runs hold, choose and receive elsewhere may differ. -/
theorem outcomesAgree_of_forwardOutcomes (hisolates : engine.topology.Isolates inside)
    (hstates : left.AgreeOn engine.topology inside right)
    (hinputs : List.Forall₂ (StepInput.AgreeOn engine.topology inside) leftInputs rightInputs)
    (hleft : engine.forwardOutcomes left leftInputs = .ok leftOutcomes)
    (hright : engine.forwardOutcomes right rightInputs = .ok rightOutcomes) :
    List.Forall₂ (engine.OutcomesAgree inside) leftOutcomes rightOutcomes := by
  induction hinputs generalizing left right leftOutcomes rightOutcomes with
  | nil =>
      obtain rfl := Except.ok.inj hleft
      obtain rfl := Except.ok.inj hright
      exact .nil
  | cons hinput _ ih =>
      obtain ⟨leftNext, leftLater, hleftStep, hleftRun, rfl⟩ :=
        forwardOutcomes_cons_eq_ok_iff.mp hleft
      obtain ⟨rightNext, rightLater, hrightStep, hrightRun, rfl⟩ :=
        forwardOutcomes_cons_eq_ok_iff.mp hright
      have hagree := outcomesAgree_of_advances hisolates hleftStep hrightStep hstates hinput
      exact .cons hagree (ih hagree.state hleftRun hrightRun)

/-- Neuron 1 of the resting state is in its longest wait here and owes spikes. -/
def divertedState : State where
  spikes := [5, -7, 4]
  cooldown := [0, 4294967295, 0]
  inFlight := [false, true, false]
  firing := [false, true, false]

/-- Nothing that happens in neuron 1 is seen in the other two. -/
theorem outcomesAgree_of_forwardOutcomes_strained :
    ∃ leftOutcomes rightOutcomes,
      strainedEngine.topology.Isolates (· ≠ 1) ∧
        strainedEngine.forwardOutcomes restingState
            [⟨[true, false, true], some [0, 7, 0]⟩, ⟨[true, true, false], none⟩] =
          .ok leftOutcomes ∧
        strainedEngine.forwardOutcomes divertedState
            [⟨[true, false, true], none⟩, ⟨[true, false, false], some [0, 0, 0]⟩] =
          .ok rightOutcomes ∧
        leftOutcomes.map (·.2.spikes) = [[6, 2, 4], [7, 2, 1]] ∧
        rightOutcomes.map (·.2.spikes) = [[6, -7, 4], [7, -7, 1]] ∧
        List.Forall₂ (strainedEngine.OutcomesAgree (· ≠ 1)) leftOutcomes rightOutcomes := by
  have hisolates : strainedEngine.topology.Isolates (· ≠ 1) := by decide
  have hstates : restingState.AgreeOn strainedEngine.topology (· ≠ 1) divertedState :=
    ⟨by decide, by decide⟩
  have hchoice : StepInput.AgreeOn strainedEngine.topology (· ≠ 1)
      ⟨[true, false, true], some [0, 7, 0]⟩ ⟨[true, false, true], none⟩ :=
    ⟨by decide, by decide⟩
  have hrelease : StepInput.AgreeOn strainedEngine.topology (· ≠ 1)
      ⟨[true, true, false], none⟩ ⟨[true, false, false], some [0, 0, 0]⟩ :=
    ⟨by decide, by decide⟩
  exact ⟨_, _, hisolates, rfl, rfl, rfl, rfl, outcomesAgree_of_forwardOutcomes hisolates hstates
    (.cons hchoice (.cons hrelease .nil)) rfl rfl⟩

end Engine

end SpikingNeuralP
