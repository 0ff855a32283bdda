import SpikingNeuralP.Proofs.Simulation.Boundary
import SpikingNeuralP.Proofs.Simulation.Solvency
import SpikingNeuralP.Proofs.Step.Rest

/-!
# The final configuration

A simulator tells the end of its run by four tests: the input is over, no rule is
in flight, no neuron is closed and no rule is applicable.  Together they say that
nothing can happen any more.  Whatever applicable rules were chosen, the engine
would step in place; and as long as one of the last three tests fails, some choice
moves a cooldown, makes a neuron fire or meets a count that cannot be held.
-/

namespace SpikingNeuralP

namespace Simulator

/-- With this decision and no arriving spikes, the engine steps in place. -/
def Rests (simulator : Simulator) (decision : List Bool) : Prop :=
  ∃ report next,
    simulator.engine.forward simulator.state { decision, train := none } = .ok (report, next) ∧
      simulator.state.RestsIn next

/-- With this decision and no arriving spikes, the engine moves a cooldown, makes
a neuron fire or meets a count that cannot be held. -/
def Stirs (simulator : Simulator) (decision : List Bool) : Prop :=
  (∃ neuron,
    simulator.engine.forward simulator.state { decision, train := none } =
      .error (.spikeOverflow neuron)) ∨
  ∃ report next,
    simulator.engine.forward simulator.state { decision, train := none } = .ok (report, next) ∧
      (next.cooldown ≠ simulator.state.cooldown ∨ true ∈ next.firing)

variable {network : Network} {config : SimulatorConfig} {start simulator : Simulator}
  {allowed : Simulator → List Bool → Prop} {decision : List Bool} {neuron index : Nat}

theorem Rests.not_stirs (hrests : simulator.Rests decision) : ¬simulator.Stirs decision := by
  obtain ⟨report, next, hforward, hrests⟩ := hrests
  rintro (⟨neuron, hfail⟩ | ⟨report', next', hforward', hmoves⟩)
  · rw [hforward] at hfail
    contradiction
  · obtain ⟨_, rfl⟩ := Prod.mk.inj (Except.ok.inj (hforward.symm.trans hforward'))
    rcases hmoves with hcooldown | hfires
    · exact hcooldown hrests.cooldown
    · exact Bool.noConfusion (hrests.silent true hfires)

theorem isHalted_eq_true_iff :
    simulator.isHalted = true ↔
      simulator.network.trainLength ≤ simulator.time ∧
        (∀ flying ∈ simulator.state.inFlight, flying = false) ∧
        (∀ remaining ∈ simulator.state.cooldown, remaining = 0) ∧
        ∀ rules ∈ simulator.applicableRules, rules = [] := by
  simp only [isHalted, State.anyInFlight, Bool.and_eq_true, decide_eq_true_eq,
    Bool.not_eq_true', List.any_eq_false, List.all_eq_true, beq_iff_eq, List.isEmpty_iff,
    id_eq, Bool.not_eq_true, and_assoc]

/-- Where no rule is applicable, nothing is chosen. -/
theorem Applicable.idle (happlicable : simulator.Applicable decision)
    (hnone : ∀ rules ∈ simulator.applicableRules, rules = []) (rule : Nat) :
    decision.getD rule false = false := by
  obtain ⟨choices, hchoices, hdecision⟩ := happlicable
  refine getD_eq_of_forall_mem (Network.eq_false_of_mem_decision hdecision ?_) rule
  intro neuron index hchoice
  have hindex := hchoices neuron index hchoice
  rw [getD_eq_of_forall_mem hnone neuron] at hindex
  exact List.not_mem_nil hindex

/-- Every neuron may choose nothing. -/
theorem exists_applicable_idle (simulator : Simulator) :
    ∃ decision, simulator.Applicable decision ∧ ∀ rule, decision.getD rule false = false := by
  have hnone : ∀ neuron index : Nat,
      (List.replicate simulator.network.neuronCount (none : Option Nat))[neuron]? ≠
        some (some index) := by
    intro neuron index hchoice
    cases (List.mem_replicate.mp (List.mem_of_getElem? hchoice)).2
  obtain ⟨decision, hdecision⟩ := Network.exists_decision List.length_replicate
    fun neuron index hchoice => absurd hchoice (hnone neuron index)
  exact ⟨decision, ⟨_, fun neuron index hchoice => absurd hchoice (hnone neuron index),
    hdecision⟩, getD_eq_of_forall_mem (Network.eq_false_of_mem_decision hdecision hnone)⟩

/-- A rule that is applicable may be chosen, and be it alone. -/
theorem exists_applicable_of_mem
    (hindex : index ∈ simulator.applicableRules.getD neuron []) :
    ∃ decision, simulator.Applicable decision ∧
      decision.getD (simulator.network.column neuron index) false = true := by
  obtain ⟨rule, hrule⟩ := Network.exists_rule_of_applicable hindex
  let choices := (List.replicate simulator.network.neuronCount none).set neuron (some index)
  have hneuron : neuron < simulator.network.neuronCount := Network.neuron_lt_of_rule hrule
  have hlength : choices.length = simulator.network.neuronCount := by simp [choices]
  have hchosen : choices[neuron]? = some (some index) := by simp [choices, hneuron]
  have hchoices : ∀ other rule, choices[other]? = some (some rule) →
      rule ∈ simulator.applicableRules.getD other [] := by
    intro other rule hchoice
    by_cases hsame : neuron = other
    · subst hsame
      obtain rfl : index = rule := by simpa using hchosen.symm.trans hchoice
      exact hindex
    · simp [choices, List.getElem?_set_ne hsame, List.getElem?_replicate] at hchoice
  obtain ⟨decision, hdecision⟩ := Network.exists_decision_of_applicable hlength hchoices
  exact ⟨decision, ⟨choices, hchoices, hdecision⟩,
    (Network.getD_decision hdecision hrule).mpr hchosen⟩

section Reachable

variable (hstart : ofNetwork network config = .ok start)
  (hreaches : start.Reaches allowed simulator)

include hstart hreaches

/-- The engine accepts an applicable decision unless a count cannot be held. -/
theorem Applicable.stirs_of_advances (happlicable : simulator.Applicable decision)
    (hmoves : ∀ next,
      simulator.topology.Advances simulator.state { decision, train := none } next →
        next.cooldown ≠ simulator.state.cooldown ∨ true ∈ next.firing) :
    simulator.Stirs decision := by
  obtain ⟨choices, hchoices, hdecision⟩ := happlicable
  have hassembles := hreaches.assembles hstart
  have hpermits := Network.permits_of_applicable hassembles hdecision hchoices
  have hinput : StepInput.Fits { decision, train := none } simulator.topology :=
    ⟨(Network.length_decision hdecision).trans hassembles.ruleCount_eq.symm, nofun⟩
  cases hforward : simulator.engine.forward simulator.state { decision, train := none } with
  | error cause =>
      obtain ⟨neuron, _, rfl⟩ :=
        Engine.exists_of_forward_eq_error (hreaches.fits hstart) hinput hpermits hforward
      exact Or.inl ⟨neuron, hforward⟩
  | ok accepted =>
      obtain ⟨report, next⟩ := accepted
      have hstep := (Engine.forward_eq_ok_iff.mp hforward).1
      exact Or.inr ⟨report, next, hforward, hmoves next hstep⟩

/-- A closed neuron counts down, even when nothing is chosen. -/
theorem exists_stirs_of_closed
    (hclosed : ∃ remaining ∈ simulator.state.cooldown, remaining ≠ 0) :
    ∃ decision, simulator.Applicable decision ∧ simulator.Stirs decision := by
  obtain ⟨decision, happlicable, _⟩ := exists_applicable_idle simulator
  refine ⟨decision, happlicable, happlicable.stirs_of_advances hstart hreaches ?_⟩
  intro next hstep
  obtain ⟨neuron, hneuron, hwaits⟩ := (exists_mem_iff_getD 0).mp hclosed
  rw [hstep.fits.cooldown] at hneuron
  have hcountdown := hstep.cooldown_of_closed hneuron (UInt32.pos_iff_ne_zero.mpr hwaits)
  left
  intro hsame
  rw [hsame] at hcountdown
  grind

/-- An applicable rule that is chosen closes its neuron or makes it fire. -/
theorem exists_stirs_of_mem (hindex : index ∈ simulator.applicableRules.getD neuron []) :
    ∃ decision, simulator.Applicable decision ∧ simulator.Stirs decision := by
  obtain ⟨decision, happlicable, hchosen⟩ := exists_applicable_of_mem hindex
  refine ⟨decision, happlicable, happlicable.stirs_of_advances hstart hreaches ?_⟩
  intro next hstep
  obtain ⟨rule, hrule⟩ := Network.exists_rule_of_applicable hindex
  have howns := (hreaches.assembles hstart).owns_column hrule
  by_cases hdelay : simulator.topology.delays.getD (simulator.network.column neuron index) 0 = 0
  · right
    have hcooldown := (hstep.cooldown_of_chosen howns hchosen).trans hdelay
    have hacts := (hstep.acting_iff howns).mpr ⟨hcooldown, Or.inl ⟨hchosen, hdelay⟩⟩
    have hfires := (hstep.firing_iff howns.neuron_lt).mpr ⟨_, howns, Or.inl hacts⟩
    have hneuron : neuron < next.firing.length := hstep.next_fits.firing ▸ howns.neuron_lt
    rw [List.getD_eq_getElem _ _ hneuron] at hfires
    exact hfires ▸ List.getElem_mem hneuron
  · left
    intro hsame
    have hcooldown := hstep.cooldown_of_chosen howns hchosen
    rw [hsame, (hstep.open_of_chosen howns hchosen).1] at hcooldown
    exact hdelay hcooldown.symm

theorem exists_stirs (hover : simulator.network.trainLength ≤ simulator.time)
    (hrunning : simulator.isHalted = false) :
    ∃ decision, simulator.Applicable decision ∧ simulator.Stirs decision := by
  by_contra hnone
  have hopened : ∀ remaining ∈ simulator.state.cooldown, remaining = 0 := by
    intro remaining hremaining
    by_contra hwaits
    exact hnone (exists_stirs_of_closed hstart hreaches ⟨remaining, hremaining, hwaits⟩)
  have hlanded : ∀ flying ∈ simulator.state.inFlight, flying = false := by
    intro flying hmem
    by_contra hflying
    have hany : simulator.state.anyInFlight = true :=
      List.any_eq_true.mpr ⟨flying, hmem, Bool.eq_true_of_not_eq_false hflying⟩
    obtain ⟨remaining, hremaining, hwaits⟩ := (State.anyInFlight_iff_of_coupled
      (hreaches.fits hstart) (hreaches.coupled hstart)).mp hany
    exact hwaits (hopened remaining hremaining)
  have hrules : ∀ rules ∈ simulator.applicableRules, rules = [] := by
    intro rules hmem
    by_contra hrules
    obtain ⟨index, hindex⟩ := List.exists_mem_of_ne_nil rules hrules
    obtain ⟨neuron, _, hindex⟩ := (exists_mem_iff_getD []).mp ⟨rules, hmem, hindex⟩
    exact hnone (exists_stirs_of_mem hstart hreaches hindex)
  have hhalted := isHalted_eq_true_iff.mpr ⟨hover, hlanded, hopened, hrules⟩
  rw [hrunning] at hhalted
  contradiction

theorem rests_of_isHalted (hhalted : simulator.isHalted = true)
    (happlicable : simulator.Applicable decision) : simulator.Rests decision := by
  obtain ⟨_, hlanded, hopened, hrules⟩ := isHalted_eq_true_iff.mp hhalted
  have hidle := happlicable.idle hrules
  have hquiet : simulator.state.Quiet := ⟨hopened, hlanded⟩
  obtain ⟨choices, _, hdecision⟩ := happlicable
  have hlength : decision.length = simulator.topology.ruleCount :=
    (Network.length_decision hdecision).trans (hreaches.assembles hstart).ruleCount_eq.symm
  obtain ⟨next, hstep⟩ := hquiet.exists_advances (hreaches.fits hstart) hlength hidle
  exact ⟨_, next, Engine.forward_eq_ok_iff.mpr ⟨hstep, rfl⟩, hquiet.restsIn hidle hstep⟩

end Reachable

/-- Whether the simulator is halted is exactly whether the input is over and the
engine steps in place whatever applicable rules are chosen. -/
structure HaltsExactly (simulator : Simulator) : Prop where
  /-- Any choice of applicable rules, at most one for a neuron, is a decision. -/
  decides : ∀ choices : List (Option Nat), choices.length = simulator.network.neuronCount →
    (∀ neuron index, choices[neuron]? = some (some index) →
      index ∈ simulator.applicableRules.getD neuron []) →
    ∃ decision, simulator.network.decision choices = .ok decision ∧ simulator.Applicable decision
  halted_iff : simulator.isHalted = true ↔
    simulator.network.trainLength ≤ simulator.time ∧
      ∀ decision, simulator.Applicable decision → simulator.Rests decision
  stirs : simulator.network.trainLength ≤ simulator.time → simulator.isHalted = false →
    ∃ decision, simulator.Applicable decision ∧ simulator.Stirs decision

/-- Every reachable simulator tells the end of its run exactly. -/
theorem haltsExactly_of_reaches (hstart : ofNetwork network config = .ok start)
    (hreaches : start.Reaches allowed simulator) : simulator.HaltsExactly := by
  refine ⟨fun choices hlength hchoices => ?_, ⟨fun hhalted => ?_, ?_⟩,
    exists_stirs hstart hreaches⟩
  · obtain ⟨decision, hdecision⟩ := Network.exists_decision_of_applicable hlength hchoices
    exact ⟨decision, hdecision, choices, hchoices, hdecision⟩
  · exact ⟨(isHalted_eq_true_iff.mp hhalted).1,
      fun _ => rests_of_isHalted hstart hreaches hhalted⟩
  · rintro ⟨hover, hrests⟩
    by_contra hrunning
    obtain ⟨decision, happlicable, hstirs⟩ :=
      exists_stirs hstart hreaches hover (Bool.eq_false_of_not_eq_true hrunning)
    exact (hrests decision happlicable).not_stirs hstirs

/-- The line after its input has gone by unused, and after its rule has been chosen
and released as long as there are spikes for it. -/
def idling : List SimulatorRequest :=
  [.next [false, false], .next [false, false]]

def spending : List SimulatorRequest :=
  idling ++ [.next [false, true], .next [false, false], .next [false, true], .next [false, false]]

theorem haltsExactly_of_reaches_delayedLine :
    ∃ start,
      ofNetwork (.ofEdits Network.delayedLine) .standard = .ok start ∧
        start.Reaches (fun _ _ => True) (start.run idling).2 ∧
        (start.run idling).2.isHalted = false ∧ (start.run idling).2.HaltsExactly ∧
        start.Reaches (fun _ _ => True) (start.run spending).2 ∧
        (start.run spending).2.isHalted = true ∧ (start.run spending).2.HaltsExactly := by
  obtain ⟨start, hstart, hrunning, hhalted⟩ : ∃ start,
      ofNetwork (.ofEdits Network.delayedLine) .standard = .ok start ∧
        (start.run idling).2.isHalted = false ∧ (start.run spending).2.isHalted = true :=
    ⟨_, rfl, rfl, rfl⟩
  have hidling : start.Reaches (fun _ _ => True) (start.run idling).2 := Reaches.run .refl idling
  have hspending : start.Reaches (fun _ _ => True) (start.run spending).2 :=
    Reaches.run .refl spending
  exact ⟨start, hstart, hidling, hrunning, haltsExactly_of_reaches hstart hidling, hspending,
    hhalted, haltsExactly_of_reaches hstart hspending⟩

end Simulator

end SpikingNeuralP
