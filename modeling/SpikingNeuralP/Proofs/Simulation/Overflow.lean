import SpikingNeuralP.Proofs.Simulation.Boundary
import SpikingNeuralP.Proofs.Step.Refusal

/-!
# When a spike count overflows

The engine gives up a sum as soon as a partial sum leaves sixty-four bits, so it could
refuse a step whose counts all fit.  In a network no row of the effect matrix can bring
that about: the rules of other neurons only add to a count, at most one rule of the neuron
itself acts, and the one rule that receives spikes from the environment consumes nothing.
So a step of a simulator is refused exactly for the counts that cannot be held.
-/

namespace SpikingNeuralP

namespace Network

/-- The count of a neuron that is open after the step, in integers without bounds. -/
def exactCount (network : Network) (decision : List Bool) (before : State) (time neuron : Nat) :
    Int :=
  (before.spikes.getD neuron 0).toInt - network.consumed decision before neuron +
    network.received decision before time neuron

variable {network : Network} {topology : Topology} {before : State} {decision acting : List Bool}
  {time neuron number : Nat}

/-- A neuron loses spikes to a rule of its own that acts, and to no spike from the
environment. -/
theorem loss_of_contribution_neg (hwell : network.WellFormed)
    (hassembles : network.Assembles topology) (hneuron : neuron < network.neuronCount)
    (hnumber : number < topology.ruleCount)
    (hloss : topology.matrix.contribution neuron acting (network.train? time) number < 0) :
    topology.Owns neuron number ∧ acting.getD number false = true ∧
      multiplicity acting (network.train? time) number = 1 := by
  obtain ⟨owner, howns⟩ := Topology.exists_owns hnumber
  obtain ⟨index, rule, hrule, rfl⟩ := hassembles.exists_rule_of_owns howns
  rw [EffectMatrix.contribution, toInt_cell_column hwell hassembles hneuron hrule] at hloss
  have hconsumes : owner = neuron ∧ rule.consume.toNat ≠ 0 := by
    by_contra hfree
    have hgain : (0 : Int) ≤ ((rule.produce.toNat * network.weight owner neuron : Nat) : Int) -
        if owner = neuron then (rule.consume.toNat : Int) else 0 := by
      split
      case isTrue hown =>
        have hnothing : rule.consume.toNat = 0 := by
          by_contra hconsumes
          exact hfree ⟨hown, hconsumes⟩
        omega
      case isFalse => omega
    exact Int.not_lt.mpr (Int.mul_nonneg (Int.natCast_nonneg _) hgain) hloss
  obtain ⟨rfl, hconsumes⟩ := hconsumes
  have hunfed : network.trainAt owner time = 0 := by
    by_contra hfed
    have hmem := List.mem_of_getElem? hrule
    rw [rulesOf_of_trainAt hfed, List.mem_singleton] at hmem
    exact hconsumes (by rw [hmem]; rfl)
  have hmultiplicity : multiplicity acting (network.train? time) (network.column owner index) =
      (acting.getD (network.column owner index) false).toNat := by
    rw [multiplicity, arrivals_column hrule, hunfed]
    rfl
  rw [hmultiplicity] at hloss ⊢
  cases hacts : acting.getD (network.column owner index) false with
  | false =>
      rw [hacts] at hloss
      simp at hloss
  | true => exact ⟨howns, rfl, rfl⟩

/-- A neuron of a network loses spikes to one rule at most. -/
theorem losesOnce_of_accepts (hwell : network.WellFormed)
    (hassembles : network.Assembles topology) (hphased : before.Phased topology)
    (haccepts : topology.Accepts before { decision, train := network.train? time })
    (hneuron : neuron < network.neuronCount) :
    topology.matrix.LosesOnce
      (topology.acting before { decision, train := network.train? time })
      (network.train? time) neuron := by
  have hrules := topology.rules_matrix
  constructor
  · intro number hnumber
    by_contra hbelow
    have hloss : topology.matrix.contribution neuron
        (topology.acting before { decision, train := network.train? time })
        (network.train? time) number < 0 := by omega
    obtain ⟨_, _, honce⟩ :=
      loss_of_contribution_neg hwell hassembles hneuron (hrules ▸ hnumber) hloss
    have hcell := (topology.matrix.cell neuron number).le_toInt
    rw [EffectMatrix.contribution, honce] at hbelow
    omega
  · intro number hnumber other hother hloss hloss'
    obtain ⟨howns, hacts, _⟩ :=
      loss_of_contribution_neg hwell hassembles hneuron (hrules ▸ hnumber) hloss
    obtain ⟨howns', hacts', _⟩ :=
      loss_of_contribution_neg hwell hassembles hneuron (hrules ▸ hother) hloss'
    exact haccepts.acting_unique hphased howns howns' hacts hacts'

/-- What the engine calls an overflow is an exact count that cannot be held. -/
theorem overflows_iff_exactCount (hwell : network.WellFormed)
    (hassembles : network.Assembles topology) (hphased : before.Phased topology)
    (haccepts : topology.Accepts before { decision, train := network.train? time })
    (hneuron : neuron < network.neuronCount) :
    topology.matrix.Overflows (topology.acting before { decision, train := network.train? time })
        (network.train? time) .forward neuron (before.spikes.getD neuron 0) ↔
      ¬Fits32 (network.exactCount decision before time neuron) := by
  have hgain : topology.matrix.exactGain neuron
      (topology.acting before { decision, train := network.train? time })
      (network.train? time) =
        (network.received decision before time neuron : Int) -
          network.consumed decision before neuron :=
    exactGain_eq hwell hassembles hneuron fun _ _ _ =>
      acting_eq_acts hassembles haccepts hphased.coupled
  have hcount : (before.spikes.getD neuron 0).toInt +
      ((network.received decision before time neuron : Int) -
        network.consumed decision before neuron) =
      network.exactCount decision before time neuron := by
    rw [exactCount]
    omega
  rw [(losesOnce_of_accepts hwell hassembles hphased haccepts hneuron).overflows_iff, hgain, hcount]

end Network

namespace Simulator

/-- The cooldowns after a step with the decision, whether or not the counts can be held. -/
def cooldownAfter (simulator : Simulator) (decision : List Bool) : List UInt32 :=
  nextCooldown simulator.state.cooldown decision simulator.topology.delays
    simulator.topology.ranges

/-- The neuron is open after a step with the decision, and its exact count cannot be held. -/
def Bursts (simulator : Simulator) (decision : List Bool) (neuron : Nat) : Prop :=
  (simulator.cooldownAfter decision).getD neuron 0 = 0 ∧
    ¬Fits32 (simulator.network.exactCount decision simulator.state simulator.time neuron)

/-- How a step ends whose decision passes the checks. -/
structure OverflowsExactly (simulator : Simulator) (decision : List Bool) : Prop where
  refused : ∀ neuron, simulator.next decision = .error (.step (.spikeOverflow neuron)) ↔
    IsLeast {neuron | neuron < simulator.network.neuronCount ∧ simulator.Bursts decision neuron}
      neuron
  granted : (∃ report after, simulator.next decision = .ok (report, after)) ↔
    ∀ neuron < simulator.network.neuronCount, ¬simulator.Bursts decision neuron
  cooldown : ∀ report after, simulator.next decision = .ok (report, after) →
    after.state.cooldown = simulator.cooldownAfter decision
  counts : ∀ report after, simulator.next decision = .ok (report, after) →
    ∀ neuron < simulator.network.neuronCount, (after.state.spikes.getD neuron 0).toInt =
      if (simulator.cooldownAfter decision).getD neuron 0 = 0 then
        simulator.network.exactCount decision simulator.state simulator.time neuron
      else (simulator.state.spikes.getD neuron 0).toInt
  /-- A count that fits is not lost on the way to it. -/
  sums : ∀ neuron < simulator.network.neuronCount,
    Fits32 (simulator.network.exactCount decision simulator.state simulator.time neuron) →
    ∀ rules ≤ simulator.topology.ruleCount, Fits64 (simulator.topology.matrix.partialGain neuron
      (simulator.topology.acting simulator.state (simulator.input decision))
      (simulator.network.train? simulator.time) rules)

variable {network : Network} {config : SimulatorConfig} {start simulator : Simulator}
  {allowed : Simulator → List Bool → Prop} {decision : List Bool}

theorem Reaches.accepts (hstart : ofNetwork network config = .ok start)
    (hreaches : start.Reaches allowed simulator)
    (hlength : decision.length = simulator.topology.ruleCount)
    (hdecision : simulator.topology.checkDecision simulator.state decision = .ok ()) :
    simulator.topology.Accepts simulator.state (simulator.input decision) where
  fits := hreaches.fits hstart
  inputFits := input_fits (hreaches.assembles hstart) hlength
  permits := Topology.checkDecision_eq_ok_iff.mp hdecision

section Reachable

variable {edits : List NetworkEdit} (hstart : ofNetwork (.ofEdits edits) config = .ok start)
  (hreaches : start.Reaches allowed simulator)
  (haccepts : simulator.topology.Accepts simulator.state (simulator.input decision))

include hstart hreaches haccepts

/-- The neurons that overflow in the engine are those whose exact count cannot be held. -/
theorem overflows_iff_of_reaches {neuron : Nat} (hneuron : neuron < simulator.network.neuronCount) :
    simulator.topology.matrix.Overflows
        (simulator.topology.acting simulator.state (simulator.input decision))
        (simulator.network.train? simulator.time) .forward neuron
        (simulator.state.spikes.getD neuron 0) ↔
      ¬Fits32 (simulator.network.exactCount decision simulator.state simulator.time neuron) := by
  have hwell : simulator.network.WellFormed :=
    hreaches.network_eq hstart ▸ Network.wellFormed_ofEdits edits
  have hphased : simulator.state.Phased simulator.topology := by
    rw [topology, hreaches.system.2]
    exact hreaches.phased hstart
  exact Network.overflows_iff_exactCount hwell (hreaches.assembles hstart) hphased haccepts hneuron

theorem next_eq_error_iff_of_reaches (hhalted : simulator.isHalted = false)
    {failure : SimulatorError} :
    simulator.next decision = .error failure ↔
      ∃ neuron, IsLeast {neuron | neuron < simulator.network.neuronCount ∧
          simulator.Bursts decision neuron} neuron ∧
        failure = .step (.spikeOverflow neuron) := by
  have hcount : simulator.engine.topology.neuronCount = simulator.network.neuronCount :=
    (hreaches.assembles hstart).neuronCount_eq
  have hbursts : {neuron | neuron < simulator.engine.topology.neuronCount ∧
        (simulator.engine.forwardObjections simulator.state
          (simulator.input decision)).overflows neuron} =
      {neuron | neuron < simulator.network.neuronCount ∧ simulator.Bursts decision neuron} := by
    ext neuron
    rw [hcount]
    apply and_congr_right
    intro hneuron
    apply and_congr_right
    intro _
    exact overflows_iff_of_reaches hstart hreaches haccepts hneuron
  rw [next_eq_error_iff]
  simp only [hhalted, Bool.false_eq_true, false_and, true_and, false_or,
    Engine.forward_eq_error_iff_of_accepts haccepts, hbursts]
  constructor
  · rintro ⟨cause, ⟨neuron, hleast, rfl⟩, rfl⟩
    exact ⟨neuron, hleast, rfl⟩
  · rintro ⟨neuron, hleast, rfl⟩
    exact ⟨_, ⟨neuron, hleast, rfl⟩, rfl⟩

theorem Reaches.overflowsExactly (hhalted : simulator.isHalted = false) :
    simulator.OverflowsExactly decision where
  refused neuron := by
    rw [next_eq_error_iff_of_reaches hstart hreaches haccepts hhalted]
    simp
  granted := by
    rw [← Prod.exists', exists_eq_ok_iff_forall_ne_error, forall_lt_not_iff_forall_not_isLeast]
    simp only [ne_eq, next_eq_error_iff_of_reaches hstart hreaches haccepts hhalted]
    constructor
    · intro hnone neuron hleast
      exact hnone _ ⟨neuron, hleast, rfl⟩
    · rintro hnone failure ⟨neuron, hleast, _⟩
      exact hnone neuron hleast
  cooldown report after hnext := by
    obtain ⟨_, state, hforward, rfl⟩ := next_eq_ok_iff.mp hnext
    exact (Engine.forward_eq_ok_iff.mp hforward).1.cooldown
  counts report after hnext neuron hneuron := by
    obtain ⟨_, state, hforward, rfl⟩ := next_eq_ok_iff.mp hnext
    have hsteps := hreaches.steps (Network.wellFormed_ofEdits edits) hstart hforward
    have hcooldown : state.cooldown = simulator.cooldownAfter decision :=
      (Engine.forward_eq_ok_iff.mp hforward).1.cooldown
    rw [← hreaches.network_eq hstart] at hsteps
    rw [← hcooldown]
    split
    case isTrue hopen => exact hsteps.opened neuron hneuron hopen
    case isFalse hclosed => exact congrArg Int32.toInt (hsteps.closed neuron hneuron hclosed)
  sums neuron hneuron hfits rules hrules := by
    by_contra hbeyond
    have hwidth := simulator.topology.rules_matrix
    exact (overflows_iff_of_reaches hstart hreaches haccepts hneuron).mp
      (Or.inl ⟨rules, hwidth ▸ hrules, hbeyond⟩) hfits

end Reachable

/-- After any requests to a simulator of a network that was built by edits, a step whose
decision passes the checks is refused for the least neuron whose exact count cannot be held,
and otherwise all counts are exact. -/
theorem overflowsExactly_of_checked {edits : List NetworkEdit}
    (hstart : ofNetwork (.ofEdits edits) config = .ok start) (requests : List SimulatorRequest)
    (hhalted : (start.run requests).2.isHalted = false)
    (hlength : decision.length = (start.run requests).2.topology.ruleCount)
    (hdecision : (start.run requests).2.topology.checkDecision (start.run requests).2.state
      decision = .ok ()) :
    (start.run requests).2.OverflowsExactly decision := by
  have hreaches : start.Reaches (fun _ _ => True) (start.run requests).2 :=
    Reaches.run .refl requests
  exact hreaches.overflowsExactly hstart (hreaches.accepts hstart hlength hdecision) hhalted

/-- Two input neurons that flood a third one, which waits for a rule, from the second step
on. -/
def flooded : List NetworkEdit :=
  [.addNeuron (.input [0, 4294967295]),
    .addNeuron (.input [0, 4294967295]),
    .addNeuron { label := none, body := .regular 2 [.spiking (.atLeast 1) 2 1] },
    .addSynapse 0 2 2147483647,
    .addSynapse 1 2 2147483647]

/-- The flood leaves sixty-four bits and is refused under the neuron it reaches. -/
theorem overflowsExactly_of_checked_flooded :
    ∃ start, ofNetwork (.ofEdits flooded) .standard = .ok start ∧
      (start.run [.next [false, false, true]]).2.isHalted = false ∧
      (start.run [.next [false, false, true]]).2.topology.checkDecision
        (start.run [.next [false, false, true]]).2.state [false, false, false] = .ok () ∧
      (start.run [.next [false, false, true]]).2.next [false, false, false] =
        .error (.step (.spikeOverflow 2)) ∧
      (start.run [.next [false, false, true]]).2.OverflowsExactly [false, false, false] := by
  have hstart : ofNetwork (.ofEdits flooded) .standard = .ok _ := rfl
  exact ⟨_, hstart, rfl, rfl, rfl, overflowsExactly_of_checked hstart _ rfl rfl rfl⟩

end Simulator

end SpikingNeuralP
