import Mathlib.Data.List.Find
import SpikingNeuralP.Proofs.Step.Walk

/-!
# A choice is worth a spike

A rule without delay that is chosen acts at once, and an action counts in every gain as one
spike from the environment does.  So the choice can be traded for a spike: in every state
and for vectors of any lengths the step ends alike, granted with the same report and state
or refused for the same cause.  And a step without a train is one with a train of zeros.
-/

namespace SpikingNeuralP

/-- The train in which nothing arrives. -/
def Topology.silence (topology : Topology) : List UInt32 :=
  List.replicate topology.ruleCount 0

namespace StepInput

/-- The input with one more rule chosen. -/
def choosing (input : StepInput) (rule : Nat) : StepInput :=
  { input with decision := input.decision.set rule true }

/-- The input with one more spike at the rule; without a train it is the only one. -/
def receiving (input : StepInput) (topology : Topology) (rule : Nat) : StepInput :=
  let arriving := input.train.getD topology.silence
  { input with train := some (arriving.set rule (arriving.getD rule 0 + 1)) }

end StepInput

/-- The neuron is open, has made no choice yet and would act at once on the rule. -/
structure Topology.Offers (topology : Topology) (state : State) (decision : List Bool)
    (neuron rule : Nat) : Prop where
  owns : topology.Owns neuron rule
  prompt : topology.delays.getD rule 0 = 0
  opened : state.isOpen topology neuron = true
  idle : ∀ other, topology.Owns neuron other → decision.getD other false = false

section Multiplicities

variable {acting acting' : List Bool} {train train' : Option (List UInt32)}

/-- A gain does not tell an action from a spike that arrives. -/
theorem gainFrom_congr (htimes : multiplicity acting train = multiplicity acting' train')
    (rule : Nat) (total : Int) (cells : List Int32) :
    gainFrom acting train rule total cells = gainFrom acting' train' rule total cells := by
  induction cells generalizing rule total with
  | nil => rfl
  | cons cell cells ih => simp only [gainFrom, htimes, ih]

theorem EffectMatrix.settle_congr (htimes : multiplicity acting train = multiplicity acting' train')
    (matrix : EffectMatrix) (spikes : List Int32) (cooldown : List UInt32)
    (direction : Direction) :
    matrix.settle spikes cooldown acting train direction =
      matrix.settle spikes cooldown acting' train' direction := by
  simp only [settle, settle?, gain?, gainFrom_congr htimes]

/-- Neither does firing: a neuron fires over a rule that contributes at all. -/
theorem firingNeurons_congr (htimes : multiplicity acting train = multiplicity acting' train')
    (ranges : RuleRanges) :
    firingNeurons acting train ranges = firingNeurons acting' train' ranges := by
  have hcontributes : ∀ (acting : List Bool) (train : Option (List UInt32)) (rule : Nat),
      (acting.getD rule false || decide (0 < arrivals train rule)) =
        decide (0 < multiplicity acting train rule) := by
    intro acting train rule
    rw [multiplicity]
    cases acting.getD rule false with
    | true => simp
    | false => simp [UInt32.lt_iff_toNat_lt]
  simp only [firingNeurons, hcontributes, htimes]

end Multiplicities

namespace Topology

variable {topology : Topology} {state : State} {input : StepInput} {decision : List Bool}
  {neuron rule : Nat}

/-- Apart from the rules it leaves in flight, a step reads what acts and what arrives as
multiplicities only. -/
theorem advance_congr {left right : StepInput}
    (hcooldown : nextCooldown state.cooldown left.decision topology.delays topology.ranges =
      nextCooldown state.cooldown right.decision topology.delays topology.ranges)
    (htimes : multiplicity (topology.acting state left) left.train =
      multiplicity (topology.acting state right) right.train)
    (hinFlight : nextInFlight state.inFlight (topology.acting state left) left.decision
        topology.delays =
      nextInFlight state.inFlight (topology.acting state right) right.decision topology.delays) :
    topology.advance state left = topology.advance state right := by
  rw [acting, acting, hcooldown] at htimes hinFlight
  simp only [advance, hcooldown, hinFlight, EffectMatrix.settle_congr htimes,
    firingNeurons_congr htimes]

theorem arrivals_silence (topology : Topology) (train : Option (List UInt32)) (rule : Nat) :
    (train.getD topology.silence).getD rule 0 = arrivals train rule := by
  cases train with
  | none => simp [arrivals, silence, List.getElem?_getD_replicate_default_eq]
  | some arriving => rfl

theorem length_silence (topology : Topology) : topology.silence.length = topology.ruleCount :=
  List.length_replicate

namespace Offers

section Decision

variable (hoffers : topology.Offers state decision neuron rule)

include hoffers

/-- A rule of an open neuron does not wait for its release. -/
theorem landed : state.inFlight.getD rule false = false :=
  (State.isOpen_eq_true_iff.mp hoffers.opened).2 rule hoffers.owns

/-- The choice is seen at its own rule and nowhere else. -/
theorem getD_set_of_owns {owner other : Nat} (howner : owner ≠ neuron)
    (howns : topology.Owns owner other) :
    (decision.set rule true).getD other false = decision.getD other false := by
  have hother : rule ≠ other := by
    rintro rfl
    exact howner (howns.unique hoffers.owns)
  rw [List.getD_eq_getElem?_getD, List.getElem?_set_ne hother, List.getD_eq_getElem?_getD]

theorem eq_of_getD_set {other : Nat} (howns : topology.Owns neuron other)
    (hset : (decision.set rule true).getD other false = true) : other = rule := by
  by_contra hother
  rw [List.getD_eq_getElem?_getD, List.getElem?_set_ne (Ne.symm hother),
    ← List.getD_eq_getElem?_getD, hoffers.idle other howns] at hset
  contradiction

theorem countSet_set_of_ne {other : Nat} (hother : other ≠ neuron) :
    (topology.ranges.range other).countSet (decision.set rule true) =
      (topology.ranges.range other).countSet decision := by
  apply List.countP_congr
  intro position hposition
  rw [hoffers.getD_set_of_owns hother hposition]

/-- The choice is the only one of its neuron, so no neuron chooses too often for it. -/
theorem checkChoiceCounts_set :
    topology.checkChoiceCounts (decision.set rule true) = topology.checkChoiceCounts decision := by
  have hbefore : ¬1 < (topology.ranges.range neuron).countSet decision := by
    rw [Nat.not_lt, countSet_le_one_iff]
    intro first _ hfirst _ hset
    rw [hoffers.idle first hfirst] at hset
    contradiction
  have hafter : ¬1 < (topology.ranges.range neuron).countSet (decision.set rule true) := by
    rw [Nat.not_lt, countSet_le_one_iff]
    intro first second hfirst hsecond hset hset'
    rw [hoffers.eq_of_getD_set hfirst hset, hoffers.eq_of_getD_set hsecond hset']
  have hseveral : ∀ other, 1 < (topology.ranges.range other).countSet (decision.set rule true) ↔
      1 < (topology.ranges.range other).countSet decision := by
    intro other
    by_cases hother : other = neuron
    · rw [hother]
      exact iff_of_false hafter hbefore
    · rw [hoffers.countSet_set_of_ne hother]
  apply check_eq_of_forall_eq_error_iff
  intro cause
  simp only [checkChoiceCounts_eq_error_iff, hseveral]
  apply exists_congr
  intro other
  apply and_congr_right
  intro hleast
  have hother : other ≠ neuron := by
    rintro rfl
    exact hbefore hleast.1.2
  rw [hoffers.countSet_set_of_ne hother]

theorem checkDecision_set :
    topology.checkDecision state (decision.set rule true) =
      topology.checkDecision state decision := by
  have hclosed : ∀ other, topology.ChoosesClosed state (decision.set rule true) other ↔
      topology.ChoosesClosed state decision other := by
    intro other
    by_cases hother : other = neuron
    · subst hother
      simp [ChoosesClosed, hoffers.opened]
    · rw [ChoosesClosed, ChoosesClosed, hoffers.countSet_set_of_ne hother]
  apply check_eq_of_forall_eq_error_iff
  intro cause
  simp only [checkDecision_eq_error_iff, hoffers.checkChoiceCounts_set, hclosed]

theorem nextCooldown_set :
    nextCooldown state.cooldown (decision.set rule true) topology.delays topology.ranges =
      nextCooldown state.cooldown decision topology.delays topology.ranges := by
  apply List.map_congr_left
  rw [forall_mem_enumerate]
  intro other _
  by_cases hother : other = neuron
  · -- Nothing was chosen here, and the rule has no delay to take over.
    subst hother
    have hnone : (topology.ranges.range other).firstSet? decision = none :=
      firstSet?_eq_none_iff.mpr hoffers.idle
    simp only [hnone]
    cases hfirst : (topology.ranges.range other).firstSet? (decision.set rule true) with
    | none => rfl
    | some first =>
        obtain ⟨howns, hset⟩ := owns_of_firstSet? hfirst
        simp only [hoffers.eq_of_getD_set howns hset, hoffers.prompt]
  · have hfirst : (topology.ranges.range other).firstSet? (decision.set rule true) =
        (topology.ranges.range other).firstSet? decision :=
      List.find?_congr fun position hposition => hoffers.getD_set_of_owns hother hposition
    simp only [hfirst]

/-- The neuron of the rule is open after the step. -/
theorem getD_nextCooldown :
    (nextCooldown state.cooldown decision topology.delays topology.ranges).getD neuron 0 = 0 := by
  have hopen := (State.isOpen_eq_true_iff.mp hoffers.opened).1
  rw [nextCooldown, getD_map_enumerate hoffers.owns.neuron_lt]
  simp only [hopen, firstSet?_eq_none_iff.mpr hoffers.idle]
  rfl

end Decision

section Input

variable (hoffers : topology.Offers state input.decision neuron rule)

include hoffers

/-- Nothing acts at the rule unless it is chosen. -/
theorem getD_acting : (topology.acting state input).getD rule false = false := by
  rw [acting, getD_actingRules hoffers.owns, hoffers.idle rule hoffers.owns, hoffers.landed]
  simp

/-- What acts besides is the same with and without the choice. -/
theorem acting_choosing (hdecision : input.decision.length = topology.ruleCount) :
    topology.acting state (input.choosing rule) =
      (topology.acting state input).set rule true := by
  have hlength : ∀ input, (topology.acting state input).length = topology.ruleCount :=
    fun input => topology.length_actingRules _ _ _
  have hrule := hoffers.owns.rule_lt
  apply eq_of_getD_eq (by rw [List.length_set, hlength, hlength]) false
  intro other hother
  obtain ⟨owner, howns⟩ := exists_owns (hlength _ ▸ hother)
  rw [getD_set (Or.inl ((hlength input).symm ▸ hrule)), acting, acting, StepInput.choosing,
    hoffers.nextCooldown_set, getD_actingRules howns, getD_actingRules howns,
    getD_set (Or.inl (hdecision.symm ▸ hrule))]
  split
  case isTrue hsame =>
    subst hsame
    rw [howns.unique hoffers.owns, hoffers.getD_nextCooldown, hoffers.prompt]
    rfl
  case isFalse => rfl

theorem nextInFlight_choosing (hdecision : input.decision.length = topology.ruleCount) :
    nextInFlight state.inFlight (topology.acting state (input.choosing rule))
        (input.choosing rule).decision topology.delays =
      nextInFlight state.inFlight (topology.acting state input) input.decision
        topology.delays := by
  have hrule := hoffers.owns.rule_lt
  have hacting : rule < (topology.acting state input).length := by
    rwa [acting, length_actingRules]
  rw [hoffers.acting_choosing hdecision]
  apply List.map_congr_left
  rintro ⟨flying, other⟩ hentry
  dsimp only [StepInput.choosing]
  rw [getD_set (Or.inl hacting), getD_set (Or.inl (hdecision.symm ▸ hrule))]
  by_cases hother : other = rule
  · have hflying : flying = false := by
      have hthere := List.mem_zipIdx_iff_getElem?.mp hentry
      have hlanded := hoffers.landed
      rw [List.getD_eq_getElem?_getD, ← hother, hthere] at hlanded
      exact hlanded
    rw [if_pos hother, if_pos hother, hother, hflying, hoffers.prompt]
    simp
  · rw [if_neg hother, if_neg hother]

/-- The action at the rule and the spike that arrives there make up for each other. -/
theorem multiplicity_choosing (hinput : input.Fits topology)
    (hroom : (arrivals input.train rule).toNat < 2 ^ 32 - 1) :
    multiplicity (topology.acting state (input.choosing rule)) input.train =
      multiplicity (topology.acting state input) (input.receiving topology rule).train := by
  have hacting : rule < (topology.acting state input).length := by
    rw [acting, length_actingRules]
    exact hoffers.owns.rule_lt
  have harriving : rule < (input.train.getD topology.silence).length := by
    cases htrain : input.train with
    | none => exact topology.length_silence.symm ▸ hoffers.owns.rule_lt
    | some arriving => exact (hinput.train arriving htrain).symm ▸ hoffers.owns.rule_lt
  funext other
  have harrivals : arrivals (input.receiving topology rule).train other =
      if other = rule then arrivals input.train rule + 1 else arrivals input.train other := by
    rw [arrivals, StepInput.receiving, Option.getD_some, getD_set (Or.inl harriving),
      arrivals_silence, arrivals_silence]
  rw [multiplicity, multiplicity, harrivals, hoffers.acting_choosing hinput.decision,
    getD_set (Or.inl hacting)]
  by_cases hother : other = rule
  · have hsum : (arrivals input.train rule + 1).toNat = (arrivals input.train rule).toNat + 1 := by
      rw [UInt32.toNat_add, UInt32.toNat_one]
      omega
    rw [if_pos hother, if_pos hother, hother, hoffers.getD_acting, hsum]
    simp [Nat.add_comm]
  · rw [if_neg hother, if_neg hother]

theorem advance_choosing (hinput : input.Fits topology)
    (hroom : (arrivals input.train rule).toNat < 2 ^ 32 - 1) :
    topology.advance state (input.choosing rule) =
      topology.advance state (input.receiving topology rule) :=
  advance_congr hoffers.nextCooldown_set (hoffers.multiplicity_choosing hinput hroom)
    (hoffers.nextInFlight_choosing hinput.decision)

end Input

end Offers

/-- A train that is not given passes the check of its length as silence does. -/
theorem checkLength_getD_silence (topology : Topology) (train : Option (List UInt32)) :
    checkLength "spike train" topology.ruleCount (train.getD topology.silence).length =
      checkGivenLength "spike train" topology.ruleCount train := by
  cases train with
  | none => rw [Option.getD_none, length_silence, checkLength, if_pos rfl, checkGivenLength]
  | some arriving => rfl

/-- Of an input only the lengths are checked at first. -/
theorem checkInput_congr {left right : StepInput} {inFlight : Option (List Bool)}
    (hdecision : left.decision.length = right.decision.length)
    (htrain : checkGivenLength "spike train" topology.ruleCount left.train =
      checkGivenLength "spike train" topology.ruleCount right.train) :
    topology.checkInput state left inFlight = topology.checkInput state right inFlight := by
  simp only [checkInput, hdecision, htrain]

theorem checkInput_choosing (topology : Topology) (state : State) (input : StepInput)
    (rule : Nat) :
    topology.checkInput state (input.choosing rule) none =
      topology.checkInput state (input.receiving topology rule) none := by
  apply checkInput_congr List.length_set
  rw [StepInput.receiving, checkGivenLength, List.length_set, checkLength_getD_silence]
  rfl

theorem checkInput_silence (topology : Topology) (state : State) (decision : List Bool)
    (inFlight : Option (List Bool)) :
    topology.checkInput state ⟨decision, some topology.silence⟩ inFlight =
      topology.checkInput state ⟨decision, none⟩ inFlight :=
  checkInput_congr rfl (topology.checkLength_getD_silence none)

theorem multiplicity_silence (topology : Topology) (acting : List Bool) :
    multiplicity acting (some topology.silence) = multiplicity acting none := by
  funext rule
  have harrivals : arrivals (some topology.silence) rule = arrivals none rule :=
    topology.arrivals_silence none rule
  rw [multiplicity, multiplicity, harrivals]

end Topology

namespace Engine

variable {engine : Engine} {state : State} {input : StepInput} {neuron rule : Nat}

theorem forward_choosing (hoffers : engine.topology.Offers state input.decision neuron rule)
    (hroom : (arrivals input.train rule).toNat < 2 ^ 32 - 1) :
    engine.forward state (input.choosing rule) =
      engine.forward state (input.receiving engine.topology rule) := by
  rw [forward, forward, ← engine.topology.checkInput_choosing]
  cases hchecked : engine.topology.checkInput state (input.choosing rule) none with
  | error cause => rfl
  | ok checked =>
      obtain ⟨_, hchoosing, _⟩ := Topology.checkInput_eq_ok_iff.mp hchecked
      have hinput : input.Fits engine.topology :=
        ⟨by simpa [StepInput.choosing] using hchoosing.decision, hchoosing.train⟩
      have hdecision : engine.topology.checkDecision state (input.choosing rule).decision =
          engine.topology.checkDecision state (input.receiving engine.topology rule).decision :=
        hoffers.checkDecision_set
      rw [ok_bind, ok_bind, hdecision, hoffers.advance_choosing hinput hroom]

theorem forward_silence (engine : Engine) (state : State) (decision : List Bool) :
    engine.forward state ⟨decision, some engine.topology.silence⟩ =
      engine.forward state ⟨decision, none⟩ := by
  have hadvance : engine.topology.advance state ⟨decision, some engine.topology.silence⟩ =
      engine.topology.advance state ⟨decision, none⟩ :=
    Topology.advance_congr rfl (engine.topology.multiplicity_silence _) rfl
  rw [forward, forward, Topology.checkInput_silence, hadvance]

theorem backward_silence (engine : Engine) (state : State) (decision inFlight : List Bool) :
    engine.backward state ⟨⟨decision, some engine.topology.silence⟩, inFlight⟩ =
      engine.backward state ⟨⟨decision, none⟩, inFlight⟩ := by
  have hretreat : engine.topology.retreat state
      ⟨⟨decision, some engine.topology.silence⟩, inFlight⟩ =
        engine.topology.retreat state ⟨⟨decision, none⟩, inFlight⟩ := by
    simp only [Topology.retreat,
      EffectMatrix.settle_congr (engine.topology.multiplicity_silence _)]
  rw [backward, backward, Topology.checkInput_silence, hretreat]

/-- What can be traded in a step without a difference to how it ends. -/
structure ExchangesSpikes (engine : Engine) : Prop where
  choice : ∀ (state : State) (input : StepInput) (neuron rule : Nat),
    engine.topology.Offers state input.decision neuron rule →
      (arrivals input.train rule).toNat < 2 ^ 32 - 1 →
        engine.forward state (input.choosing rule) =
          engine.forward state (input.receiving engine.topology rule)
  silence_forward : ∀ (state : State) (decision : List Bool),
    engine.forward state ⟨decision, some engine.topology.silence⟩ =
      engine.forward state ⟨decision, none⟩
  silence_backward : ∀ (state : State) (decision inFlight : List Bool),
    engine.backward state ⟨⟨decision, some engine.topology.silence⟩, inFlight⟩ =
      engine.backward state ⟨⟨decision, none⟩, inFlight⟩

theorem exchangesSpikes (engine : Engine) : engine.ExchangesSpikes where
  choice _ _ _ _ := forward_choosing
  silence_forward := engine.forward_silence
  silence_backward := engine.backward_silence

/-- Rule 0 is chosen in one step and receives a spike more in the other; the first pair of
steps is granted, and in the second neuron 0 cannot hold what arrives. -/
theorem exchangesSpikes_strained :
    ∃ outcome : StepReport × State,
      outcome.2 = ⟨[8, 0, 4], [0, 0, 1], [false, false, true], [true, true, false]⟩ ∧
        strainedEngine.forward restingState ⟨[true, false, true], some [2, 7, 0]⟩ =
          .ok outcome ∧
        strainedEngine.forward restingState ⟨[false, false, true], some [3, 7, 0]⟩ =
          .ok outcome ∧
        strainedEngine.forward restingState ⟨[true, false, true], some [4294967294, 0, 0]⟩ =
          .error (.spikeOverflow 0) ∧
        strainedEngine.forward restingState ⟨[false, false, true], some [4294967295, 0, 0]⟩ =
          .error (.spikeOverflow 0) := by
  have hidle : ∀ other ∈ (strainedEngine.topology.ranges.range 0).rules,
      [false, false, true].getD other false = false := by decide
  have hoffers : strainedEngine.topology.Offers restingState [false, false, true] 0 0 :=
    ⟨by decide, rfl, rfl, hidle⟩
  have hgranted := (exchangesSpikes strainedEngine).choice restingState
    ⟨[false, false, true], some [2, 7, 0]⟩ 0 0 hoffers (by decide)
  have hrefused := (exchangesSpikes strainedEngine).choice restingState
    ⟨[false, false, true], some [4294967294, 0, 0]⟩ 0 0 hoffers (by decide)
  exact ⟨_, rfl, rfl, hgranted.symm, rfl, hrefused.symm⟩

end Engine

end SpikingNeuralP
