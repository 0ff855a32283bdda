import SpikingNeuralP.Proofs.Step.DryRun
import SpikingNeuralP.Proofs.Step.Watched
import SpikingNeuralP.Proofs.Vector.Measure

/-!
# Which requests are refused, and why

Many things can be wrong with a request at once.  They are gathered here without an
order, each read off the vectors alone, and the cause under which the engine refuses is
shown to be the first of them: a wrong length, a neuron with several choices, a closed
neuron that chooses, a count that cannot be held.  A request against which nothing can be
said is granted.  States and requests are arbitrary, with vectors of any lengths.
-/

namespace SpikingNeuralP

/-- Everything that can be said against a request. -/
structure Objections where
  /-- The vectors in the order in which they are measured. -/
  measures : List Measure
  neurons : Nat
  /-- How many of its rules a neuron is asked to choose. -/
  chosen : Nat → Nat
  /-- The neuron is asked to choose although it is closed. -/
  closed : Nat → Prop
  /-- The count of the neuron cannot be held after the step. -/
  overflows : Nat → Prop

namespace Objections

/-- Nothing is said against the request. -/
structure Clear (objections : Objections) : Prop where
  lengths : ∀ measure ∈ objections.measures, measure.misfits = false
  single : ∀ neuron < objections.neurons, ¬1 < objections.chosen neuron
  opened : ∀ neuron < objections.neurons, ¬objections.closed neuron
  held : ∀ neuron < objections.neurons, ¬objections.overflows neuron

/-- The first objection has this cause.  An objection of one kind counts only when there is
none of the kinds before it, and of one kind the least neuron counts. -/
inductive First (objections : Objections) : StepError → Prop
  | length {measure : Measure} (hfirst : objections.measures.find? Measure.misfits = some measure) :
      objections.First (.lengthMismatch measure.vector measure.expected measure.actual)
  | several {neuron : Nat}
      (hlengths : ∀ measure ∈ objections.measures, measure.misfits = false)
      (hleast : IsLeast {neuron | neuron < objections.neurons ∧ 1 < objections.chosen neuron}
        neuron) :
      objections.First (.severalChoices neuron (objections.chosen neuron))
  | closed {neuron : Nat}
      (hlengths : ∀ measure ∈ objections.measures, measure.misfits = false)
      (hsingle : ∀ neuron < objections.neurons, ¬1 < objections.chosen neuron)
      (hleast : IsLeast {neuron | neuron < objections.neurons ∧ objections.closed neuron} neuron) :
      objections.First (.closedNeuron neuron)
  | overflow {neuron : Nat}
      (hlengths : ∀ measure ∈ objections.measures, measure.misfits = false)
      (hsingle : ∀ neuron < objections.neurons, ¬1 < objections.chosen neuron)
      (hopened : ∀ neuron < objections.neurons, ¬objections.closed neuron)
      (hleast : IsLeast {neuron | neuron < objections.neurons ∧ objections.overflows neuron}
        neuron) :
      objections.First (.spikeOverflow neuron)

theorem clear_iff {objections : Objections} :
    objections.Clear ↔ ∀ cause, ¬objections.First cause := by
  constructor
  · intro hclear cause hfirst
    cases hfirst with
    | length hfirst => exact Measure.forall_fits_iff.mp hclear.lengths _ hfirst
    | several _ hleast => exact hclear.single _ hleast.1.1 hleast.1.2
    | closed _ _ hleast => exact hclear.opened _ hleast.1.1 hleast.1.2
    | overflow _ _ _ hleast => exact hclear.held _ hleast.1.1 hleast.1.2
  · intro hnone
    have hlengths : ∀ measure ∈ objections.measures, measure.misfits = false :=
      Measure.forall_fits_iff.mpr fun _ hfirst => hnone _ (.length hfirst)
    have hsingle : ∀ neuron < objections.neurons, ¬1 < objections.chosen neuron :=
      forall_lt_not_iff_forall_not_isLeast.mpr fun _ hleast => hnone _ (.several hlengths hleast)
    have hopened : ∀ neuron < objections.neurons, ¬objections.closed neuron :=
      forall_lt_not_iff_forall_not_isLeast.mpr fun _ hleast =>
        hnone _ (.closed hlengths hsingle hleast)
    exact ⟨hlengths, hsingle, hopened, forall_lt_not_iff_forall_not_isLeast.mpr fun _ hleast =>
      hnone _ (.overflow hlengths hsingle hopened hleast)⟩

end Objections

def State.measures (state : State) (topology : Topology) : List Measure :=
  [⟨"configuration", topology.neuronCount, state.spikes.length⟩,
    ⟨"delay status", topology.neuronCount, state.cooldown.length⟩,
    ⟨"firing", topology.neuronCount, state.firing.length⟩,
    ⟨"delay indicator", topology.ruleCount, state.inFlight.length⟩]

/-- A vector over rules that may not be given. -/
def Topology.givenMeasure {α : Type} (topology : Topology) (vector : String)
    (values : Option (List α)) : List Measure :=
  (values.map fun given => ⟨vector, topology.ruleCount, given.length⟩).toList

/-- The vectors of the state come before those of the request. -/
def Topology.measures (topology : Topology) (state : State) (input : StepInput)
    (inFlight : Option (List Bool)) : List Measure :=
  state.measures topology ++ ⟨"decision", topology.ruleCount, input.decision.length⟩ ::
    (topology.givenMeasure "previous delay indicator" inFlight ++
      topology.givenMeasure "spike train" input.train)

variable {topology : Topology} {state : State} {input : StepInput} {decision : List Bool}
  {cause : StepError}

namespace Topology

/-- The checks of lengths, one after the other, are one walk over the measures. -/
theorem checkShape_eq_forM :
    state.checkShape topology = (state.measures topology).forM Measure.check := by
  simp [State.checkShape, State.measures, Measure.check]

theorem checkGivenLength_eq_forM {α : Type} {vector : String} {values : Option (List α)} :
    checkGivenLength vector topology.ruleCount values =
      (topology.givenMeasure vector values).forM Measure.check := by
  cases values with
  | none => rfl
  | some given => simp [checkGivenLength, givenMeasure, Measure.check]

theorem checkInput_eq_forM {inFlight : Option (List Bool)} :
    topology.checkInput state input inFlight =
      (topology.measures state input inFlight).forM Measure.check := by
  rw [checkInput, checkShape_eq_forM, checkGivenLength_eq_forM, checkGivenLength_eq_forM,
    measures]
  simp [Measure.check]

/-- The request is refused over the first vector of the wrong length. -/
theorem checkInput_eq_error_iff {inFlight : Option (List Bool)} :
    topology.checkInput state input inFlight = .error cause ↔
      ∃ measure, (topology.measures state input inFlight).find? Measure.misfits = some measure ∧
        cause = .lengthMismatch measure.vector measure.expected measure.actual := by
  rw [checkInput_eq_forM, Measure.forM_check_eq_error_iff]

theorem checkInput_eq_ok_iff_fits {inFlight : Option (List Bool)} :
    topology.checkInput state input inFlight = .ok () ↔
      ∀ measure ∈ topology.measures state input inFlight, measure.misfits = false := by
  rw [checkInput_eq_forM, Measure.forM_check_eq_ok_iff]

end Topology

namespace Engine

/-- What can be said against a forward step: the neurons that settle are those open after
it. -/
def forwardObjections (engine : Engine) (state : State) (input : StepInput) : Objections where
  measures := engine.topology.measures state input none
  neurons := engine.topology.neuronCount
  chosen neuron := (engine.topology.ranges.range neuron).countSet input.decision
  closed := engine.topology.ChoosesClosed state input.decision
  overflows neuron :=
    (nextCooldown state.cooldown input.decision engine.topology.delays
      engine.topology.ranges).getD neuron 0 = 0 ∧
    engine.topology.matrix.Overflows (engine.topology.acting state input) input.train .forward
      neuron (state.spikes.getD neuron 0)

/-- What can be said against a step back: its neurons were open when they chose, and the
neurons that settle are those open before it is taken back. -/
def backwardObjections (engine : Engine) (state : State) (past : PastStep) : Objections where
  measures := engine.topology.measures state past.input (some past.inFlight)
  neurons := engine.topology.neuronCount
  chosen neuron := (engine.topology.ranges.range neuron).countSet past.input.decision
  closed _ := False
  overflows neuron :=
    state.cooldown.getD neuron 0 = 0 ∧
    engine.topology.matrix.Overflows
      (actingRules state.cooldown past.input.decision past.inFlight engine.topology.delays
        engine.topology.ranges)
      past.input.train .backward neuron (state.spikes.getD neuron 0)

variable {engine : Engine} {past : PastStep}

theorem length_spikes_of_fits {measures : List Measure}
    (hlengths : ∀ measure ∈ state.measures topology ++ measures, measure.misfits = false) :
    state.spikes.length = topology.neuronCount := by
  simpa [State.measures, Measure.misfits] using
    hlengths _ (List.mem_append_left _ List.mem_cons_self)

theorem forward_eq_error_iff :
    engine.forward state input = .error cause ↔
      (engine.forwardObjections state input).First cause := by
  rw [forward, check_bind_eq_error_iff, check_bind_eq_error_iff,
    Topology.checkInput_eq_error_iff, Topology.checkInput_eq_ok_iff_fits,
    Topology.checkDecision_eq_error_iff, Topology.checkDecision_eq_ok_iff_choosesClosed,
    Topology.checkChoiceCounts_eq_error_iff, Topology.checkChoiceCounts_eq_ok_iff_countSet]
  constructor
  · rintro (⟨measure, hfirst, rfl⟩ | ⟨hlengths, hrest⟩)
    · exact .length hfirst
    rcases hrest with (⟨neuron, hleast, rfl⟩ | ⟨hsingle, neuron, hleast, rfl⟩) |
      ⟨⟨hsingle, hopened⟩, hfail⟩
    · exact .several hlengths hleast
    · exact .closed hlengths hsingle hleast
    · have hsettle := bind_ok_eq_error_iff.mp (bind_ok_eq_error_iff.mp hfail)
      obtain ⟨neuron, hleast, rfl⟩ := (EffectMatrix.settle_eq_error_iff
        (length_spikes_of_fits hlengths) engine.topology.matrix_neurons).mp hsettle
      exact .overflow hlengths hsingle hopened hleast
  · rintro (⟨hfirst⟩ | ⟨hlengths, hleast⟩ | ⟨hlengths, hsingle, hleast⟩ |
      ⟨hlengths, hsingle, hopened, hleast⟩)
    · exact Or.inl ⟨_, hfirst, rfl⟩
    · exact Or.inr ⟨hlengths, Or.inl (Or.inl ⟨_, hleast, rfl⟩)⟩
    · exact Or.inr ⟨hlengths, Or.inl (Or.inr ⟨hsingle, _, hleast, rfl⟩)⟩
    · refine Or.inr ⟨hlengths, Or.inr ⟨⟨hsingle, hopened⟩, ?_⟩⟩
      have hsettle := (EffectMatrix.settle_eq_error_iff (length_spikes_of_fits hlengths)
        engine.topology.matrix_neurons).mpr ⟨_, hleast, rfl⟩
      exact bind_ok_eq_error_iff.mpr (bind_ok_eq_error_iff.mpr hsettle)

theorem backward_eq_error_iff :
    engine.backward state past = .error cause ↔
      (engine.backwardObjections state past).First cause := by
  rw [backward, check_bind_eq_error_iff, check_bind_eq_error_iff,
    Topology.checkInput_eq_error_iff, Topology.checkInput_eq_ok_iff_fits,
    Topology.checkChoiceCounts_eq_error_iff, Topology.checkChoiceCounts_eq_ok_iff_countSet]
  constructor
  · rintro (⟨measure, hfirst, rfl⟩ | ⟨hlengths, ⟨neuron, hleast, rfl⟩ | ⟨hsingle, hfail⟩⟩)
    · exact .length hfirst
    · exact .several hlengths hleast
    · have hsettle := bind_ok_eq_error_iff.mp hfail
      obtain ⟨neuron, hleast, rfl⟩ := (EffectMatrix.settle_eq_error_iff
        (length_spikes_of_fits hlengths) engine.topology.matrix_neurons).mp hsettle
      exact .overflow hlengths hsingle (fun _ _ => not_false) hleast
  · rintro (⟨hfirst⟩ | ⟨hlengths, hleast⟩ | ⟨_, _, hleast⟩ | ⟨hlengths, hsingle, _, hleast⟩)
    · exact Or.inl ⟨_, hfirst, rfl⟩
    · exact Or.inr ⟨hlengths, Or.inl ⟨_, hleast, rfl⟩⟩
    · exact hleast.1.2.elim
    · have hsettle := (EffectMatrix.settle_eq_error_iff (length_spikes_of_fits hlengths)
        engine.topology.matrix_neurons).mpr ⟨_, hleast, rfl⟩
      exact Or.inr ⟨hlengths, Or.inr ⟨hsingle, bind_ok_eq_error_iff.mpr hsettle⟩⟩

/-- A request that passes the checks is refused for the least neuron whose count cannot be
held. -/
theorem forward_eq_error_iff_of_accepts (haccepts : engine.topology.Accepts state input) :
    engine.forward state input = .error cause ↔
      ∃ neuron, IsLeast {neuron | neuron < engine.topology.neuronCount ∧
          (engine.forwardObjections state input).overflows neuron} neuron ∧
        cause = .spikeOverflow neuron := by
  have hinput : engine.topology.checkInput state input none = .ok () :=
    Topology.checkInput_eq_ok_iff.mpr ⟨haccepts.fits, haccepts.inputFits, nofun⟩
  have hlengths := Topology.checkInput_eq_ok_iff_fits.mp hinput
  obtain ⟨hcounts, hopened⟩ := Topology.checkDecision_eq_ok_iff_choosesClosed.mp
    (Topology.checkDecision_eq_ok_iff.mpr haccepts.permits)
  have hsingle := Topology.checkChoiceCounts_eq_ok_iff_countSet.mp hcounts
  rw [forward_eq_error_iff]
  constructor
  · intro hfirst
    cases hfirst with
    | length hfirst => exact absurd hfirst (Measure.forall_fits_iff.mp hlengths _)
    | several _ hleast => exact absurd hleast.1.2 (hsingle _ hleast.1.1)
    | closed _ _ hleast => exact absurd hleast.1.2 (hopened _ hleast.1.1)
    | overflow _ _ _ hleast => exact ⟨_, hleast, rfl⟩
  · rintro ⟨neuron, hleast, rfl⟩
    exact .overflow hlengths hsingle hopened hleast

/-- How the engine answers requests made in a state. -/
structure AnswersExactly (engine : Engine) (state : State) : Prop where
  forward_refused : ∀ input cause,
    engine.forward state input = .error cause ↔ (engine.forwardObjections state input).First cause
  forward_granted : ∀ input,
    (∃ report next, engine.forward state input = .ok (report, next)) ↔
      (engine.forwardObjections state input).Clear
  /-- Watching the reads changes nothing, so none goes past the end of its vector. -/
  forward_reads : ∀ input,
    engine.watchedForward state input = (engine.forward state input).mapError .refused
  backward_refused : ∀ past cause,
    engine.backward state past = .error cause ↔ (engine.backwardObjections state past).First cause
  backward_granted : ∀ past,
    (∃ before, engine.backward state past = .ok before) ↔
      (engine.backwardObjections state past).Clear
  backward_reads : ∀ past,
    engine.watchedBackward state past = (engine.backward state past).mapError .refused

/-- In every state, whatever its vectors hold and however long they are, the engine refuses
for the first objection and grants what nothing is said against. -/
theorem answersExactly (engine : Engine) (state : State) : engine.AnswersExactly state where
  forward_refused _ _ := forward_eq_error_iff
  forward_granted input := by
    rw [Objections.clear_iff, ← Prod.exists', exists_eq_ok_iff_forall_ne_error]
    simp only [ne_eq, forward_eq_error_iff]
  forward_reads := engine.watchedForward_eq state
  backward_refused _ _ := backward_eq_error_iff
  backward_granted past := by
    rw [Objections.clear_iff, exists_eq_ok_iff_forall_ne_error]
    simp only [ne_eq, backward_eq_error_iff]
  backward_reads := engine.watchedBackward_eq state

/-- Two choices are reported although the neuron before them is closed and chooses. -/
example :
    let topology : Topology := ⟨[1, 2], [0, 0, 0], .zeros 2 3, rfl, rfl, rfl⟩
    let state : State := ⟨[0, 0], [1, 0], [false, false, false], [false, false]⟩
    (Engine.mk topology false).forward state ⟨[true, true, true], none⟩ =
      .error (.severalChoices 1 2) := rfl

end Engine

end SpikingNeuralP
