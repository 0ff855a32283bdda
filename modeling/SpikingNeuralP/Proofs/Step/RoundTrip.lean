import SpikingNeuralP.Proofs.Step.Phase

/-!
# Taking steps back

A step back starts from the cooldown the step ended with and from the rules in
flight before it.  The cooldown tells which rules the step released, so the same
gain is found and subtracted; the old cooldown follows from the old rules in
flight because the two are coupled.  Undoing a whole run in reverse order
therefore meets every state of the run again, except that the firing neurons stay
those of its last state.
-/

namespace SpikingNeuralP

theorem oneLonger_sub_one (remaining : UInt32) (hwaits : 0 < remaining) :
    oneLonger (remaining - 1) = remaining := by
  have hrestored : remaining - 1 + 1 = remaining := UInt32.sub_add_cancel remaining 1
  rw [oneLonger, hrestored, if_neg (UInt32.pos_iff_ne_zero.mp hwaits)]

namespace Topology.Advances

variable {topology : Topology} {state next : State} {input : StepInput}

/-- The old cooldown is recovered from the new one and the rules that were in
flight. -/
theorem previousCooldown_eq (hstep : topology.Advances state input next)
    (hcoupled : state.Coupled topology) :
    previousCooldown next.cooldown state.inFlight topology.ranges = state.cooldown := by
  apply eq_of_getD_eq (by simp [hstep.fits.cooldown]) 0
  intro neuron hneuron
  rw [length_previousCooldown, neuronCount_ranges] at hneuron
  have hentry : (previousCooldown next.cooldown state.inFlight topology.ranges).getD neuron 0 =
      if (topology.ranges.range neuron).anySet state.inFlight then
        oneLonger (next.cooldown.getD neuron 0)
      else 0 := getD_map_enumerate hneuron _ 0
  rw [hentry]
  by_cases hclosed : 0 < state.cooldown.getD neuron 0
  · rw [if_pos ((hcoupled neuron hneuron).mp hclosed), hstep.cooldown_of_closed hneuron hclosed,
      oneLonger_sub_one _ hclosed]
  · rw [if_neg (mt (hcoupled neuron hneuron).mpr hclosed)]
    by_contra hcooldown
    exact hclosed (UInt32.pos_iff_ne_zero.mpr (Ne.symm hcooldown))

/-- The gain that was added is found again and taken back. -/
theorem settle_backward (hstep : topology.Advances state input next) :
    topology.matrix.settle next.spikes next.cooldown (topology.acting state input) input.train
      .backward = .ok state.spikes := by
  obtain ⟨hlength, hentries⟩ := EffectMatrix.settle_eq_ok_iff.mp hstep.spikes
  refine EffectMatrix.settle_eq_ok_iff.mpr ⟨hlength.symm, fun neuron hneuron => ?_⟩
  have hentry := hentries neuron (hlength ▸ hneuron)
  split at hentry
  case isTrue hopen =>
    rw [if_pos hopen]
    obtain ⟨gain, hgain, hmoved⟩ := EffectMatrix.settle?_eq_some_iff.mp hentry
    refine EffectMatrix.settle?_eq_some_iff.mpr ⟨gain, hgain, ?_⟩
    simp only [Direction.apply] at hmoved ⊢
    omega
  case isFalse hclosed =>
    rw [if_neg hclosed]
    exact hentry.symm

end Topology.Advances

namespace Engine

/-- Taking back the step that led to a state restores what it started from,
whatever neurons are marked as firing. -/
theorem backward_of_advances {engine : Engine} {state next : State} {input : StepInput}
    {firing : List Bool} (hstep : engine.topology.Advances state input next)
    (hcoupled : state.Coupled engine.topology)
    (hfiring : firing.length = engine.topology.neuronCount) :
    engine.backward { next with firing } { input, inFlight := state.inFlight } =
      .ok { state with firing } := by
  have hnext := hstep.next_fits
  have hinput : engine.topology.checkInput { next with firing } input (some state.inFlight) =
      .ok () :=
    Topology.checkInput_eq_ok_iff.mpr
      ⟨⟨hnext.spikes, hnext.cooldown, hfiring, hnext.inFlight⟩, hstep.inputFits,
        fun flags hflags => Option.some.inj hflags ▸ hstep.fits.inFlight⟩
  have hchoices : engine.topology.checkChoiceCounts input.decision = .ok () :=
    Topology.checkChoiceCounts_eq_ok_iff.mpr hstep.permits.single
  have hacting : actingRules next.cooldown input.decision state.inFlight engine.topology.delays
      engine.topology.ranges = engine.topology.acting state input := by
    rw [hstep.cooldown, Topology.acting]
  rw [backward, check_bind_eq_ok_iff, check_bind_eq_ok_iff, Topology.retreat, bind_eq_ok_iff]
  dsimp only
  rw [hacting, hstep.previousCooldown_eq hcoupled]
  exact ⟨hinput, hchoices, state.spikes, hstep.settle_backward, rfl⟩

/-- Steps forward with one input after the other.  The answer holds the states
the steps started from, in order, and the state after the last step. -/
def forwardRun (engine : Engine) (state : State) :
    List StepInput → Except StepError (List State × State)
  | [] => .ok ([], state)
  | input :: inputs => do
      let (_, next) ← engine.forward state input
      let (states, last) ← engine.forwardRun next inputs
      return (state :: states, last)

/-- Takes one step back after the other.  The answer holds the states reached, in
order. -/
def backwardRun (engine : Engine) (state : State) : List PastStep → Except StepError (List State)
  | [] => .ok []
  | past :: pasts => do
      let before ← engine.backward state past
      let earlier ← engine.backwardRun before pasts
      return before :: earlier

/-- What is kept of the steps of a run, in order: their inputs and the rules in
flight before them. -/
def pastSteps (inputs : List StepInput) (states : List State) : List PastStep :=
  List.zipWith (fun input state => { input, inFlight := state.inFlight }) inputs states

theorem forwardRun_cons_eq_ok_iff {engine : Engine} {state last : State} {input : StepInput}
    {inputs : List StepInput} {states : List State} :
    engine.forwardRun state (input :: inputs) = .ok (states, last) ↔
      ∃ next later, engine.topology.Advances state input next ∧
        engine.forwardRun next inputs = .ok (later, last) ∧ states = state :: later := by
  rw [forwardRun, bind_eq_ok_iff]
  constructor
  · rintro ⟨⟨report, next⟩, hstep, hrest⟩
    obtain ⟨⟨later, last'⟩, hlater, hanswer⟩ := bind_eq_ok_iff.mp hrest
    obtain ⟨rfl, rfl⟩ := Prod.mk.inj (Except.ok.inj hanswer)
    exact ⟨next, later, (forward_eq_ok_iff.mp hstep).1, hlater, rfl⟩
  · rintro ⟨next, later, hstep, hlater, rfl⟩
    exact ⟨(engine.report state next, next), forward_eq_ok_iff.mpr ⟨hstep, rfl⟩,
      bind_eq_ok_iff.mpr ⟨(later, last), hlater, rfl⟩⟩

/-- Undoing two groups of steps continues from the state the first group leads
back to. -/
theorem backwardRun_append {engine : Engine} {state : State} {pasts later : List PastStep}
    {states rest : List State} (hpasts : engine.backwardRun state pasts = .ok states)
    (hlater : engine.backwardRun (states.getLast?.getD state) later = .ok rest) :
    engine.backwardRun state (pasts ++ later) = .ok (states ++ rest) := by
  induction pasts generalizing state states with
  | nil =>
      obtain rfl := Except.ok.inj hpasts
      exact hlater
  | cons past pasts ih =>
      obtain ⟨before, hbefore, hrest⟩ := bind_eq_ok_iff.mp hpasts
      obtain ⟨earlier, hearlier, hanswer⟩ := bind_eq_ok_iff.mp hrest
      obtain rfl := Except.ok.inj hanswer
      rw [List.getLast?_cons, Option.getD_some] at hlater
      exact bind_eq_ok_iff.mpr
        ⟨before, hbefore, bind_eq_ok_iff.mpr ⟨earlier ++ rest, ih hearlier hlater, rfl⟩⟩

theorem fits_of_forwardRun {engine : Engine} {state last : State} {inputs : List StepInput}
    {states : List State} (hfits : state.Fits engine.topology)
    (hrun : engine.forwardRun state inputs = .ok (states, last)) : last.Fits engine.topology := by
  induction inputs generalizing state states with
  | nil =>
      obtain ⟨_, rfl⟩ := Prod.mk.inj (Except.ok.inj hrun)
      exact hfits
  | cons input inputs ih =>
      obtain ⟨next, later, hstep, hlater, _⟩ := forwardRun_cons_eq_ok_iff.mp hrun
      exact ih hstep.next_fits hlater

/-- The state a run starts from comes last when its states are met in reverse. -/
theorem getLast?_reverse_of_forwardRun {engine : Engine} {state last : State}
    {inputs : List StepInput} {states : List State}
    (hrun : engine.forwardRun state inputs = .ok (states, last)) :
    states.reverse.getLast?.getD last = state := by
  cases inputs with
  | nil =>
      obtain ⟨rfl, rfl⟩ := Prod.mk.inj (Except.ok.inj hrun)
      rfl
  | cons input inputs =>
      obtain ⟨_, later, _, _, rfl⟩ := forwardRun_cons_eq_ok_iff.mp hrun
      simp

theorem backwardRun_of_forwardRun {engine : Engine} {state last : State}
    {inputs : List StepInput} {states : List State} {firing : List Bool}
    (hcoupled : state.Coupled engine.topology)
    (hrun : engine.forwardRun state inputs = .ok (states, last))
    (hfiring : firing.length = engine.topology.neuronCount) :
    engine.backwardRun { last with firing } (pastSteps inputs states).reverse =
      .ok (states.reverse.map fun before => { before with firing }) := by
  induction inputs generalizing state states with
  | nil =>
      obtain ⟨rfl, rfl⟩ := Prod.mk.inj (Except.ok.inj hrun)
      rfl
  | cons input inputs ih =>
      obtain ⟨next, later, hstep, hlater, rfl⟩ := forwardRun_cons_eq_ok_iff.mp hrun
      -- The later steps are taken back first; they lead to the state after this one.
      have hundone := ih (hstep.coupled hcoupled) hlater
      have hreached : ((later.reverse.map fun before => { before with firing }).getLast?.getD
          { last with firing } : State) = { next with firing } := by
        rw [List.getLast?_map, ← getLast?_reverse_of_forwardRun hlater]
        cases later.reverse.getLast? with
        | none => rfl
        | some before => rfl
      have hfirst : engine.backwardRun { next with firing } [⟨input, state.inFlight⟩] =
          .ok [{ state with firing }] := by
        rw [backwardRun, backward_of_advances hstep hcoupled hfiring]
        rfl
      have hall := backwardRun_append hundone (hreached ▸ hfirst)
      simpa [pastSteps] using hall

/-- Undoing an accepted run in reverse order succeeds at every level and meets
every state of the run again, with the firing neurons of its last state. -/
theorem backwardRun_forwardRun {engine : Engine} {state last : State}
    {inputs : List StepInput} {states : List State} (hfits : state.Fits engine.topology)
    (hcoupled : state.Coupled engine.topology)
    (hrun : engine.forwardRun state inputs = .ok (states, last)) :
    engine.backwardRun last (pastSteps inputs states).reverse =
      .ok (states.reverse.map fun before => { before with firing := last.firing }) :=
  backwardRun_of_forwardRun hcoupled hrun (fits_of_forwardRun hfits hrun).firing

/-- Neuron 0 is about to reach the largest count and neuron 1 is in the longest
wait there is. -/
def strainedState : State where
  spikes := [2147483645, 3, 4]
  cooldown := [0, 4294967295, 0]
  inFlight := [false, true, false]
  firing := [true, false, false]

def strainedEngine : Engine where
  topology :=
    { counts := [1, 1, 1]
      delays := [0, 4294967295, 1]
      matrix :=
        { neurons := 3
          rules := 3
          values := [1, 0, 0, -1, 0, -2, 0, 0, -3]
          shape := rfl }
      delays_length := rfl
      matrix_neurons := rfl
      matrix_rules := rfl }
  tracksChanges := true

def strainedInputs : List StepInput :=
  [⟨[true, false, true], some [1, 7, 0]⟩, ⟨[false, false, false], none⟩]

theorem backwardRun_forwardRun_strained :
    ∃ states last,
      strainedEngine.forwardRun strainedState strainedInputs = .ok (states, last) ∧
        strainedEngine.backwardRun last (pastSteps strainedInputs states).reverse =
          .ok (states.reverse.map fun before => { before with firing := last.firing }) := by
  have hcoupled : strainedState.Coupled strainedEngine.topology := by decide
  exact ⟨_, _, rfl, backwardRun_forwardRun ⟨rfl, rfl, rfl, rfl⟩ hcoupled rfl⟩

end Engine

end SpikingNeuralP
