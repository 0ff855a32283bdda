import SpikingNeuralP.Proofs.Session.Moves
import SpikingNeuralP.Proofs.Simulation.Boundary

/-!
# Where a session stops

A session chooses among the applicable rules only, by either selection, so the
decisions it makes are never refused.  It fails to step in the final
configuration and for a spike count that cannot be held, it fails to go back at
the start, and a failure leaves its simulator as it was.  Nothing is assumed of
random choices but that they are choices.
-/

namespace SpikingNeuralP

namespace Session

variable {network : Network} {selection : Selection} {seed : UInt64} {start session : Session}
  {choices : List (Option Nat)} {random : RandomSource}

/-- The sessions that moves lead to, with any choices of applicable rules for the
steps and whatever these leave of the random source. -/
inductive Reaches (start : Session) : Session → Prop
  | refl : Reaches start start
  | step {session : Session} (hreaches : Reaches start session) (choices : List (Option Nat))
      (random : RandomSource) (hadmits : session.simulator.Admits choices) :
      Reaches start (session.stepWith choices random).2
  | stepBack {session moved : Session} (hreaches : Reaches start session)
      (hback : session.stepBack = .ok moved) : Reaches start moved
  | reset {session : Session} (hreaches : Reaches start session) : Reaches start session.reset

theorem Reaches.simulator (hreaches : start.Reaches session) :
    start.simulator.Reaches (fun _ _ => True) session.simulator := by
  induction hreaches with
  | refl => exact .refl
  | step _ choices random _ ih => exact reaches_stepWith ih
  | stepBack _ hback ih => exact reaches_stepBack ih hback
  | reset _ ih => exact reaches_reset ih

/-- By either selection, a session chooses among the applicable rules. -/
theorem admits_choose (session : Session) : session.simulator.Admits session.choose.1 := by
  rw [choose]
  cases session.selection with
  | first =>
      apply List.forall₂_map_right_iff.mpr
      exact List.forall₂_same.mpr fun rules _ => isChoice_head? rules
  | random => exact RandomSource.forall₂_isChoice_chooseEach session.random _

/-- The steps a session takes by itself are among the moves. -/
theorem Reaches.chosen (hreaches : start.Reaches session) : start.Reaches session.step.2 :=
  hreaches.step session.choose.1 session.choose.2 session.admits_choose

/-- The answer to a step: success or one of two failures, and a failure leaves
the simulator, with its state, its time and its output trains, as it was. -/
structure StepsOrStops (session : Session)
    (answer : Except SimulatorError StepOutcome × Session) : Prop where
  halted_iff : answer.1 = .error .halted ↔ session.isHalted = true
  failure : ∀ failure, answer.1 = .error failure →
    failure = .halted ∨ ∃ neuron < session.neuronCount, failure = .step (.spikeOverflow neuron)
  unchanged : ∀ failure, answer.1 = .error failure → answer.2.simulator = session.simulator

theorem stepsOrStops (hstart : Simulator.ofNetwork network .standard = .ok start.simulator)
    (hreaches : start.Reaches session) (hadmits : session.simulator.Admits choices) :
    session.StepsOrStops (session.stepWith choices random) := by
  obtain ⟨decision, hdecision⟩ := hadmits.exists_decision
  refine ⟨⟨fun hfailure => ?_, fun hhalted => ?_⟩, fun failure hfailure => ?_,
    fun failure hfailure => ?_⟩
  · obtain ⟨hnext, _⟩ := next_of_stepWith_failure hdecision hfailure
    rcases Simulator.next_eq_error_iff.mp hnext with ⟨hhalted, _⟩ | ⟨_, _, _, hcause⟩
    · exact hhalted
    · contradiction
  · have hnext : session.simulator.next decision = .error .halted :=
      Simulator.next_eq_error_iff.mpr (Or.inl ⟨hhalted, rfl⟩)
    rw [stepWith_eq_error_iff.mpr ⟨Or.inr ⟨decision, hdecision, hnext⟩, rfl⟩]
  · obtain ⟨hnext, _⟩ := next_of_stepWith_failure hdecision hfailure
    exact (hreaches.simulator.exists_of_next_eq_error hstart hadmits hdecision hnext).imp
      And.right And.right
  · rw [(next_of_stepWith_failure hdecision hfailure).2]

/-- A session goes back as long as there is a step to take back. -/
theorem stepBack_eq_error_iff (hstart : Simulator.ofNetwork network .standard = .ok start.simulator)
    (hreaches : start.Reaches session) {failure : SimulatorError} :
    session.stepBack = .error failure ↔ session.time = 0 ∧ failure = .atStart := by
  rw [stepBack, time, ← hreaches.simulator.previous_eq_error_iff hstart rfl, bind_eq_error_iff]
  simp [pure, Except.pure]

/-- The session fails at the ends of its run and for spike counts that cannot be
held, and nowhere else.  A step back that fails answers no session, so the one at
hand stands. -/
structure StopsAtBoundaries (session : Session) : Prop where
  chooses : session.simulator.Admits session.choose.1
  step : session.StepsOrStops session.step
  stepWith : ∀ choices random, session.simulator.Admits choices →
    session.StepsOrStops (session.stepWith choices random)
  stepBack : ∀ failure, session.stepBack = .error failure ↔ session.time = 0 ∧ failure = .atStart

/-- Whatever moves a session has made, it stops at boundaries only. -/
theorem stopsAtBoundaries_of_reaches (hstart : ofNetwork network selection seed = .ok start)
    (hreaches : start.Reaches session) : session.StopsAtBoundaries where
  chooses := session.admits_choose
  step := stepsOrStops (simulator_of_ofNetwork hstart) hreaches session.admits_choose
  stepWith _ _ hadmits := stepsOrStops (simulator_of_ofNetwork hstart) hreaches hadmits
  stepBack _ := stepBack_eq_error_iff (simulator_of_ofNetwork hstart) hreaches

/-- A session that has made the steps of the line, the last of them twice, is at
the end of its run. -/
theorem stopsAtBoundaries_of_reaches_delayedLine :
    ∃ start session,
      ofNetwork (.ofEdits Network.delayedLine) .first 0 = .ok start ∧
        start.Reaches session ∧ session.time = 2 ∧ session.isHalted = true ∧
        session.StopsAtBoundaries := by
  obtain ⟨start, session, hstart, hreaches, htime, hhalted⟩ : ∃ start session,
      ofNetwork (.ofEdits Network.delayedLine) .first 0 = .ok start ∧
        start.Reaches session ∧ session.time = 2 ∧ session.isHalted = true :=
    ⟨_, _, rfl, ((Reaches.refl.chosen.chosen).stepBack rfl).chosen, rfl, rfl⟩
  exact ⟨start, session, hstart, hreaches, htime, hhalted,
    stopsAtBoundaries_of_reaches hstart hreaches⟩

end Session

end SpikingNeuralP
