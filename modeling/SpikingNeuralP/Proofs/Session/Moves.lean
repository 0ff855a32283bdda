import SpikingNeuralP.Proofs.Simulation.Reach
import SpikingNeuralP.Session.Basic

/-!
# Moves of a session

A session moves its simulator by the simulator's own requests, so it stays among
the reachable simulators of its network.  A step is read here once, by what it
asks of the network and of the simulator.
-/

namespace SpikingNeuralP

namespace Session

variable {network : Network} {selection : Selection} {seed : UInt64} {session moved : Session}
  {choices : List (Option Nat)} {random : RandomSource} {outcome : StepOutcome}
  {failure : SimulatorError} {start : Simulator}

theorem simulator_of_ofNetwork (hsession : ofNetwork network selection seed = .ok session) :
    Simulator.ofNetwork network .standard = .ok session.simulator := by
  obtain ⟨simulator, hsimulator, hanswer⟩ := bind_eq_ok_iff.mp hsession
  obtain rfl := Except.ok.inj hanswer
  exact hsimulator

theorem stepWith_eq (session : Session) (choices : List (Option Nat)) (random : RandomSource) :
    session.stepWith choices random =
      match session.simulator.network.decision choices with
      | .error cause => (.error (.network cause), { session with random })
      | .ok decision =>
          match session.simulator.next decision with
          | .error failure => (.error failure, { session with random })
          | .ok (report, simulator) =>
              (.ok { fired := simulator.state.firing
                     changes := (report.changes.map ChangeSet.log).getD [] },
                { session with simulator, random }) := by
  rw [stepWith]
  cases session.simulator.network.decision choices with
  | error cause => rfl
  | ok decision =>
      simp only [Except.mapError, bind, Except.bind]
      cases session.simulator.next decision with
      | error failure => rfl
      | ok accepted => rfl

/-- A step that succeeds is one of the simulator, with the decision that the
choices stand for. -/
theorem stepWith_eq_ok_iff :
    session.stepWith choices random = (.ok outcome, moved) ↔
      ∃ decision report simulator,
        session.simulator.network.decision choices = .ok decision ∧
          session.simulator.next decision = .ok (report, simulator) ∧
          outcome = { fired := simulator.state.firing
                      changes := (report.changes.map ChangeSet.log).getD [] } ∧
          moved = { session with simulator, random } := by
  rw [stepWith_eq]
  constructor
  · intro hstep
    split at hstep
    case h_1 => simp at hstep
    case h_2 decision hdecision =>
      split at hstep
      case h_1 => simp at hstep
      case h_2 report simulator hnext =>
        obtain ⟨houtcome, rfl⟩ := Prod.mk.inj hstep
        obtain rfl := Except.ok.inj houtcome
        exact ⟨decision, report, simulator, hdecision, hnext, rfl, rfl⟩
  · rintro ⟨decision, report, simulator, hdecision, hnext, rfl, rfl⟩
    simp only [hdecision, hnext]

/-- A step fails for the choices or in the simulator, and only its choices are
used up. -/
theorem stepWith_eq_error_iff :
    session.stepWith choices random = (.error failure, moved) ↔
      ((∃ cause, session.simulator.network.decision choices = .error cause ∧
            failure = .network cause) ∨
          ∃ decision, session.simulator.network.decision choices = .ok decision ∧
            session.simulator.next decision = .error failure) ∧
        moved = { session with random } := by
  rw [stepWith_eq]
  cases hdecision : session.simulator.network.decision choices with
  | error cause => simp [eq_comm]
  | ok decision =>
      cases hnext : session.simulator.next decision with
      | error cause => simp [hnext, eq_comm]
      | ok accepted => simp [hnext]

theorem stepBack_eq_ok_iff :
    session.stepBack = .ok moved ↔
      ∃ simulator, session.simulator.previous = .ok simulator ∧
        moved = { session with simulator } := by
  rw [stepBack, bind_eq_ok_iff]
  simp [pure, Except.pure, eq_comm]

/-- A step that succeeds shows who fired in it and takes one unit of time. -/
theorem of_stepWith_eq_ok (hstep : session.stepWith choices random = (.ok outcome, moved)) :
    outcome.fired = moved.state.firing ∧ moved.time = session.time + 1 := by
  obtain ⟨decision, report, simulator, _, hnext, rfl, rfl⟩ := stepWith_eq_ok_iff.mp hstep
  obtain ⟨_, state, _, rfl⟩ := Simulator.next_eq_ok_iff.mp hnext
  exact ⟨rfl, rfl⟩

/-- A step back gives one unit of time back. -/
theorem time_of_stepBack_eq_ok (hback : session.stepBack = .ok moved) :
    session.time = moved.time + 1 := by
  obtain ⟨simulator, hprevious, rfl⟩ := stepBack_eq_ok_iff.mp hback
  obtain ⟨htime, frame, history, undone, _, _, rfl⟩ := Simulator.previous_eq_ok_iff.mp hprevious
  exact (Nat.succ_pred_eq_of_ne_zero htime).symm

/-- With choices that stand for a decision, a step fails as the simulator does. -/
theorem next_of_stepWith_failure {decision : List Bool}
    (hdecision : session.simulator.network.decision choices = .ok decision)
    (hfailure : (session.stepWith choices random).1 = .error failure) :
    session.simulator.next decision = .error failure ∧
      (session.stepWith choices random).2 = { session with random } := by
  obtain ⟨hcause, hkept⟩ := stepWith_eq_error_iff.mp (Prod.ext hfailure rfl)
  rcases hcause with ⟨cause, hrefused, _⟩ | ⟨decision', hdecision', hnext⟩
  · rw [hdecision] at hrefused
    contradiction
  · obtain rfl := Except.ok.inj (hdecision.symm.trans hdecision')
    exact ⟨hnext, hkept⟩

/-- A step of a session is a request to its simulator, or none at all. -/
theorem reaches_stepWith (hreaches : start.Reaches (fun _ _ => True) session.simulator) :
    start.Reaches (fun _ _ => True) (session.stepWith choices random).2.simulator := by
  cases hstep : session.stepWith choices random with
  | mk answer moved =>
      cases answer with
      | error failure =>
          obtain ⟨_, rfl⟩ := stepWith_eq_error_iff.mp hstep
          exact hreaches
      | ok outcome =>
          obtain ⟨decision, report, simulator, _, hnext, _, rfl⟩ := stepWith_eq_ok_iff.mp hstep
          have hrequest := hreaches.request (.next decision) fun _ _ => trivial
          rw [Simulator.handle, hnext] at hrequest
          exact hrequest

theorem reaches_stepBack (hreaches : start.Reaches (fun _ _ => True) session.simulator)
    (hback : session.stepBack = .ok moved) :
    start.Reaches (fun _ _ => True) moved.simulator := by
  obtain ⟨simulator, hprevious, rfl⟩ := stepBack_eq_ok_iff.mp hback
  have hrequest := hreaches.request .previous nofun
  rw [Simulator.handle, hprevious] at hrequest
  exact hrequest

theorem reaches_reset (hreaches : start.Reaches (fun _ _ => True) session.simulator) :
    start.Reaches (fun _ _ => True) session.reset.simulator :=
  hreaches.request .reset nofun

/-- Every reachable session has the neurons of the topology. -/
theorem neuronCount_of_reaches (hstart : Simulator.ofNetwork network .standard = .ok start)
    (hreaches : start.Reaches (fun _ _ => True) session.simulator) :
    start.topology.neuronCount = network.neuronCount ∧
      session.neuronCount = network.neuronCount := by
  obtain ⟨_, htopology, _⟩ := Simulator.of_ofNetwork hstart
  refine ⟨(Network.assembles_of_topology htopology).neuronCount_eq, ?_⟩
  rw [neuronCount, hreaches.network_eq hstart]

theorem neuronCount_eq_of_reaches (hstart : Simulator.ofNetwork network .standard = .ok start)
    (hreaches : start.Reaches (fun _ _ => True) session.simulator)
    (hmoved : start.Reaches (fun _ _ => True) moved.simulator) :
    moved.neuronCount = session.neuronCount :=
  (neuronCount_of_reaches hstart hmoved).2.trans (neuronCount_of_reaches hstart hreaches).2.symm

end Session

end SpikingNeuralP
