import SpikingNeuralP.Proofs.Display.Moves
import SpikingNeuralP.Proofs.Step.Touched

/-!
# The lines of a panel

After a step a panel writes only the lines of the touched neurons anew.  The
other lines show what they showed before, since a neuron that the log does not
mention looks the same after the step; so the panel never shows a stale line, in
whatever order it is told to step, to go back and to start over.
-/

namespace SpikingNeuralP

namespace Session

variable {network : Network} {session moved : Session} {start : Simulator} {neuron : Nat}
  {choices : List (Option Nat)} {random : RandomSource} {outcome : StepOutcome}

/-- A line shows nothing of the state but its own neuron. -/
theorem stateLine_eq_of_agreeAt (hnetwork : moved.simulator.network = session.simulator.network)
    (hagree : session.state.AgreeAt moved.state neuron) :
    moved.stateLine neuron = session.stateLine neuron := by
  have hlabel : moved.label neuron = session.label neuron := by rw [label, label, hnetwork]
  simp only [stateLine, hlabel, hagree.spikes, hagree.cooldown, hagree.firing]

theorem getElem?_stateLines (session : Session) (neuron : Nat) :
    session.stateLines[neuron]? =
      if neuron < session.neuronCount then some (session.stateLine neuron) else none := by
  rw [stateLines, List.getElem?_map]
  split
  case isTrue hneuron => rw [List.getElem?_range hneuron, Option.map_some]
  case isFalse hneuron => rw [List.getElem?_eq_none (by simpa using hneuron), Option.map_none]

/-- A step that succeeds logs what it has changed, between states that fit. -/
structure Logs (session : Session) (topology : Topology) (outcome : StepOutcome)
    (moved : Session) : Prop where
  before : session.state.Fits topology
  after : moved.state.Fits topology
  network : moved.simulator.network = session.simulator.network
  changes : outcome.changes = (ChangeSet.between session.state moved.state).log

theorem logs_of_stepWith (hstart : Simulator.ofNetwork network .standard = .ok start)
    (hreaches : start.Reaches (fun _ _ => True) session.simulator)
    (hstep : session.stepWith choices random = (.ok outcome, moved)) :
    session.Logs start.topology outcome moved := by
  obtain ⟨decision, report, simulator, _, hnext, rfl, rfl⟩ := stepWith_eq_ok_iff.mp hstep
  obtain ⟨_, state, hforward, rfl⟩ := Simulator.next_eq_ok_iff.mp hnext
  obtain ⟨hadvances, rfl⟩ := Engine.forward_eq_ok_iff.mp hforward
  have hengine := hreaches.system.2
  have htracks : session.simulator.engine.tracksChanges = true := by
    obtain ⟨_, _, _, _, rfl⟩ := Simulator.ofNetwork_eq_ok_iff.mp hstart
    rw [hengine, SimulatorConfig.standard]
  rw [hengine] at hadvances
  refine ⟨hadvances.fits, hadvances.next_fits, rfl, ?_⟩
  rw [Engine.report, htracks]
  rfl

end Session

namespace Panel

variable {network : Network} {panel : Panel} {session moved : Session} {start : Simulator}
  {outcome : StepOutcome} {failure : SimulatorError} {touched : List Nat}

theorem getElem?_foldl_rebuildLine (session : Session) (touched : List Nat) (lines : List String)
    (neuron : Nat) :
    (touched.foldl (rebuildLine session) lines)[neuron]? =
      if neuron ∈ touched then lines[neuron]?.map fun _ => session.stateLine neuron
      else lines[neuron]? := by
  induction touched generalizing lines with
  | nil => simp
  | cons other touched ih =>
      rw [List.foldl_cons, ih, rebuildLine, List.getElem?_set']
      by_cases hother : other = neuron
      · subst other
        simp [Function.comp_def, Function.const_def]
      · simp [hother, Ne.symm hother]

/-- Writing the touched lines anew brings all lines up to date when the others
have not changed. -/
theorem foldl_rebuildLine_stateLines (hcount : moved.neuronCount = session.neuronCount)
    (hothers : ∀ neuron < session.neuronCount, neuron ∉ touched →
      moved.stateLine neuron = session.stateLine neuron) :
    touched.foldl (rebuildLine moved) session.stateLines = moved.stateLines := by
  apply List.ext_getElem?
  intro neuron
  rw [getElem?_foldl_rebuildLine, Session.getElem?_stateLines, Session.getElem?_stateLines, hcount]
  by_cases hneuron : neuron < session.neuronCount
  · rw [if_pos hneuron, if_pos hneuron]
    split
    case isTrue => rfl
    case isFalse huntouched => rw [hothers neuron hneuron huntouched]
  · rw [if_neg hneuron, if_neg hneuron, Option.map_none, ite_self]

/-- The session is reachable and every line shows its current state. -/
structure UpToDate (start : Simulator) (panel : Panel) : Prop where
  reaches : start.Reaches (fun _ _ => True) panel.session.simulator
  lines : panel.lines = panel.session.stateLines

theorem UpToDate.stepBack (hupToDate : panel.UpToDate start) : panel.stepBack.UpToDate start := by
  rcases panel.stepBack_cases with ⟨_, text, _, hpanel⟩ | ⟨moved, hback⟩
  · rw [hpanel]
    exact ⟨hupToDate.reaches, hupToDate.lines⟩
  · rw [stepBack_of_ok hback]
    exact ⟨Session.reaches_stepBack hupToDate.reaches hback, rfl⟩

section Words

-- The words of the log can tell all neurons of the network apart.
variable (hstart : Simulator.ofNetwork network .standard = .ok start)
  (hcount : network.neuronCount ≤ UInt32.size)

include hstart hcount

/-- A step touches the neurons that fire in it and those that look different
after it. -/
theorem UpToDate.mem_touched_iff (hupToDate : panel.UpToDate start)
    (hstep : panel.session.step = (.ok outcome, moved)) {neuron : Nat} :
    neuron ∈ panel.touched outcome ↔
      neuron < panel.session.neuronCount ∧
        (moved.state.firing.getD neuron false = true ∨
          ¬panel.session.state.AgreeAt moved.state neuron) := by
  have hlogs := Session.logs_of_stepWith hstart hupToDate.reaches hstep
  obtain ⟨htopology, hsession⟩ := Session.neuronCount_of_reaches hstart hupToDate.reaches
  have hlines : panel.lines.length = panel.session.neuronCount := by
    rw [hupToDate.lines, Session.stateLines, List.length_map, List.length_range]
  rw [touched, List.mem_filter, decide_eq_true_eq, hlogs.changes, hlines,
    ChangeSet.mem_touched_between_iff hlogs.before hlogs.after (htopology ▸ hcount), htopology,
    hsession]
  exact and_iff_left_of_imp And.left

theorem UpToDate.step (hupToDate : panel.UpToDate start) : panel.step.UpToDate start := by
  have hreaches : start.Reaches (fun _ _ => True) panel.session.step.2.simulator :=
    Session.reaches_stepWith hupToDate.reaches
  rcases panel.step_cases with ⟨_, random, text, _, hpanel⟩ | ⟨outcome, moved, hstep⟩
  · rw [hpanel]
    exact ⟨hupToDate.reaches, hupToDate.lines⟩
  · rw [hstep] at hreaches
    have hnetwork := (Session.logs_of_stepWith hstart hupToDate.reaches hstep).network
    rw [step_of_ok hstep]
    refine ⟨hreaches, ?_⟩
    rw [hupToDate.lines]
    apply foldl_rebuildLine_stateLines (congrArg Network.neuronCount hnetwork)
    intro neuron hneuron huntouched
    rw [hupToDate.mem_touched_iff hstart hcount hstep] at huntouched
    push Not at huntouched
    exact Session.stateLine_eq_of_agreeAt hnetwork (huntouched hneuron).2

theorem UpToDate.obey (hupToDate : panel.UpToDate start) (command : PanelCommand) :
    (panel.obey command).UpToDate start := by
  cases command with
  | step => exact hupToDate.step hstart hcount
  | stepBack => exact hupToDate.stepBack
  | reset => exact ⟨Session.reaches_reset hupToDate.reaches, rfl⟩
  | toggleRunning => exact ⟨hupToDate.reaches, hupToDate.lines⟩

theorem UpToDate.foldl_obey (hupToDate : panel.UpToDate start) (commands : List PanelCommand) :
    (commands.foldl Panel.obey panel).UpToDate start := by
  induction commands generalizing panel with
  | nil => exact hupToDate
  | cons command commands ih => exact ih (hupToDate.obey hstart hcount command)

/-- No line is stale, and a step that succeeds now writes as many lines as there
are neurons that fire in it or look different after it. -/
structure Current (panel : Panel) : Prop where
  lines : panel.lines = panel.session.stateLines
  redrawn : ∀ outcome moved, panel.session.step = (.ok outcome, moved) →
    panel.step.redrawn = (panel.touched outcome).toFinset.card
  touched : ∀ outcome moved, panel.session.step = (.ok outcome, moved) →
    ∀ neuron, neuron ∈ panel.touched outcome ↔
      neuron < panel.session.neuronCount ∧
        (moved.state.firing.getD neuron false = true ∨
          ¬panel.session.state.AgreeAt moved.state neuron)

theorem UpToDate.current (hupToDate : panel.UpToDate start) : panel.Current where
  lines := hupToDate.lines
  redrawn outcome moved hstep := by
    have hlogs := Session.logs_of_stepWith hstart hupToDate.reaches hstep
    have htopology := (Session.neuronCount_of_reaches hstart hupToDate.reaches).1
    have hfired : (ChangeSet.between panel.session.state moved.state).fired.length ≤
        UInt32.size := (hlogs.after.firing.trans htopology).trans_le hcount
    have hnodup : (panel.touched outcome).Nodup := by
      rw [Panel.touched, hlogs.changes]
      exact (ChangeSet.nodup_touched hfired).filter _
    rw [step_of_ok hstep, List.toFinset_card_of_nodup hnodup]
  touched _ _ hstep _ := hupToDate.mem_touched_iff hstart hcount hstep

end Words

/-- Whatever commands a panel obeys, and whether or not they succeed, its lines
are the ones that writing all of them anew would give. -/
theorem current_of_commands {selection : Selection} {seed : UInt64}
    (hsession : Session.ofNetwork network selection seed = .ok session)
    (hcount : network.neuronCount ≤ UInt32.size) (width : Nat) (commands : List PanelCommand) :
    (commands.foldl obey (ofSession session width)).Current := by
  have hstart := Session.simulator_of_ofNetwork hsession
  have hupToDate : (ofSession session width).UpToDate session.simulator := ⟨.refl, rfl⟩
  exact (hupToDate.foldl_obey hstart hcount commands).current hstart hcount

/-- The second step back is refused.  The step taken again leaves the line of the
output neuron alone, the one after it touches all three. -/
theorem current_of_commands_delayedLine :
    ∃ session panel,
      Session.ofNetwork (.ofEdits Network.delayedLine) .first 7 = .ok session ∧
        [.step, .stepBack, .stepBack, .step].foldl obey (ofSession session 4) = panel ∧
        panel.redrawn = 2 ∧ panel.step.redrawn = 3 ∧ panel.Current := by
  have hsession : Session.ofNetwork (.ofEdits Network.delayedLine) .first 7 = .ok _ := rfl
  exact ⟨_, _, hsession, rfl, rfl, rfl, current_of_commands hsession (by decide) 4 _⟩

end Panel

end SpikingNeuralP
