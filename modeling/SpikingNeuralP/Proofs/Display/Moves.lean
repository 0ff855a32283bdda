import SpikingNeuralP.Display.Panel
import SpikingNeuralP.Proofs.Session.Moves

/-!
# Moves of a panel

What the commands that can fail make of a panel, for each answer of its session.  A
command that fails stops the panel and shows why; a step that fails leaves behind a
session with its choices used up.
-/

namespace SpikingNeuralP

namespace Panel

variable {panel : Panel} {moved : Session} {outcome : StepOutcome} {failure : SimulatorError}

theorem exists_report_eq (panel : Panel) (failure : StepFailure) :
    ∃ text, panel.report failure = { panel with running := false, message := some text } := by
  cases failure with
  | boundary text => exact ⟨text, rfl⟩
  | fault text => exact ⟨"error: " ++ text, rfl⟩

theorem step_of_ok (hstep : panel.session.step = (.ok outcome, moved)) :
    panel.step = { panel with
      session := moved
      raster := List.zipWith (fun row mark => row.set (panel.column moved.time) mark)
        panel.raster outcome.fired
      lines := (panel.touched outcome).foldl (rebuildLine moved) panel.lines
      message := none
      redrawn := (panel.touched outcome).length } := by
  rw [step, hstep]

/-- A step of a panel is made by its session, or it stops the panel with the choices
used up. -/
theorem step_cases (panel : Panel) :
    (∃ failure random text,
      panel.session.step = (.error failure, { panel.session with random }) ∧
        panel.step = { panel with
          session := { panel.session with random }
          running := false
          message := some text }) ∨
    ∃ outcome moved, panel.session.step = (.ok outcome, moved) := by
  cases hstep : panel.session.step with
  | mk answer moved =>
      cases answer with
      | error failure =>
          obtain ⟨_, rfl⟩ := Session.stepWith_eq_error_iff.mp hstep
          obtain ⟨text, hreport⟩ := exists_report_eq
            { panel with session := { panel.session with random := panel.session.choose.2 } }
            (.ofError failure)
          refine Or.inl ⟨failure, panel.session.choose.2, text, rfl, ?_⟩
          rw [step, hstep]
          exact hreport
      | ok outcome => exact Or.inr ⟨outcome, moved, rfl⟩

theorem stepBack_of_ok (hback : panel.session.stepBack = .ok moved) :
    panel.stepBack = { panel with
      session := moved
      raster := panel.raster.map fun row => row.set (panel.column panel.session.time) false
      lines := moved.stateLines
      message := none
      redrawn := moved.neuronCount } := by
  rw [stepBack, hback]
  rfl

/-- A step back of a panel is made by its session, or it stops the panel. -/
theorem stepBack_cases (panel : Panel) :
    (∃ failure text, panel.session.stepBack = .error failure ∧
      panel.stepBack = { panel with running := false, message := some text }) ∨
    ∃ moved, panel.session.stepBack = .ok moved := by
  cases hback : panel.session.stepBack with
  | error failure =>
      obtain ⟨text, hreport⟩ := exists_report_eq panel (.ofError failure)
      refine Or.inl ⟨failure, text, rfl, ?_⟩
      rw [stepBack, hback]
      exact hreport
  | ok moved => exact Or.inr ⟨moved, rfl⟩

theorem width_obey (panel : Panel) (command : PanelCommand) :
    (panel.obey command).width = panel.width := by
  cases command with
  | step =>
      rw [obey]
      rcases panel.step_cases with ⟨_, _, _, _, hpanel⟩ | ⟨outcome, moved, hstep⟩
      · rw [hpanel]
      · rw [step_of_ok hstep]
  | stepBack =>
      rw [obey]
      rcases panel.stepBack_cases with ⟨_, _, _, hpanel⟩ | ⟨moved, hback⟩
      · rw [hpanel]
      · rw [stepBack_of_ok hback]
  | reset => rfl
  | toggleRunning => rfl

theorem width_foldl_obey (panel : Panel) (commands : List PanelCommand) :
    (commands.foldl obey panel).width = panel.width := by
  induction commands generalizing panel with
  | nil => rfl
  | cons command commands ih => exact (ih (panel.obey command)).trans (panel.width_obey command)

end Panel

end SpikingNeuralP
