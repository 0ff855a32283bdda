import SpikingNeuralP.Proofs.Display.Raster
import SpikingNeuralP.Proofs.Session.Renewal

/-!
# Replaying a panel

A panel that has been reset is the panel it was when it was new: its session is, its
raster is blank and of the old size, and its lines show the initial state.  So the
same commands show the same again, and random choices repeat themselves.
-/

namespace SpikingNeuralP

/-- All that a panel lets be seen of itself and of its session. -/
structure PanelView where
  lines : List String
  raster : List (List Bool)
  running : Bool
  message : Option String
  redrawn : Nat
  time : Nat
  state : State
  halted : Bool
  outputTrains : List (Nat × List Bool)
  deriving DecidableEq, Repr

namespace Panel

def view (panel : Panel) : PanelView where
  lines := panel.lines
  raster := panel.raster
  running := panel.running
  message := panel.message
  redrawn := panel.redrawn
  time := panel.session.time
  state := panel.session.state
  halted := panel.session.isHalted
  outputTrains := panel.session.outputTrains

/-- What is seen before the commands and after each of them. -/
def views (panel : Panel) : List PanelCommand → List PanelView
  | [] => [panel.view]
  | command :: commands => panel.view :: (panel.obey command).views commands

variable {network : Network} {selection : Selection} {seed : UInt64} {panel : Panel}
  {fresh session : Session}

theorem renewsAs_obey (hrenews : panel.session.RenewsAs fresh) (command : PanelCommand) :
    (panel.obey command).session.RenewsAs fresh := by
  cases command with
  | step =>
      have hmoved : panel.session.step.2.RenewsAs fresh :=
        hrenews.stepWith panel.session.seed_choose
      rw [obey]
      rcases panel.step_cases with ⟨_, random, text, hstep, hpanel⟩ | ⟨outcome, moved, hstep⟩
      · rw [hstep] at hmoved
        rw [hpanel]
        exact hmoved
      · rw [hstep] at hmoved
        rw [step_of_ok hstep]
        exact hmoved
  | stepBack =>
      rw [obey]
      rcases panel.stepBack_cases with ⟨_, text, _, hpanel⟩ | ⟨moved, hback⟩
      · rw [hpanel]
        exact hrenews
      · rw [stepBack_of_ok hback]
        exact hrenews.stepBack hback
  | reset => exact hrenews.reset
  | toggleRunning => exact hrenews

theorem renewsAs_foldl_obey (hrenews : panel.session.RenewsAs fresh)
    (commands : List PanelCommand) :
    (commands.foldl obey panel).session.RenewsAs fresh := by
  induction commands generalizing panel with
  | nil => exact hrenews
  | cons command commands ih => exact ih (renewsAs_obey hrenews command)

/-- A reset makes a panel over a renewed session new, however wide it is. -/
theorem Rectangular.reset_eq {width : Nat} (hrectangular : panel.Rectangular)
    (hwidth : panel.width = max width 1) (hrenews : panel.session.RenewsAs fresh) :
    panel.reset = ofSession fresh width := by
  have hraster := hrectangular.raster_reset
  rw [← hrenews.reset_eq]
  obtain ⟨session, columns, hpositive, raster, lines, running, message, redrawn⟩ := panel
  obtain rfl : columns = max width 1 := hwidth
  exact congrArg (fun blank => Panel.mk session.reset (max width 1) hpositive blank
    session.reset.stateLines false none session.reset.neuronCount) hraster

/-- Whatever commands a panel has obeyed, a reset makes it the panel it was. -/
theorem reset_foldl_obey (hsession : Session.ofNetwork network selection seed = .ok session)
    (width : Nat) (commands : List PanelCommand) :
    (commands.foldl obey (ofSession session width)).reset = ofSession session width := by
  have hrenews : (ofSession session width).session.RenewsAs session :=
    Session.renewsAs_ofNetwork hsession
  have htraces := (traces_ofSession hsession width).foldl_obey
    (Session.simulator_of_ofNetwork hsession) commands
  exact htraces.rectangular.reset_eq (width_foldl_obey (ofSession session width) commands)
    (renewsAs_foldl_obey hrenews commands)

/-- Whatever commands a panel has obeyed, and whether or not they succeeded, after a
reset it shows what a newly made panel shows, for all commands that follow. -/
theorem views_reset_of_commands
    (hsession : Session.ofNetwork network selection seed = .ok session) (width : Nat)
    (commands further : List PanelCommand) :
    (commands.foldl obey (ofSession session width)).reset.views further =
      (ofSession session width).views further := by
  rw [reset_foldl_obey hsession]

/-- Made again after it was taken back, the first step of the figure goes by the other
rule of its third neuron; after a reset it goes as it did at first. -/
theorem views_reset_of_commands_figure :
    ∃ network session panel,
      DemoSystem.figure.network = .ok network ∧
        Session.ofNetwork network .random 26 = .ok session ∧
        [.step, .stepBack, .stepBack, .step].foldl obey (ofSession session 4) = panel ∧
        (ofSession session 4).step.marked 2 1 = false ∧ panel.marked 2 1 = true ∧
        panel.reset.views [.step, .step] = (ofSession session 4).views [.step, .step] := by
  obtain ⟨network, session, hnetwork, hsession, hfirst, hagain⟩ : ∃ network session,
      DemoSystem.figure.network = .ok network ∧
        Session.ofNetwork network .random 26 = .ok session ∧
        (ofSession session 4).step.marked 2 1 = false ∧
        ([.step, .stepBack, .stepBack, .step].foldl obey (ofSession session 4)).marked 2 1 =
          true :=
    ⟨_, _, rfl, rfl, by decide +kernel, by decide +kernel⟩
  exact ⟨network, session, _, hnetwork, hsession, rfl, hfirst, hagain,
    views_reset_of_commands hsession 4 [.step, .stepBack, .stepBack, .step] [.step, .step]⟩

end Panel

end SpikingNeuralP
