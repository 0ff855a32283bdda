import SpikingNeuralP.Session.Basic

/-!
# The panel

What a session shows: a raster that marks who fired when, its columns used in
turn, and one line of text per neuron.  After a step only the lines of neurons
the step touched are written anew.
-/

namespace SpikingNeuralP

structure Panel where
  session : Session
  /-- How many columns the raster has. -/
  width : Nat
  width_pos : 0 < width
  /-- For every neuron, the columns that carry a mark. -/
  raster : List (List Bool)
  lines : List String
  running : Bool
  message : Option String
  /-- How many lines the last move wrote anew. -/
  redrawn : Nat

/-- Label, spikes, cooldown, and whether the neuron fired or is closed. -/
def Session.stateLine (session : Session) (neuron : Nat) : String :=
  let state := session.state
  let spikes := state.spikes.getD neuron 0
  let cooldown := state.cooldown.getD neuron 0
  let fired := if state.firing.getD neuron false then "fired" else "     "
  let closed := if 0 < cooldown then "  (closed)" else ""
  let spikesText := alignRight 4 ' ' (toString spikes.toInt)
  let cooldownText := alignRight 2 ' ' (toString cooldown.toNat)
  s!"{alignLeft 6 (session.label neuron)} spikes {spikesText}  delay {cooldownText}  {fired}{closed}"

def Session.stateLines (session : Session) : List String :=
  (List.range session.neuronCount).map session.stateLine

namespace Panel

/-- A raster without columns is given one. -/
def ofSession (session : Session) (width : Nat) : Panel where
  session := session
  width := max width 1
  width_pos := Nat.le_max_right width 1
  raster := List.replicate session.neuronCount (List.replicate (max width 1) false)
  lines := session.stateLines
  running := false
  message := none
  redrawn := session.neuronCount

def toggleRunning (panel : Panel) : Panel :=
  { panel with running := !panel.running }

def column (panel : Panel) (time : Nat) : Nat :=
  time % panel.width

/-- Stops and shows why; a fault is called an error. -/
def report (panel : Panel) (failure : StepFailure) : Panel :=
  match failure with
  | .boundary text => { panel with running := false, message := some text }
  | .fault text => { panel with running := false, message := some ("error: " ++ text) }

def rebuildLines (panel : Panel) : Panel :=
  { panel with lines := panel.session.stateLines, redrawn := panel.session.neuronCount }

/-- Writes one line anew. -/
def rebuildLine (session : Session) (lines : List String) (neuron : Nat) : List String :=
  lines.set neuron (session.stateLine neuron)

/-- The neurons whose lines a step touches. -/
def touched (panel : Panel) (outcome : StepOutcome) : List Nat :=
  outcome.changes.touched.filter (· < panel.lines.length)

/-- Steps the session, marks who fired in the column of the new time and writes
the touched lines anew. -/
def step (panel : Panel) : Panel :=
  match panel.session.step with
  | (.error failure, session) => { panel with session }.report (.ofError failure)
  | (.ok outcome, session) =>
      let column := panel.column session.time
      let touched := panel.touched outcome
      { panel with
        session
        raster := List.zipWith (fun row mark => row.set column mark) panel.raster outcome.fired
        lines := touched.foldl (rebuildLine session) panel.lines
        message := none
        redrawn := touched.length }

/-- Takes a step back and blanks the column of the time left. -/
def stepBack (panel : Panel) : Panel :=
  match panel.session.stepBack with
  | .error failure => panel.report (.ofError failure)
  | .ok session =>
      let column := panel.column panel.session.time
      let moved : Panel := { panel with
        session
        raster := panel.raster.map fun row => row.set column false
        message := none }
      moved.rebuildLines

def reset (panel : Panel) : Panel :=
  let moved : Panel := { panel with
    session := panel.session.reset
    raster := panel.raster.map fun row => row.map fun _ => false
    running := false
    message := none }
  moved.rebuildLines

end Panel

/-- The commands a panel obeys. -/
inductive PanelCommand where
  | step
  | stepBack
  | reset
  | toggleRunning
  deriving DecidableEq, Repr

def PanelCommand.ofKey? : Char → Option PanelCommand
  | 's' => some .step
  | 'b' => some .stepBack
  | 'x' => some .reset
  | 'r' => some .toggleRunning
  | _ => none

def Panel.obey (panel : Panel) : PanelCommand → Panel
  | .step => panel.step
  | .stepBack => panel.stepBack
  | .reset => panel.reset
  | .toggleRunning => panel.toggleRunning

end SpikingNeuralP
