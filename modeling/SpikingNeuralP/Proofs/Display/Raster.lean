import SpikingNeuralP.Proofs.Display.Moves
import SpikingNeuralP.Proofs.Simulation.Boundary

/-!
# The raster of a panel

The columns of the raster are used in turn, so a column is used again as soon as the
others have been.  Stepping back blanks the column of the step taken back and does
not bring back the mark it had replaced.  What is shown is therefore the end of the
run from a certain time on, which stepping far moves up and stepping back moves down;
all other columns are blank.
-/

namespace SpikingNeuralP

/-- The run whose end a raster shows: the neurons that fired in each of its steps,
oldest first, and the time up to which the steps are not shown. -/
structure ShownRun where
  low : Nat
  fired : List (List Bool)
  deriving DecidableEq, Repr

namespace ShownRun

def start : ShownRun :=
  { low := 0, fired := [] }

/-- Whether the neuron fired in the step that led to the time. -/
def firedAt (run : ShownRun) (time neuron : Nat) : Bool :=
  (run.fired.getD (time - 1) []).getD neuron false

/-- The step that led to the time is made and shown. -/
structure Shows (run : ShownRun) (time : Nat) : Prop where
  low : run.low < time
  made : time ≤ run.fired.length

/-- The run after another step; the steps it leaves no column for are not shown any
more. -/
def push (run : ShownRun) (width : Nat) (firing : List Bool) : ShownRun where
  low := max run.low (run.fired.length + 1 - width)
  fired := run.fired ++ [firing]

/-- The run with its last step taken back. -/
def pop (run : ShownRun) : ShownRun where
  low := min run.low (run.fired.length - 1)
  fired := run.fired.dropLast

/-- The run after a command to the panel.  A step is added when it is made and
dropped when it is taken back; the steps that the new one leaves no column for are
not shown any more, and none is shown that comes later than the new time. -/
def follow (panel : Panel) (run : ShownRun) : PanelCommand → ShownRun
  | .step =>
      match panel.session.step with
      | (.ok _, moved) =>
          { low := max run.low (moved.time - panel.width)
            fired := run.fired ++ [moved.state.firing] }
      | (.error _, _) => run
  | .stepBack =>
      match panel.session.stepBack with
      | .ok moved => { low := min run.low moved.time, fired := run.fired.dropLast }
      | .error _ => run
  | .reset => start
  | .toggleRunning => run

/-- The run after all the commands. -/
def followAll (panel : Panel) (run : ShownRun) : List PanelCommand → ShownRun
  | [] => run
  | command :: commands => followAll (panel.obey command) (run.follow panel command) commands

/-- The steps that are shown have a column each, and the marks are those of the
neurons that fired in them. -/
structure Fills (run : ShownRun) (width : Nat) (marked : Nat → Nat → Bool) : Prop where
  low_le : run.low ≤ run.fired.length
  le_low : run.fired.length ≤ run.low + width
  marked_iff : ∀ neuron column, marked neuron column = true ↔
    ∃ time, run.Shows time ∧ time % width = column ∧ run.firedAt time neuron = true

variable {run : ShownRun} {width time other neuron : Nat} {marked marked' : Nat → Nat → Bool}
  {firing : List Bool}

/-- When there are columns enough, each step that is shown has its own. -/
theorem Shows.eq_of_mod_eq (hshows : run.Shows time) (hother : run.Shows other)
    (hroom : run.fired.length ≤ run.low + width) (hcolumn : time % width = other % width) :
    time = other := by
  wlog hle : time ≤ other generalizing time other with hflip
  · exact (hflip hother hshows hcolumn.symm (Nat.le_of_not_le hle)).symm
  have hlater := hshows.low
  have hmade := hother.made
  have hdvd : width ∣ other - time :=
    Nat.dvd_of_mod_eq_zero (Nat.sub_mod_eq_zero_of_mod_eq hcolumn.symm)
  have hzero := Nat.eq_zero_of_dvd_of_lt hdvd (by omega)
  omega

/-- When any step is shown, the last one is. -/
theorem Shows.last (hshows : run.Shows time) : run.Shows run.fired.length :=
  ⟨hshows.low.trans_le hshows.made, Nat.le_refl _⟩

theorem shows_push_iff (hlow : run.low ≤ run.fired.length) (hwidth : 0 < width) :
    (run.push width firing).Shows time ↔
      run.Shows time ∧ run.fired.length + 1 < time + width ∨ time = run.fired.length + 1 := by
  have hlength : (run.push width firing).fired.length = run.fired.length + 1 := by simp [push]
  constructor
  · rintro ⟨hlater, hmade⟩
    rw [push, max_lt_iff] at hlater
    rw [hlength] at hmade
    by_cases hlast : time = run.fired.length + 1
    · exact Or.inr hlast
    · exact Or.inl ⟨⟨hlater.1, by omega⟩, by omega⟩
  · rintro (⟨⟨hlater, hmade⟩, hroom⟩ | rfl)
    · exact ⟨max_lt hlater (by omega), by omega⟩
    · exact ⟨max_lt (by omega) (by omega), hlength.ge⟩

theorem shows_pop_iff :
    run.pop.Shows time ↔ run.Shows time ∧ time ≠ run.fired.length := by
  have hlength : run.pop.fired.length = run.fired.length - 1 := List.length_dropLast
  constructor
  · rintro ⟨hlater, hmade⟩
    rw [pop, min_lt_iff] at hlater
    rw [hlength] at hmade
    exact ⟨⟨by omega, by omega⟩, by omega⟩
  · rintro ⟨⟨hlater, hmade⟩, hne⟩
    exact ⟨min_lt_of_left_lt hlater, by omega⟩

theorem firedAt_push (hshows : run.Shows time) :
    (run.push width firing).firedAt time neuron = run.firedAt time neuron := by
  have hindex : time - 1 < run.fired.length := by
    have hlater := hshows.low
    have hmade := hshows.made
    omega
  rw [firedAt, firedAt, push, List.getD_append _ _ _ _ hindex]

theorem firedAt_push_last :
    (run.push width firing).firedAt (run.fired.length + 1) neuron = firing.getD neuron false := by
  simp [firedAt, push]

theorem firedAt_pop (hshows : run.pop.Shows time) :
    run.pop.firedAt time neuron = run.firedAt time neuron := by
  have hindex : time - 1 < run.fired.length - 1 := by
    obtain ⟨⟨hlater, hmade⟩, hne⟩ := shows_pop_iff.mp hshows
    omega
  simp only [firedAt, pop, List.getD_eq_getElem?_getD, List.getElem?_dropLast, if_pos hindex]

/-- Where nothing is marked, nothing is shown. -/
theorem fills_start (hblank : ∀ neuron column, marked neuron column = false) :
    start.Fills width marked := by
  refine ⟨Nat.le_refl _, Nat.zero_le _, fun neuron column => ?_⟩
  rw [hblank]
  constructor
  · intro hfalse
    contradiction
  · rintro ⟨time, ⟨hlater, hmade⟩, _⟩
    exact absurd hmade (Nat.not_le_of_lt hlater)

/-- A step that is made takes over the column of the step as many steps ago as there
are columns. -/
theorem Fills.push (hfills : run.Fills width marked) (hwidth : 0 < width)
    (hmarked : ∀ neuron column, marked' neuron column =
      if column = (run.fired.length + 1) % width then firing.getD neuron false
      else marked neuron column) :
    (run.push width firing).Fills width marked' := by
  obtain ⟨hlow, hroom, hold⟩ := hfills
  have hlength : (run.push width firing).fired.length = run.fired.length + 1 := by
    simp [ShownRun.push]
  have hlow' : (run.push width firing).low = max run.low (run.fired.length + 1 - width) := rfl
  have hroom' : (run.push width firing).fired.length ≤ (run.push width firing).low + width := by
    omega
  refine ⟨by omega, hroom', fun neuron column => ?_⟩
  rw [hmarked]
  have hlast : (run.push width firing).Shows (run.fired.length + 1) :=
    (shows_push_iff hlow hwidth).mpr (Or.inr rfl)
  by_cases hcolumn : column = (run.fired.length + 1) % width
  · rw [if_pos hcolumn]
    constructor
    · intro hfired
      exact ⟨_, hlast, hcolumn.symm, firedAt_push_last.trans hfired⟩
    · rintro ⟨time, hshows, hsame, hfired⟩
      obtain rfl := hshows.eq_of_mod_eq hlast hroom' (hsame.trans hcolumn)
      exact firedAt_push_last.symm.trans hfired
  · rw [if_neg hcolumn, hold]
    constructor
    · rintro ⟨time, hshows, rfl, hfired⟩
      -- The one step that loses its column would have been in the column of the new one.
      have hkept : run.fired.length + 1 ≠ time + width := by
        intro hlost
        rw [hlost, Nat.add_mod_right] at hcolumn
        exact hcolumn rfl
      have hlater := hshows.low
      exact ⟨time, (shows_push_iff hlow hwidth).mpr (Or.inl ⟨hshows, by omega⟩), rfl,
        (firedAt_push hshows).trans hfired⟩
    · rintro ⟨time, hshows, rfl, hfired⟩
      rcases (shows_push_iff hlow hwidth).mp hshows with ⟨hearlier, _⟩ | rfl
      · exact ⟨time, hearlier, rfl, (firedAt_push hearlier).symm.trans hfired⟩
      · exact absurd rfl hcolumn

/-- A step that is taken back leaves its column blank. -/
theorem Fills.pop (hfills : run.Fills width marked)
    (hmarked : ∀ neuron column, marked' neuron column =
      if column = run.fired.length % width then false else marked neuron column) :
    run.pop.Fills width marked' := by
  obtain ⟨hlow, hroom, hold⟩ := hfills
  have hlength : run.pop.fired.length = run.fired.length - 1 := List.length_dropLast
  have hlow' : run.pop.low = min run.low (run.fired.length - 1) := rfl
  refine ⟨by omega, by omega, fun neuron column => ?_⟩
  rw [hmarked]
  by_cases hcolumn : column = run.fired.length % width
  · rw [if_pos hcolumn]
    constructor
    · intro hfalse
      contradiction
    · rintro ⟨time, hshows, hsame, _⟩
      obtain ⟨hshows, hne⟩ := shows_pop_iff.mp hshows
      exact absurd (hshows.eq_of_mod_eq hshows.last hroom (hsame.trans hcolumn)) hne
  · rw [if_neg hcolumn, hold]
    constructor
    · rintro ⟨time, hshows, rfl, hfired⟩
      have hearlier : run.pop.Shows time :=
        shows_pop_iff.mpr ⟨hshows, fun hlast => hcolumn (congrArg (· % width) hlast)⟩
      exact ⟨time, hearlier, rfl, (firedAt_pop hearlier).trans hfired⟩
    · rintro ⟨time, hshows, rfl, hfired⟩
      exact ⟨time, (shows_pop_iff.mp hshows).1, rfl, (firedAt_pop hshows).symm.trans hfired⟩

end ShownRun

section Grid

variable {raster : List (List Bool)} {fired : List Bool} {column neuron : Nat}

/-- The marks after one column has been written. -/
theorem getD_zipWith_set (hfired : fired.length = raster.length)
    (hcolumn : ∀ row ∈ raster, column < row.length) (neuron other : Nat) :
    ((List.zipWith (fun row mark => row.set column mark) raster fired).getD neuron []).getD
        other false =
      if other = column then fired.getD neuron false
      else (raster.getD neuron []).getD other false := by
  by_cases hneuron : neuron < raster.length
  · rw [getD_zipWith _ hneuron (hfired ▸ hneuron) [] false, getD_set]
    rw [List.getD_eq_getElem _ _ hneuron]
    exact Or.inl (hcolumn _ (List.getElem_mem hneuron))
  · have hbeyond := Nat.le_of_not_lt hneuron
    rw [List.getD_eq_default raster _ hbeyond, List.getD_eq_default fired _ (hfired ▸ hbeyond),
      List.getD_eq_default (List.zipWith _ _ _) _ (by simpa using Or.inl hbeyond)]
    simp

/-- The marks after one column has been blanked. -/
theorem getD_map_set_false (raster : List (List Bool)) (column neuron other : Nat) :
    ((raster.map fun row => row.set column false).getD neuron []).getD other false =
      if other = column then false else (raster.getD neuron []).getD other false := by
  have hrow : (raster.map fun row => row.set column false).getD neuron [] =
      (raster.getD neuron []).set column false := by
    rw [List.getD_eq_getElem?_getD, List.getD_eq_getElem?_getD, List.getElem?_map]
    cases raster[neuron]? with
    | none => rfl
    | some row => rfl
  rw [hrow, getD_set (Or.inr rfl)]

end Grid

namespace Panel

/-- Whether the raster carries a mark there. -/
def marked (panel : Panel) (neuron column : Nat) : Bool :=
  (panel.raster.getD neuron []).getD column false

/-- The raster has a row for every neuron, and every row has all the columns. -/
structure Rectangular (panel : Panel) : Prop where
  rows : panel.raster.length = panel.session.neuronCount
  columns : ∀ row ∈ panel.raster, row.length = panel.width

section Commands

variable {network : Network} {selection : Selection} {seed : UInt64} {panel : Panel}
  {session moved : Session} {outcome : StepOutcome} {start : Simulator} {run : ShownRun}

theorem rectangular_ofSession (session : Session) (width : Nat) :
    (ofSession session width).Rectangular := by
  refine ⟨List.length_replicate, fun row hrow => ?_⟩
  rw [(List.mem_replicate.mp hrow).2]
  exact List.length_replicate

/-- Starting over leaves the raster of a new panel. -/
theorem Rectangular.raster_reset (hrectangular : panel.Rectangular) :
    panel.reset.raster =
      List.replicate panel.session.neuronCount (List.replicate panel.width false) := by
  refine List.eq_replicate_iff.mpr ⟨(List.length_map _).trans hrectangular.rows, ?_⟩
  intro row hrow
  obtain ⟨earlier, hearlier, rfl⟩ := List.mem_map.mp hrow
  rw [List.map_const', hrectangular.columns earlier hearlier]

theorem marked_eq_false_of_replicate {rows columns : Nat}
    (hraster : panel.raster = List.replicate rows (List.replicate columns false))
    (neuron column : Nat) : panel.marked neuron column = false := by
  rw [marked, hraster]
  by_cases hneuron : neuron < rows
  · rw [List.getD_eq_getElem (List.replicate rows _) _ (by simpa using hneuron),
      List.getElem_replicate]
    exact getD_eq_of_forall_mem (fun _ hmark => (List.mem_replicate.mp hmark).2) column
  · rw [List.getD_eq_default (List.replicate rows _) _ (by simpa using hneuron)]
    rfl

theorem Rectangular.stepBack (hrectangular : panel.Rectangular)
    (hcount : moved.neuronCount = panel.session.neuronCount)
    (hback : panel.session.stepBack = .ok moved) : panel.stepBack.Rectangular := by
  rw [stepBack_of_ok hback]
  refine ⟨?_, ?_⟩
  · rw [List.length_map, hcount, hrectangular.rows]
  · intro row hrow
    obtain ⟨earlier, hearlier, rfl⟩ := List.mem_map.mp hrow
    rw [List.length_set, hrectangular.columns earlier hearlier]

theorem Rectangular.step (hrectangular : panel.Rectangular)
    (hcount : moved.neuronCount = panel.session.neuronCount)
    (hfired : outcome.fired.length = panel.session.neuronCount)
    (hstep : panel.session.step = (.ok outcome, moved)) : panel.step.Rectangular := by
  rw [step_of_ok hstep]
  refine ⟨?_, ?_⟩
  · rw [List.length_zipWith, hrectangular.rows, hfired, Nat.min_self, hcount]
  · rw [List.forall_mem_iff_forall_getElem]
    intro index hindex
    rw [List.getElem_zipWith, List.length_set]
    exact hrectangular.columns _ (List.getElem_mem _)

/-- The raster shows the end of the run: its marks are those of the steps shown. -/
structure Traces (start : Simulator) (panel : Panel) (run : ShownRun) : Prop where
  reaches : start.Reaches (fun _ _ => True) panel.session.simulator
  time : run.fired.length = panel.session.time
  rectangular : panel.Rectangular
  fills : run.Fills panel.width panel.marked

theorem traces_start (hreaches : start.Reaches (fun _ _ => True) panel.session.simulator)
    (htime : panel.session.time = 0) (hrectangular : panel.Rectangular)
    (hraster : panel.raster =
      List.replicate panel.session.neuronCount (List.replicate panel.width false)) :
    panel.Traces start .start :=
  ⟨hreaches, htime.symm, hrectangular, ShownRun.fills_start (marked_eq_false_of_replicate hraster)⟩

theorem Traces.stepBack (hstart : Simulator.ofNetwork network .standard = .ok start)
    (htraces : panel.Traces start run) :
    panel.stepBack.Traces start (run.follow panel .stepBack) := by
  rw [ShownRun.follow]
  rcases panel.stepBack_cases with ⟨_, text, hback, hpanel⟩ | ⟨moved, hback⟩
  · rw [hback, hpanel]
    exact { htraces with rectangular := { htraces.rectangular with } }
  · have hreaches := Session.reaches_stepBack htraces.reaches hback
    have hcount := Session.neuronCount_eq_of_reaches hstart htraces.reaches hreaches
    have hrectangular := htraces.rectangular.stepBack hcount hback
    have htime : moved.time = run.fired.length - 1 := by
      rw [htraces.time, Session.time_of_stepBack_eq_ok hback]
      rfl
    rw [stepBack_of_ok hback] at hrectangular ⊢
    rw [hback]
    dsimp only
    rw [htime]
    refine ⟨hreaches, ?_, hrectangular, htraces.fills.pop fun neuron column => ?_⟩
    · rw [List.length_dropLast]
      exact htime.symm
    · rw [htraces.time]
      exact getD_map_set_false panel.raster _ neuron column

theorem Traces.step (hstart : Simulator.ofNetwork network .standard = .ok start)
    (htraces : panel.Traces start run) :
    panel.step.Traces start (run.follow panel .step) := by
  rw [ShownRun.follow]
  rcases panel.step_cases with ⟨_, random, text, hstep, hpanel⟩ | ⟨outcome, moved, hstep⟩
  · rw [hstep, hpanel]
    exact { htraces with rectangular := { htraces.rectangular with } }
  · have hreaches : start.Reaches (fun _ _ => True) panel.session.step.2.simulator :=
      Session.reaches_stepWith htraces.reaches
    rw [hstep] at hreaches
    have hcount := Session.neuronCount_eq_of_reaches hstart htraces.reaches hreaches
    obtain ⟨hfired, htime⟩ := Session.of_stepWith_eq_ok hstep
    have htime : moved.time = run.fired.length + 1 := by rw [htime, htraces.time]
    have hlength : outcome.fired.length = panel.session.neuronCount := by
      rw [hfired, ← hcount]
      exact (hreaches.fits hstart).firing.trans (hreaches.assembles hstart).neuronCount_eq
    have hrectangular := htraces.rectangular.step hcount hlength hstep
    rw [step_of_ok hstep] at hrectangular ⊢
    rw [hstep]
    dsimp only
    rw [htime] at hrectangular ⊢
    refine ⟨hreaches, ?_, hrectangular,
      htraces.fills.push panel.width_pos fun neuron column => ?_⟩
    · rw [List.length_append, List.length_singleton, htime]
    · rw [← hfired]
      refine getD_zipWith_set (hlength.trans htraces.rectangular.rows.symm) ?_ neuron column
      intro row hrow
      rw [htraces.rectangular.columns row hrow]
      exact Nat.mod_lt _ panel.width_pos

theorem Traces.obey (hstart : Simulator.ofNetwork network .standard = .ok start)
    (htraces : panel.Traces start run) (command : PanelCommand) :
    (panel.obey command).Traces start (run.follow panel command) := by
  cases command with
  | step => exact htraces.step hstart
  | stepBack => exact htraces.stepBack hstart
  | reset =>
      have hraster := htraces.rectangular.raster_reset
      refine traces_start (Session.reaches_reset htraces.reaches) rfl ⟨?_, ?_⟩ hraster
      · exact (List.length_map _).trans htraces.rectangular.rows
      · intro row hrow
        rw [Panel.obey, hraster] at hrow
        rw [(List.mem_replicate.mp hrow).2]
        exact List.length_replicate
  | toggleRunning => exact { htraces with rectangular := { htraces.rectangular with } }

theorem Traces.foldl_obey (hstart : Simulator.ofNetwork network .standard = .ok start)
    (htraces : panel.Traces start run) (commands : List PanelCommand) :
    (commands.foldl Panel.obey panel).Traces start (run.followAll panel commands) := by
  induction commands generalizing panel run with
  | nil => exact htraces
  | cons command commands ih => exact ih (htraces.obey hstart command)

theorem traces_ofSession (hsession : Session.ofNetwork network selection seed = .ok session)
    (width : Nat) : (ofSession session width).Traces session.simulator .start := by
  obtain ⟨_, _, _, _, hsimulator⟩ :=
    Simulator.ofNetwork_eq_ok_iff.mp (Session.simulator_of_ofNetwork hsession)
  have htime : session.time = 0 := by rw [Session.time, hsimulator]
  exact traces_start .refl htime (rectangular_ofSession session width) rfl

/-- The raster shows the steps of the run after `low`, each in its column, and nothing
else. -/
structure ShowsEnd (panel : Panel) (run : ShownRun) : Prop where
  time : run.fired.length = panel.session.time
  low_le : run.low ≤ panel.session.time
  le_low : panel.session.time ≤ run.low + panel.width
  rectangular : panel.Rectangular
  marked_iff : ∀ time, run.low < time → time ≤ panel.session.time → ∀ neuron,
    (panel.marked neuron (time % panel.width) = true ↔ run.firedAt time neuron = true)
  blank : ∀ column,
    (∀ time, run.low < time → time ≤ panel.session.time → time % panel.width ≠ column) →
      ∀ neuron, panel.marked neuron column = false

theorem Traces.showsEnd (htraces : panel.Traces start run) : panel.ShowsEnd run := by
  obtain ⟨_, htime, hrectangular, hlow, hroom, hmarked⟩ := htraces
  refine ⟨htime, htime ▸ hlow, htime ▸ hroom, hrectangular, ?_, ?_⟩
  · intro time hlater hmade neuron
    have hshows : run.Shows time := ⟨hlater, htime ▸ hmade⟩
    rw [hmarked]
    constructor
    · rintro ⟨other, hother, hsame, hfired⟩
      obtain rfl := hother.eq_of_mod_eq hshows hroom hsame
      exact hfired
    · intro hfired
      exact ⟨time, hshows, rfl, hfired⟩
  · intro column hunused neuron
    rw [← Bool.not_eq_true, hmarked]
    rintro ⟨time, hshows, hcolumn, _⟩
    exact hunused time hshows.low (htime ▸ hshows.made) hcolumn

/-- Whatever commands a panel obeys, and whether or not they succeed, its raster shows
the steps that have not been taken back, from a time on that the commands tell. -/
theorem showsEnd_of_commands (hsession : Session.ofNetwork network selection seed = .ok session)
    (width : Nat) (commands : List PanelCommand) :
    (commands.foldl Panel.obey (ofSession session width)).width = max width 1 ∧
      (commands.foldl Panel.obey (ofSession session width)).ShowsEnd
        (ShownRun.start.followAll (ofSession session width) commands) := by
  have htraces := (traces_ofSession hsession width).foldl_obey
    (Session.simulator_of_ofNetwork hsession) commands
  exact ⟨width_foldl_obey (ofSession session width) commands, htraces.showsEnd⟩

/-- A raster of one column has shown the second step in place of the first; with the
second taken back, it shows neither. -/
theorem showsEnd_of_commands_delayedLine :
    ∃ session panel,
      Session.ofNetwork (.ofEdits Network.delayedLine) .first 7 = .ok session ∧
        [.step, .step, .stepBack].foldl Panel.obey (ofSession session 0) = panel ∧
        panel.width = 1 ∧ panel.session.time = 1 ∧ panel.raster = [[false], [false], [false]] ∧
        ShownRun.start.followAll (ofSession session 0) [.step, .step, .stepBack] =
          { low := 1, fired := [[true, false, false]] } ∧
        panel.ShowsEnd { low := 1, fired := [[true, false, false]] } := by
  obtain ⟨session, hsession, htime, hraster, hrun⟩ : ∃ session,
      Session.ofNetwork (.ofEdits Network.delayedLine) .first 7 = .ok session ∧
        ([.step, .step, .stepBack].foldl Panel.obey (ofSession session 0)).session.time = 1 ∧
        ([.step, .step, .stepBack].foldl Panel.obey (ofSession session 0)).raster =
          [[false], [false], [false]] ∧
        ShownRun.start.followAll (ofSession session 0) [.step, .step, .stepBack] =
          { low := 1, fired := [[true, false, false]] } :=
    ⟨_, rfl, rfl, rfl, rfl⟩
  obtain ⟨hwidth, hshows⟩ := showsEnd_of_commands hsession 0 [.step, .step, .stepBack]
  exact ⟨session, _, hsession, rfl, hwidth, htime, hraster, hrun, hrun ▸ hshows⟩

end Commands

end Panel

end SpikingNeuralP
