import SpikingNeuralP.Proofs.Step.Advance

/-!
# Steps that watch their reads

The stages of a step read their vectors with a default for what is not there.  Here
every stage is written once more so that it stops with a fault when it reads past the
end of a vector, slices one beyond its end or writes one over with another length.  For
every state and every request, whatever the lengths of their vectors, the step that
watches its reads ends as the engine does, so no fault is ever met.
-/

namespace SpikingNeuralP

/-- How a step can end that watches its reads: it is refused, or it is caught reading past
the end of a vector. -/
inductive Fault where
  | refused (cause : StepError)
  | pastEnd
  deriving DecidableEq, Repr

namespace Watched

section Stages

variable {α : Type}

def read (values : List α) (index : Nat) : Except Fault α :=
  match values[index]? with
  | some value => .ok value
  | none => .error .pastEnd

/-- The entries from `start` up to, not including, `stop`. -/
def slice (values : List α) (start stop : Nat) : Except Fault (List α) :=
  if start ≤ stop ∧ stop ≤ values.length then
    .ok ((values.drop start).take (stop - start))
  else
    .error .pastEnd

/-- A vector written over with another one, which must have the same length. -/
def overwrite (target source : List α) : Except Fault (List α) :=
  if source.length = target.length then .ok source else .error .pastEnd

def range (ranges : RuleRanges) (neuron : Nat) : Except Fault RuleRange := do
  let start ← read ranges.offsets neuron
  let stop ← read ranges.offsets (neuron + 1)
  return ⟨start, stop⟩

/-- The flags of the rules in a range. -/
def flagsIn (range : RuleRange) (flags : List Bool) : Except Fault (List Bool) :=
  slice flags range.start range.stop

def checkChoiceCounts (topology : Topology) (decision : List Bool) : Except Fault Unit :=
  topology.ranges.enumerate.forM fun (neuron, range) => do
    let chosen := (← flagsIn range decision).count true
    if 1 < chosen then throw (.refused (.severalChoices neuron chosen)) else return

def isOpen (topology : Topology) (state : State) (neuron : Nat) : Except Fault Bool :=
  (· == 0) <$> read state.cooldown neuron <&&> do
    let flags ← flagsIn (← range topology.ranges neuron) state.inFlight
    return !flags.any id

def checkDecision (topology : Topology) (state : State) (decision : List Bool) :
    Except Fault Unit := do
  checkChoiceCounts topology decision
  topology.ranges.enumerate.forM fun (neuron, range) => do
    let chooses := (← flagsIn range decision).any id
    if ← pure chooses <&&> not <$> isOpen topology state neuron then
      throw (.refused (.closedNeuron neuron))
    else return

def nextCooldown (cooldown : List UInt32) (decision : List Bool) (delays : List UInt32)
    (ranges : RuleRanges) : Except Fault (List UInt32) :=
  ranges.enumerate.mapM fun (neuron, range) => do
    let remaining ← read cooldown neuron
    if 0 < remaining then
      return remaining - 1
    else
      match (← flagsIn range decision).findIdx? id with
      | some position => read delays (range.start + position)
      | none => return 0

def previousCooldown (cooldown : List UInt32) (inFlight : List Bool) (ranges : RuleRanges) :
    Except Fault (List UInt32) :=
  ranges.enumerate.mapM fun (neuron, range) => do
    if (← flagsIn range inFlight).any id then
      return oneLonger (← read cooldown neuron)
    else
      return 0

def actingRules (cooldown : List UInt32) (decision inFlight : List Bool) (delays : List UInt32)
    (ranges : RuleRanges) : Except Fault (List Bool) := do
  let blocks ← ranges.enumerate.mapM fun (neuron, range) => do
    let remaining ← read cooldown neuron
    range.rules.mapM fun rule =>
      pure (remaining == 0) <&&>
        ((read decision rule <&&> (· == 0) <$> read delays rule) <||> read inFlight rule)
  return blocks.flatten

def nextInFlight (inFlight acting decision : List Bool) (delays : List UInt32) :
    Except Fault (List Bool) :=
  inFlight.zipIdx.mapM fun (flying, rule) =>
    (pure flying <&&> not <$> read acting rule) <||>
      (read decision rule <&&> (decide <| 0 < ·) <$> read delays rule)

def arrivals (train : Option (List UInt32)) (rule : Nat) : Except Fault UInt32 :=
  match train with
  | some arriving => read arriving rule
  | none => return 0

def firingNeurons (acting : List Bool) (train : Option (List UInt32)) (ranges : RuleRanges) :
    Except Fault (List Bool) :=
  ranges.enumerate.mapM fun (_, range) =>
    range.rules.anyM fun rule =>
      read acting rule <||> (decide <| 0 < ·) <$> arrivals train rule

/-- A sum that does not fit is no fault of a read. -/
def gainFrom (acting : List Bool) (train : Option (List UInt32)) :
    Nat → Int → List Int32 → Except Fault (Option Int)
  | _, total, [] => return some total
  | rule, total, cell :: cells =>
      if cell = 0 then
        gainFrom acting train (rule + 1) total cells
      else do
        let times := (← read acting rule).toNat + (← arrivals train rule).toNat
        if times = 0 then
          gainFrom acting train (rule + 1) total cells
        else
          match (within64? (Int.ofNat times * cell.toInt)).bind fun product =>
            within64? (total + product) with
          | some sum => gainFrom acting train (rule + 1) sum cells
          | none => return none

def row (matrix : EffectMatrix) (neuron : Nat) : Except Fault (List Int32) :=
  slice matrix.values (neuron * matrix.rules) (neuron * matrix.rules + matrix.rules)

def settle (matrix : EffectMatrix) (spikes : List Int32) (cooldown : List UInt32)
    (acting : List Bool) (train : Option (List UInt32)) (direction : Direction) :
    Except Fault (List Int32) :=
  spikes.zipIdx.mapM fun (count, neuron) => do
    if (← read cooldown neuron) = 0 then
      let gain ← gainFrom acting train 0 0 (← row matrix neuron)
      match gain.bind fun gain => (within64? (direction.apply count gain)).bind spikeCount? with
      | some settled => return settled
      | none => throw (.refused (.spikeOverflow neuron))
    else
      return count

end Stages

section Reads

variable {α : Type}

theorem read_eq {values : List α} {index : Nat} (hindex : index < values.length) (fallback : α) :
    read values index = .ok (values.getD index fallback) := by
  rw [read, List.getElem?_eq_getElem hindex, List.getD_eq_getElem _ _ hindex]

theorem overwrite_eq {target source : List α} (hlength : source.length = target.length) :
    overwrite target source = .ok source :=
  if_pos hlength

theorem ok_andM_ok (left right : Bool) :
    andM (Except.ok left) (Except.ok right) = (.ok (left && right) : Except Fault Bool) := by
  cases left <;> rfl

theorem ok_orM_ok (left right : Bool) :
    orM (Except.ok left) (Except.ok right) = (.ok (left || right) : Except Fault Bool) := by
  cases left <;> rfl

end Reads

section Ranges

theorem count_map_rules (range : RuleRange) (flags : List Bool) :
    (range.rules.map (flags.getD · false)).count true = range.countSet flags :=
  count_true_map _ _

theorem any_map_rules (range : RuleRange) (flags : List Bool) :
    (range.rules.map (flags.getD · false)).any id = range.anySet flags := by
  rw [List.any_map, RuleRange.anySet, RuleRange.any_eq_any_rules]
  rfl

/-- The first number that passes a test is found by the position of the first result. -/
theorem find?_range'_eq (test : Nat → Bool) (start count : Nat) :
    (List.range' start count).find? test =
      (((List.range' start count).map test).findIdx? id).map (start + ·) := by
  induction count generalizing start with
  | zero => rfl
  | succ count ih =>
      rw [List.range'_succ, List.map_cons, List.find?_cons, List.findIdx?_cons]
      cases test start with
      | true => simp
      | false =>
          simp only [id_eq, Bool.false_eq_true, if_false, Option.map_map]
          rw [ih]
          congr 1
          funext position
          simp only [Function.comp_apply]
          omega

theorem firstSet?_eq (range : RuleRange) (flags : List Bool) :
    range.firstSet? flags =
      ((range.rules.map (flags.getD · false)).findIdx? id).map (range.start + ·) :=
  find?_range'_eq _ _ _

end Ranges

variable {topology : Topology} {state : State} {neuron : Nat}
  {flags decision inFlight acting : List Bool} {cooldown delays : List UInt32}
  {train : Option (List UInt32)}

/-- The flags of a neuron are there when there is one for every rule. -/
theorem flagsIn_eq (hneuron : neuron < topology.neuronCount)
    (hlength : flags.length = topology.ruleCount) :
    flagsIn (topology.ranges.range neuron) flags =
      .ok ((topology.ranges.range neuron).rules.map (flags.getD · false)) := by
  obtain ⟨hordered, hstop⟩ := Topology.range_le hneuron
  rw [flagsIn, slice, if_pos ⟨hordered, hlength ▸ hstop⟩]
  congr 1
  apply List.ext_getElem
  · simp only [List.length_take, List.length_drop, List.length_map, RuleRange.rules,
      RuleRange.length, List.length_range']
    omega
  · intro position hposition _
    simp only [List.length_take, List.length_drop] at hposition
    have hrule : (topology.ranges.range neuron).start + position < flags.length := by omega
    simp [RuleRange.rules, List.getElem?_eq_getElem hrule]

theorem range_eq (hneuron : neuron < topology.neuronCount) :
    range topology.ranges neuron = .ok (topology.ranges.range neuron) := by
  have hlength : topology.ranges.offsets.length = topology.neuronCount + 1 :=
    length_offsetsFrom 0 topology.counts
  rw [range, read_eq (by omega) 0, read_eq (by omega) 0]
  rfl

theorem checkChoiceCounts_eq (hlength : decision.length = topology.ruleCount) :
    checkChoiceCounts topology decision =
      (topology.checkChoiceCounts decision).mapError .refused := by
  have hvisit : ∀ item ∈ topology.ranges.enumerate,
      (do
        let chosen := (← flagsIn item.2 decision).count true
        if 1 < chosen then throw (.refused (.severalChoices item.1 chosen)) else return :
          Except Fault Unit) =
        if decide (1 < item.2.countSet decision) then
          .error (.refused (.severalChoices item.1 (item.2.countSet decision)))
        else .ok () := by
    refine Topology.forall_mem_enumerate.mpr fun neuron hneuron => ?_
    dsimp only
    rw [flagsIn_eq hneuron hlength, ← count_map_rules]
    simp only [decide_eq_true_eq]
    rfl
  rw [Topology.checkChoiceCounts, checkChoiceCounts]
  refine (forM_eq_match_find? hvisit).trans ?_
  cases topology.ranges.enumerate.find? fun item => decide (1 < item.2.countSet decision) with
  | none => rfl
  | some item => rfl

theorem isOpen_eq (hfits : state.Fits topology) (hneuron : neuron < topology.neuronCount) :
    isOpen topology state neuron = .ok (state.isOpen topology neuron) := by
  rw [isOpen, read_eq (hneuron.trans_eq hfits.cooldown.symm) 0, range_eq hneuron]
  change andM _ (flagsIn (topology.ranges.range neuron) state.inFlight >>= _) = _
  rw [flagsIn_eq hneuron hfits.inFlight]
  refine (ok_andM_ok _ _).trans ?_
  rw [any_map_rules]
  rfl

theorem checkDecision_eq (hfits : state.Fits topology)
    (hlength : decision.length = topology.ruleCount) :
    checkDecision topology state decision =
      (topology.checkDecision state decision).mapError .refused := by
  have hvisit : ∀ item ∈ topology.ranges.enumerate,
      (do
        let chooses := (← flagsIn item.2 decision).any id
        if ← pure chooses <&&> not <$> isOpen topology state item.1 then
          throw (.refused (.closedNeuron item.1))
        else return : Except Fault Unit) =
        if item.2.anySet decision && !state.isOpen topology item.1 then
          .error (.refused (.closedNeuron item.1))
        else .ok () := by
    refine Topology.forall_mem_enumerate.mpr fun neuron hneuron => ?_
    dsimp only
    rw [flagsIn_eq hneuron hlength, isOpen_eq hfits hneuron, ← any_map_rules]
    change (andM (Except.ok _) (Except.ok _) >>= _) = _
    rw [ok_andM_ok]
    rfl
  rw [Topology.checkDecision, checkDecision, mapError_bind, checkChoiceCounts_eq hlength]
  congr 1
  funext _
  refine (forM_eq_match_find? hvisit).trans ?_
  cases topology.ranges.enumerate.find? fun item =>
      item.2.anySet decision && !state.isOpen topology item.1 with
  | none => rfl
  | some item => rfl

theorem nextCooldown_eq (hcooldown : cooldown.length = topology.neuronCount)
    (hdecision : decision.length = topology.ruleCount)
    (hdelays : delays.length = topology.ruleCount) :
    nextCooldown cooldown decision delays topology.ranges =
      .ok (SpikingNeuralP.nextCooldown cooldown decision delays topology.ranges) := by
  refine mapM_eq_ok_map (Topology.forall_mem_enumerate.mpr fun neuron hneuron => ?_)
  dsimp only
  rw [read_eq (hneuron.trans_eq hcooldown.symm) 0, flagsIn_eq hneuron hdecision, firstSet?_eq]
  change (if 0 < cooldown.getD neuron 0 then _ else _) = _
  split
  case isTrue => rfl
  case isFalse =>
    have hfirst := firstSet?_eq (topology.ranges.range neuron) decision
    cases hposition : ((topology.ranges.range neuron).rules.map
        (decision.getD · false)).findIdx? id with
    | none =>
        change (match ((topology.ranges.range neuron).rules.map
          (decision.getD · false)).findIdx? id with | some _ => _ | none => _) = _
        rw [hposition]
        rfl
    | some position =>
        change (match ((topology.ranges.range neuron).rules.map
          (decision.getD · false)).findIdx? id with | some _ => _ | none => _) = _
        rw [hposition] at hfirst ⊢
        have hrule := (Topology.owns_of_firstSet? hfirst).1.rule_lt
        exact read_eq (hrule.trans_eq hdelays.symm) 0

theorem previousCooldown_eq (hcooldown : cooldown.length = topology.neuronCount)
    (hinFlight : inFlight.length = topology.ruleCount) :
    previousCooldown cooldown inFlight topology.ranges =
      .ok (SpikingNeuralP.previousCooldown cooldown inFlight topology.ranges) := by
  refine mapM_eq_ok_map (Topology.forall_mem_enumerate.mpr fun neuron hneuron => ?_)
  dsimp only
  rw [read_eq (hneuron.trans_eq hcooldown.symm) 0, flagsIn_eq hneuron hinFlight, ← any_map_rules]
  change (if _ then _ else _) = _
  split
  case isTrue => rfl
  case isFalse => rfl

theorem actingRules_eq (hcooldown : cooldown.length = topology.neuronCount)
    (hdecision : decision.length = topology.ruleCount)
    (hinFlight : inFlight.length = topology.ruleCount)
    (hdelays : delays.length = topology.ruleCount) :
    actingRules cooldown decision inFlight delays topology.ranges =
      .ok (SpikingNeuralP.actingRules cooldown decision inFlight delays topology.ranges) := by
  have hblocks : (topology.ranges.enumerate.mapM fun item => do
      let remaining ← read cooldown item.1
      item.2.rules.mapM fun rule =>
        pure (remaining == 0) <&&>
          ((read decision rule <&&> (· == 0) <$> read delays rule) <||> read inFlight rule)) =
      .ok (topology.ranges.enumerate.map fun item => item.2.rules.map fun rule =>
        cooldown.getD item.1 0 == 0 &&
          (decision.getD rule false && delays.getD rule 0 == 0 || inFlight.getD rule false)) := by
    refine mapM_eq_ok_map (Topology.forall_mem_enumerate.mpr fun neuron hneuron => ?_)
    dsimp only
    rw [read_eq (hneuron.trans_eq hcooldown.symm) 0]
    refine mapM_eq_ok_map fun rule hmem => ?_
    have howns : topology.Owns neuron rule := hmem
    have hrule := howns.rule_lt
    rw [read_eq (hrule.trans_eq hdecision.symm) false, read_eq (hrule.trans_eq hdelays.symm) 0,
      read_eq (hrule.trans_eq hinFlight.symm) false]
    change andM (Except.ok _) (orM (andM (Except.ok _) (Except.ok _)) (Except.ok _)) = _
    rw [ok_andM_ok, ok_orM_ok, ok_andM_ok]
  exact (congrArg (· >>= fun blocks => Except.ok blocks.flatten) hblocks).trans rfl

theorem nextInFlight_eq (hinFlight : inFlight.length = topology.ruleCount)
    (hacting : acting.length = topology.ruleCount)
    (hdecision : decision.length = topology.ruleCount)
    (hdelays : delays.length = topology.ruleCount) :
    nextInFlight inFlight acting decision delays =
      .ok (SpikingNeuralP.nextInFlight inFlight acting decision delays) := by
  refine mapM_eq_ok_map fun item hitem => ?_
  obtain ⟨flying, rule⟩ := item
  have hrule : rule < topology.ruleCount :=
    hinFlight ▸ (List.getElem?_eq_some_iff.mp (List.mem_zipIdx_iff_getElem?.mp hitem)).1
  dsimp only
  rw [read_eq (hrule.trans_eq hacting.symm) false, read_eq (hrule.trans_eq hdecision.symm) false,
    read_eq (hrule.trans_eq hdelays.symm) 0]
  change orM (andM (Except.ok _) (Except.ok _)) (andM (Except.ok _) (Except.ok _)) = _
  rw [ok_andM_ok, ok_andM_ok, ok_orM_ok]

theorem arrivals_eq {rule : Nat}
    (htrain : ∀ arriving, train = some arriving → arriving.length = topology.ruleCount)
    (hrule : rule < topology.ruleCount) :
    arrivals train rule = .ok (SpikingNeuralP.arrivals train rule) := by
  cases train with
  | none => rfl
  | some arriving => exact read_eq (hrule.trans_eq (htrain arriving rfl).symm) 0

theorem firingNeurons_eq (hacting : acting.length = topology.ruleCount)
    (htrain : ∀ arriving, train = some arriving → arriving.length = topology.ruleCount) :
    firingNeurons acting train topology.ranges =
      .ok (SpikingNeuralP.firingNeurons acting train topology.ranges) := by
  refine mapM_eq_ok_map (Topology.forall_mem_enumerate.mpr fun neuron hneuron => ?_)
  dsimp only
  rw [RuleRange.any_eq_any_rules]
  refine anyM_eq_ok_any fun rule hmem => ?_
  have howns : topology.Owns neuron rule := hmem
  have hrule := howns.rule_lt
  rw [read_eq (hrule.trans_eq hacting.symm) false, arrivals_eq htrain hrule]
  exact ok_orM_ok _ _

theorem gainFrom_eq (hacting : acting.length = topology.ruleCount)
    (htrain : ∀ arriving, train = some arriving → arriving.length = topology.ruleCount)
    {rule : Nat} (total : Int) {cells : List Int32}
    (hcells : rule + cells.length ≤ topology.ruleCount) :
    gainFrom acting train rule total cells =
      .ok (SpikingNeuralP.gainFrom acting train rule total cells) := by
  induction cells generalizing rule total with
  | nil => rfl
  | cons cell cells ih =>
      rw [List.length_cons] at hcells
      have hrule : rule < topology.ruleCount := by omega
      have hlater : ∀ sum, gainFrom acting train (rule + 1) sum cells =
          .ok (SpikingNeuralP.gainFrom acting train (rule + 1) sum cells) :=
        fun sum => ih sum (by omega)
      rw [gainFrom, SpikingNeuralP.gainFrom, read_eq (hrule.trans_eq hacting.symm) false,
        arrivals_eq htrain hrule]
      split
      case isTrue => exact hlater total
      case isFalse =>
        change (if multiplicity acting train rule = 0 then _ else _) =
          Except.ok (if multiplicity acting train rule = 0 then _ else _)
        split
        case isTrue => exact hlater total
        case isFalse =>
          have hassoc : (do
              let product ← within64? (Int.ofNat (multiplicity acting train rule) * cell.toInt)
              let sum ← within64? (total + product)
              SpikingNeuralP.gainFrom acting train (rule + 1) sum cells) =
              ((within64? (Int.ofNat (multiplicity acting train rule) * cell.toInt)).bind
                fun product => within64? (total + product)).bind fun sum =>
                  SpikingNeuralP.gainFrom acting train (rule + 1) sum cells :=
            (Option.bind_assoc _ _ _).symm
          rw [hassoc]
          change (match (within64? (Int.ofNat (multiplicity acting train rule) * cell.toInt)).bind
            fun product => within64? (total + product) with | some _ => _ | none => _) = _
          split
          case h_1 sum hsum => rw [hsum, hlater sum, Option.bind_some]
          case h_2 hnone => rw [hnone]; rfl

theorem row_eq {matrix : EffectMatrix} (hneuron : neuron < matrix.neurons) :
    row matrix neuron = .ok (matrix.row neuron) := by
  rw [row, slice, if_pos ⟨Nat.le_add_right _ _, EffectMatrix.row_stop_le hneuron⟩,
    Nat.add_sub_cancel_left]
  rfl

theorem settle_eq {spikes : List Int32} (hspikes : spikes.length = topology.neuronCount)
    (hcooldown : cooldown.length = topology.neuronCount)
    (hacting : acting.length = topology.ruleCount)
    (htrain : ∀ arriving, train = some arriving → arriving.length = topology.ruleCount)
    (direction : Direction) :
    settle topology.matrix spikes cooldown acting train direction =
      (topology.matrix.settle spikes cooldown acting train direction).mapError .refused := by
  refine mapM_mapError fun item hitem => ?_
  obtain ⟨count, neuron⟩ := item
  have hneuron : neuron < topology.neuronCount :=
    hspikes ▸ (List.getElem?_eq_some_iff.mp (List.mem_zipIdx_iff_getElem?.mp hitem)).1
  have hrow : neuron < topology.matrix.neurons := topology.matrix_neurons ▸ hneuron
  dsimp only
  rw [read_eq (hneuron.trans_eq hcooldown.symm) 0]
  change (if cooldown.getD neuron 0 = 0 then _ else _) = _
  split
  case isTrue =>
    rw [row_eq hrow]
    change (gainFrom acting train 0 0 (topology.matrix.row neuron) >>= _) = _
    have hwidth : 0 + (topology.matrix.row neuron).length ≤ topology.ruleCount := by
      rw [EffectMatrix.length_row hrow, topology.rules_matrix, Nat.zero_add]
    rw [gainFrom_eq hacting htrain 0 hwidth]
    have hsettle : topology.matrix.settle? acting train direction neuron count =
        (topology.matrix.gain? neuron acting train).bind fun gain =>
          (within64? (direction.apply count gain)).bind spikeCount? := rfl
    change (match (topology.matrix.gain? neuron acting train).bind fun gain =>
      (within64? (direction.apply count gain)).bind spikeCount? with
        | some _ => _ | none => _) = _
    rw [← hsettle]
    cases topology.matrix.settle? acting train direction neuron count with
    | none => rfl
    | some settled => rfl
  case isFalse => rfl

end Watched

/-- The stages of a forward step, after the checks. -/
def Topology.watchedAdvance (topology : Topology) (state : State) (input : StepInput) :
    Except Fault State := do
  let cooldown ←
    Watched.nextCooldown state.cooldown input.decision topology.delays topology.ranges
  let acting ← Watched.actingRules cooldown input.decision state.inFlight topology.delays
    topology.ranges
  let firing ← Watched.firingNeurons acting input.train topology.ranges
  let spikes ← Watched.settle topology.matrix state.spikes cooldown acting input.train .forward
  let inFlight ← Watched.nextInFlight state.inFlight acting input.decision topology.delays
  return { spikes, cooldown, inFlight, firing }

/-- The stages of a step back, after the checks. -/
def Topology.watchedRetreat (topology : Topology) (state : State) (past : PastStep) :
    Except Fault State := do
  let acting ← Watched.actingRules state.cooldown past.input.decision past.inFlight
    topology.delays topology.ranges
  let spikes ←
    Watched.settle topology.matrix state.spikes state.cooldown acting past.input.train .backward
  let cooldown ← Watched.previousCooldown state.cooldown past.inFlight topology.ranges
  let inFlight ← Watched.overwrite state.inFlight past.inFlight
  return { spikes, cooldown, inFlight, firing := state.firing }

namespace Engine

/-- A forward step that watches its reads. -/
def watchedForward (engine : Engine) (state : State) (input : StepInput) :
    Except Fault (StepReport × State) := do
  (engine.topology.checkInput state input none).mapError .refused
  Watched.checkDecision engine.topology state input.decision
  let next ← engine.topology.watchedAdvance state input
  return (engine.report state next, next)

/-- A step back that watches its reads. -/
def watchedBackward (engine : Engine) (state : State) (past : PastStep) :
    Except Fault State := do
  (engine.topology.checkInput state past.input (some past.inFlight)).mapError .refused
  Watched.checkChoiceCounts engine.topology past.input.decision
  engine.topology.watchedRetreat state past

end Engine

variable {topology : Topology} {state : State}

/-- Where the vectors fit, all reads of a forward step find what they ask for. -/
theorem Topology.watchedAdvance_eq {input : StepInput} (hfits : state.Fits topology)
    (hinput : input.Fits topology) :
    topology.watchedAdvance state input = (topology.advance state input).mapError .refused := by
  have hcooldown : (nextCooldown state.cooldown input.decision topology.delays
      topology.ranges).length = topology.neuronCount := by
    simp
  have hacting := topology.length_actingRules (nextCooldown state.cooldown input.decision
    topology.delays topology.ranges) input.decision state.inFlight
  rw [watchedAdvance, Watched.nextCooldown_eq hfits.cooldown hinput.decision rfl, ok_bind,
    Watched.actingRules_eq hcooldown hinput.decision hfits.inFlight rfl, ok_bind,
    Watched.firingNeurons_eq hacting hinput.train, ok_bind,
    Watched.settle_eq hfits.spikes hcooldown hacting hinput.train,
    Watched.nextInFlight_eq hfits.inFlight hacting hinput.decision rfl, advance, mapError_bind]
  rfl

theorem Topology.watchedRetreat_eq {past : PastStep} (hfits : state.Fits topology)
    (hinput : past.input.Fits topology) (hflags : past.inFlight.length = topology.ruleCount) :
    topology.watchedRetreat state past = (topology.retreat state past).mapError .refused := by
  have hacting := topology.length_actingRules state.cooldown past.input.decision past.inFlight
  rw [watchedRetreat, Watched.actingRules_eq hfits.cooldown hinput.decision hflags rfl, ok_bind,
    Watched.settle_eq hfits.spikes hfits.cooldown hacting hinput.train,
    Watched.previousCooldown_eq hfits.cooldown hflags,
    Watched.overwrite_eq (hflags.trans hfits.inFlight.symm), retreat, mapError_bind]
  rfl

namespace Engine

/-- The lengths are checked before anything is read. -/
theorem watchedForward_eq (engine : Engine) (state : State) (input : StepInput) :
    engine.watchedForward state input = (engine.forward state input).mapError .refused := by
  rw [watchedForward, forward, mapError_bind]
  cases hcheck : engine.topology.checkInput state input none with
  | error cause => rfl
  | ok checked =>
      obtain ⟨hfits, hinput, _⟩ := Topology.checkInput_eq_ok_iff.mp hcheck
      rw [Watched.checkDecision_eq hfits hinput.decision,
        Topology.watchedAdvance_eq hfits hinput]
      cases engine.topology.checkDecision state input.decision with
      | error cause => rfl
      | ok checked =>
          cases engine.topology.advance state input with
          | error cause => rfl
          | ok next => rfl

theorem watchedBackward_eq (engine : Engine) (state : State) (past : PastStep) :
    engine.watchedBackward state past = (engine.backward state past).mapError .refused := by
  rw [watchedBackward, backward, mapError_bind]
  cases hcheck : engine.topology.checkInput state past.input (some past.inFlight) with
  | error cause => rfl
  | ok checked =>
      obtain ⟨hfits, hinput, hflags⟩ := Topology.checkInput_eq_ok_iff.mp hcheck
      rw [Watched.checkChoiceCounts_eq hinput.decision,
        Topology.watchedRetreat_eq hfits hinput (hflags past.inFlight rfl)]
      cases engine.topology.checkChoiceCounts past.input.decision with
      | error cause => rfl
      | ok checked => rfl

end Engine

end SpikingNeuralP
