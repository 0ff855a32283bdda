import SpikingNeuralP.Proofs.Network.Graph
import SpikingNeuralP.Proofs.Network.Numbering
import SpikingNeuralP.Proofs.Step.Settling

/-!
# The cells of the effect matrix

The matrix is written cell by cell, column after column.  No cell is written
twice with different meaning, because a neuron has no synapse to itself and at
most one to each other neuron; so every cell holds the effect of its rule on its
neuron.
-/

namespace SpikingNeuralP

namespace EffectMatrix

/-- Cells in different places do not share their storage. -/
theorem place_eq_iff {neuron target rule column rules : Nat} (hrule : rule < rules)
    (hcolumn : column < rules) :
    target * rules + column = neuron * rules + rule ↔ target = neuron ∧ column = rule := by
  constructor
  · intro hplace
    have hentry := congrArg (· % rules) hplace
    simp only [Nat.mul_add_mod_self_right, Nat.mod_eq_of_lt hcolumn, Nat.mod_eq_of_lt hrule]
      at hentry
    subst hentry
    have hpositive := Nat.zero_lt_of_lt hcolumn
    exact ⟨Nat.eq_of_mul_eq_mul_right hpositive (Nat.add_right_cancel hplace), rfl⟩
  · rintro ⟨rfl, rfl⟩
    rfl

theorem cell_set {matrix : EffectMatrix} {neuron target rule column : Nat} (value : Int32)
    (hneuron : neuron < matrix.neurons) (hrule : rule < matrix.rules)
    (hcolumn : column < matrix.rules) :
    (matrix.set target column value).cell neuron rule =
      if target = neuron ∧ column = rule then value else matrix.cell neuron rule := by
  have hplace : target * matrix.rules + column = neuron * matrix.rules + rule ↔
      target = neuron ∧ column = rule := place_eq_iff hrule hcolumn
  have hset : (matrix.set target column value).cell neuron rule =
      (matrix.values.set (target * matrix.rules + column) value).getD
        (neuron * matrix.rules + rule) 0 := rfl
  rw [hset, List.getD_eq_getElem?_getD, List.getElem?_set]
  by_cases hsame : target = neuron ∧ column = rule
  · rw [if_pos hsame, if_pos (hplace.mpr hsame), if_pos (hplace.mpr hsame ▸ place_lt hneuron hrule)]
    rfl
  · rw [if_neg hsame, if_neg (mt hplace.mp hsame), cell, List.getD_eq_getElem?_getD]

end EffectMatrix

namespace Network

/-- What is left in a neuron's cell of a column after the effects have been
written to it: the last one meant for the neuron. -/
def written (effects : List (Nat × Int32)) (neuron : Nat) (cell : Int32) : Int32 :=
  effects.foldl (fun cell (target, effect) => if target = neuron then effect else cell) cell

section Writing

variable {matrix : EffectMatrix} {neuron rule column start : Nat} {effects : List (Nat × Int32)}
  {columns : List (List (Nat × Int32))}

theorem shape_writeColumn (matrix : EffectMatrix) (column : Nat) (effects : List (Nat × Int32)) :
    (writeColumn matrix column effects).neurons = matrix.neurons ∧
      (writeColumn matrix column effects).rules = matrix.rules := by
  induction effects generalizing matrix with
  | nil => exact ⟨rfl, rfl⟩
  | cons effect effects ih => exact ih (matrix.set effect.1 column effect.2)

theorem cell_writeColumn (hneuron : neuron < matrix.neurons) (hrule : rule < matrix.rules)
    (hcolumn : column < matrix.rules) :
    (writeColumn matrix column effects).cell neuron rule =
      if column = rule then written effects neuron (matrix.cell neuron rule)
      else matrix.cell neuron rule := by
  induction effects generalizing matrix with
  | nil => simp [writeColumn, written]
  | cons effect effects ih =>
      have hrest : writeColumn matrix column (effect :: effects) =
          writeColumn (matrix.set effect.1 column effect.2) column effects := rfl
      have hwritten : ∀ cell, written (effect :: effects) neuron cell =
          written effects neuron (if effect.1 = neuron then effect.2 else cell) := fun _ => rfl
      have hlater : (writeColumn (matrix.set effect.1 column effect.2) column effects).cell
          neuron rule =
            if column = rule then
              written effects neuron ((matrix.set effect.1 column effect.2).cell neuron rule)
            else (matrix.set effect.1 column effect.2).cell neuron rule :=
        ih hneuron hrule hcolumn
      rw [hrest, hlater, EffectMatrix.cell_set _ hneuron hrule hcolumn, hwritten]
      by_cases hsame : column = rule
      · simp [hsame]
      · simp [hsame]

/-- Writes the columns one after the other, the first of them at `start`. -/
def writeColumns (matrix : EffectMatrix) (start : Nat) (columns : List (List (Nat × Int32))) :
    EffectMatrix :=
  (columns.zipIdx start).foldl
    (fun matrix (effects, column) => writeColumn matrix column effects) matrix

theorem writeColumns_cons (matrix : EffectMatrix) (start : Nat) (effects : List (Nat × Int32))
    (columns : List (List (Nat × Int32))) :
    writeColumns matrix start (effects :: columns) =
      writeColumns (writeColumn matrix start effects) (start + 1) columns := rfl

/-- Columns that are written later leave the earlier ones alone. -/
theorem cell_writeColumns_of_lt (hneuron : neuron < matrix.neurons)
    (hwidth : start + columns.length ≤ matrix.rules) (hrule : rule < start) :
    (writeColumns matrix start columns).cell neuron rule = matrix.cell neuron rule := by
  induction columns generalizing matrix start with
  | nil => rfl
  | cons effects columns ih =>
      obtain ⟨hneurons, hrules⟩ := shape_writeColumn matrix start effects
      rw [List.length_cons] at hwidth
      rw [writeColumns_cons, ih (by omega) (by omega) (by omega),
        cell_writeColumn hneuron (by omega) (by omega), if_neg (by omega)]

theorem cell_writeColumns (hneuron : neuron < matrix.neurons)
    (hwidth : start + columns.length ≤ matrix.rules) {offset : Nat}
    (heffects : columns[offset]? = some effects) :
    (writeColumns matrix start columns).cell neuron (start + offset) =
      written effects neuron (matrix.cell neuron (start + offset)) := by
  induction columns generalizing matrix start offset with
  | nil => simp at heffects
  | cons first columns ih =>
      obtain ⟨hneurons, hrules⟩ := shape_writeColumn matrix start first
      rw [List.length_cons] at hwidth
      rw [writeColumns_cons]
      cases offset with
      | zero =>
          obtain rfl : first = effects := by simpa using heffects
          rw [cell_writeColumns_of_lt (by omega) (by omega) (by omega),
            cell_writeColumn hneuron (by omega) (by omega), if_pos (Nat.add_zero start).symm,
            Nat.add_zero]
      | succ offset =>
          have heffects : columns[offset]? = some effects := by simpa using heffects
          have hoffset := (List.getElem?_eq_some_iff.mp heffects).1
          have hplace : start + (offset + 1) = start + 1 + offset := by omega
          rw [hplace, ih (by omega) (by omega) heffects,
            cell_writeColumn hneuron (by omega) (by omega), if_neg (by omega)]

end Writing

theorem asSpikes_eq_ok_iff {quantity : String} {value : Nat} {spikes : Int32} :
    asSpikes quantity value = .ok spikes ↔ value < 2 ^ 31 ∧ Int32.ofNat value = spikes := by
  rw [asSpikes]
  split
  case isTrue hvalue =>
    constructor
    · intro hspikes
      exact ⟨hvalue, Except.ok.inj hspikes⟩
    · rintro ⟨_, rfl⟩
      rfl
  case isFalse hvalue =>
    constructor
    · intro hspikes
      contradiction
    · rintro ⟨hfits, _⟩
      contradiction

/-- A rule has effects when every quantity in them fits a spike count. -/
theorem effects_eq_ok_iff {owner : Nat} {outgoing : List Synapse} {rule : Rule}
    {effects : List (Nat × Int32)} :
    Network.effects owner outgoing rule = .ok effects ↔
      rule.consume.toNat < 2 ^ 31 ∧
        (∀ synapse ∈ outgoing, rule.produce.toNat * synapse.weight.toNat < 2 ^ 31) ∧
        effects = (owner, -Int32.ofNat rule.consume.toNat) :: outgoing.map fun synapse =>
          (synapse.target, Int32.ofNat (rule.produce.toNat * synapse.weight.toNat)) := by
  have hgain : ∀ (synapse : Synapse) (gain : Nat × Int32),
      (do
        let gain ← asSpikes "produce * weight" (rule.produce.toNat * synapse.weight.toNat)
        pure (synapse.target, gain)) = Except.ok gain ↔
      rule.produce.toNat * synapse.weight.toNat < 2 ^ 31 ∧
        (synapse.target, Int32.ofNat (rule.produce.toNat * synapse.weight.toNat)) = gain := by
    intro synapse gain
    rw [bind_eq_ok_iff]
    simp only [asSpikes_eq_ok_iff, pure, Except.pure, Except.ok.injEq]
    constructor
    · rintro ⟨_, ⟨hfits, rfl⟩, rfl⟩
      exact ⟨hfits, rfl⟩
    · rintro ⟨hfits, rfl⟩
      exact ⟨_, ⟨hfits, rfl⟩, rfl⟩
  rw [Network.effects, bind_eq_ok_iff]
  simp only [bind_eq_ok_iff, asSpikes_eq_ok_iff, mapM_eq_ok_iff_map hgain]
  constructor
  · rintro ⟨_, ⟨hconsume, rfl⟩, _, ⟨hproduce, rfl⟩, heffects⟩
    exact ⟨hconsume, hproduce, (Except.ok.inj heffects).symm⟩
  · rintro ⟨hconsume, hproduce, rfl⟩
    exact ⟨_, ⟨hconsume, rfl⟩, _, ⟨hproduce, rfl⟩, rfl⟩

/-- The weight of the synapses that lead to a neuron. -/
def weightTo (outgoing : List Synapse) (target : Nat) : Nat :=
  ((outgoing.filter (·.target == target)).map fun synapse => synapse.weight.toNat).sum

/-- The weight of the synapses from one neuron to another; zero without any. -/
def weight (network : Network) (source target : Nat) : Nat :=
  weightTo (network.outgoing source) target

theorem written_of_absent {effects : List (Nat × Int32)} {neuron : Nat}
    (habsent : ∀ effect ∈ effects, effect.1 ≠ neuron) (cell : Int32) :
    written effects neuron cell = cell := by
  induction effects with
  | nil => rfl
  | cons effect effects ih =>
      obtain ⟨hfirst, hrest⟩ := List.forall_mem_cons.mp habsent
      have hwritten : written (effect :: effects) neuron cell =
          written effects neuron (if effect.1 = neuron then effect.2 else cell) := rfl
      rw [hwritten, if_neg hfirst, ih hrest]

theorem weightTo_of_absent {outgoing : List Synapse} {target : Nat}
    (habsent : ∀ synapse ∈ outgoing, synapse.target ≠ target) : weightTo outgoing target = 0 := by
  have hnone : outgoing.filter (·.target == target) = [] := by
    rw [List.filter_eq_nil_iff]
    simpa using habsent
  rw [weightTo, hnone]
  rfl

/-- What a rule sends to a neuron along synapses with different targets. -/
theorem toInt_written_gains {outgoing : List Synapse} {produce target : Nat}
    (hnodup : (outgoing.map Synapse.target).Nodup)
    (hfits : ∀ synapse ∈ outgoing, produce * synapse.weight.toNat < 2 ^ 31) :
    (written (outgoing.map fun synapse =>
        (synapse.target, Int32.ofNat (produce * synapse.weight.toNat))) target 0).toInt =
      ((produce * weightTo outgoing target : Nat) : Int) := by
  induction outgoing with
  | nil => simp [written, weightTo]
  | cons synapse outgoing ih =>
      obtain ⟨hfresh, hnodup⟩ := List.nodup_cons.mp hnodup
      obtain ⟨hfirst, hfits⟩ := List.forall_mem_cons.mp hfits
      rw [List.map_cons]
      have hwritten : ∀ effects : List (Nat × Int32),
          written ((synapse.target, Int32.ofNat (produce * synapse.weight.toNat)) :: effects)
              target 0 =
            written effects target (if synapse.target = target then
              Int32.ofNat (produce * synapse.weight.toNat) else 0) := fun _ => rfl
      rw [hwritten]
      by_cases htarget : synapse.target = target
      · have habsent : ∀ other ∈ outgoing, other.target ≠ target := by
          intro other hother hsame
          exact hfresh (List.mem_map.mpr ⟨other, hother, hsame.trans htarget.symm⟩)
        have hweight : weightTo (synapse :: outgoing) target = synapse.weight.toNat := by
          have hrest := weightTo_of_absent habsent
          rw [weightTo] at hrest ⊢
          simp [htarget, hrest]
        rw [if_pos htarget, written_of_absent (by simpa using habsent), hweight,
          Int32.toInt_ofNat_of_lt hfirst]
      · have hweight : weightTo (synapse :: outgoing) target = weightTo outgoing target := by
          simp [weightTo, htarget]
        rw [if_neg htarget, hweight, ih hnodup hfits]

theorem toInt_neg_ofNat {value : Nat} (hvalue : value < 2 ^ 31) :
    (-Int32.ofNat value).toInt = -(value : Int) := by
  rw [Int32.neg_ofNat, Int32.toInt_ofInt_of_le (by omega) (by omega)]

/-- All effects of a rule on a neuron together: what its synapses bring there,
less what it consumes at home. -/
theorem toInt_written_effects {owner neuron : Nat} {outgoing : List Synapse} {rule : Rule}
    {effects : List (Nat × Int32)} (hne : ∀ synapse ∈ outgoing, synapse.target ≠ owner)
    (hnodup : (outgoing.map Synapse.target).Nodup)
    (heffects : Network.effects owner outgoing rule = .ok effects) :
    (written effects neuron 0).toInt =
      ((rule.produce.toNat * weightTo outgoing neuron : Nat) : Int) -
        if owner = neuron then (rule.consume.toNat : Int) else 0 := by
  obtain ⟨hconsume, hproduce, rfl⟩ := effects_eq_ok_iff.mp heffects
  have hwritten : ∀ effects : List (Nat × Int32),
      written ((owner, -Int32.ofNat rule.consume.toNat) :: effects) neuron 0 =
        written effects neuron (if owner = neuron then -Int32.ofNat rule.consume.toNat else 0) :=
    fun _ => rfl
  rw [hwritten]
  by_cases howner : owner = neuron
  · subst howner
    rw [if_pos rfl, if_pos rfl, written_of_absent (by simpa using hne), weightTo_of_absent hne,
      toInt_neg_ofNat hconsume]
    simp
  · rw [if_neg howner, if_neg howner, toInt_written_gains hnodup hproduce, Int.sub_zero]

theorem length_columns (network : Network) : network.columns.length = network.ruleCount := by
  rw [columns, List.length_flatMap, ruleCount, List.length_flatMap, neurons, List.map_map]
  simp only [List.length_map]
  rw [← List.zipIdx_map_fst 0 network.cells, List.map_map, List.zipIdx_map_fst]
  rfl

/-- The cell of a rule and a neuron holds the effect of the rule on the neuron. -/
theorem toInt_cell_column {network : Network} {topology : Topology} {owner index neuron : Nat}
    {rule : Rule} (hwell : network.WellFormed) (hassembles : network.Assembles topology)
    (hneuron : neuron < network.neuronCount)
    (hrule : (network.rulesOf owner)[index]? = some rule) :
    (topology.matrix.cell neuron (network.column owner index)).toInt =
      ((rule.produce.toNat * network.weight owner neuron : Nat) : Int) -
        if owner = neuron then (rule.consume.toNat : Int) else 0 := by
  obtain ⟨columns, hcolumns, hmatrix⟩ := bind_eq_ok_iff.mp hassembles.matrix
  obtain ⟨hlength, hentries⟩ := List.forall₂_iff_get.mp (mapM_eq_ok_iff.mp hcolumns)
  obtain ⟨hcolumn, hitem⟩ := List.getElem?_eq_some_iff.mp (getElem?_columns hrule)
  have heffects := hentries _ hcolumn (hlength ▸ hcolumn)
  rw [List.get_eq_getElem, hitem] at heffects
  have hwidth : 0 + columns.length ≤ network.ruleCount := by
    rw [Nat.zero_add, ← hlength, length_columns]
  have hcell : (writeColumns (.zeros network.neuronCount network.ruleCount) 0 columns).cell
      neuron (0 + network.column owner index) = _ :=
    cell_writeColumns hneuron hwidth (List.getElem?_eq_getElem (hlength ▸ hcolumn))
  rw [EffectMatrix.cell_zeros, Nat.zero_add] at hcell
  have hmatrix : writeColumns (.zeros network.neuronCount network.ruleCount) 0 columns =
      topology.matrix := Except.ok.inj hmatrix
  rw [hmatrix] at hcell
  rw [hcell]
  exact toInt_written_effects (hwell.target_ne owner) (hwell.targets_nodup owner) heffects

end Network

end SpikingNeuralP
