import SpikingNeuralP.Proofs.Vector.Block
import SpikingNeuralP.Proofs.Vector.Traversal
import SpikingNeuralP.Step.Gain

/-!
# Settling the spike counts

A gain that is found is the exact sum over the row, and a spike count that is
settled is the exact count after the gain has been added or taken back.
-/

namespace SpikingNeuralP

variable {acting : List Bool} {train : Option (List UInt32)}

theorem eq_of_within64? {value result : Int} (hwithin : within64? value = some result) :
    result = value := by
  rw [within64?] at hwithin
  split at hwithin
  · exact (Option.some.inj hwithin).symm
  · contradiction

/-- Every spike count fits the wider word. -/
theorem within64?_toInt (count : Int32) : within64? count.toInt = some count.toInt := by
  have hlower := count.le_toInt
  have hupper := count.toInt_lt
  rw [within64?, Int64.toInt_minValue, Int64.toInt_maxValue, if_pos ⟨by omega, by omega⟩]

/-- A count found for a value is that value. -/
theorem spikeCount?_eq_some_iff {value : Int} {count : Int32} :
    spikeCount? value = some count ↔ count.toInt = value := by
  rw [spikeCount?]
  constructor
  · intro hcount
    split at hcount
    case isTrue hrange =>
      have hupper := hrange.2
      rw [Int32.toInt_maxValue] at hupper
      rw [← Option.some.inj hcount, Int32.toInt_ofInt_of_le hrange.1 (by omega)]
    case isFalse => contradiction
  · rintro rfl
    rw [if_pos ⟨count.minValue_le_toInt, count.toInt_le⟩, Int32.ofInt_toInt]

/-- The exact sum over the cells of a row, the first of them belonging to
`rule`. -/
def exactGainFrom (acting : List Bool) (train : Option (List UInt32)) (rule : Nat)
    (cells : List Int32) : Int :=
  ((cells.zipIdx rule).map fun (cell, rule) =>
    (multiplicity acting train rule : Int) * cell.toInt).sum

theorem exactGainFrom_cons (rule : Nat) (cell : Int32) (cells : List Int32) :
    exactGainFrom acting train rule (cell :: cells) =
      (multiplicity acting train rule : Int) * cell.toInt +
        exactGainFrom acting train (rule + 1) cells := by
  simp [exactGainFrom]

/-- Skipping cells and multiplicities that are zero loses nothing. -/
theorem eq_of_gainFrom {rule : Nat} {total gain : Int} {cells : List Int32}
    (hgain : gainFrom acting train rule total cells = some gain) :
    gain = total + exactGainFrom acting train rule cells := by
  induction cells generalizing rule total with
  | nil =>
      rw [gainFrom] at hgain
      simp [exactGainFrom, Option.some.inj hgain]
  | cons cell cells ih =>
      rw [gainFrom] at hgain
      rw [exactGainFrom_cons]
      split at hgain
      case isTrue hcell =>
        rw [ih hgain, hcell]
        simp
      case isFalse hcell =>
        dsimp only at hgain
        split at hgain
        case isTrue htimes =>
          rw [ih hgain, htimes]
          simp
        case isFalse htimes =>
          obtain ⟨product, hproduct, hgain⟩ := Option.bind_eq_some_iff.mp hgain
          obtain ⟨sum, hsum, hgain⟩ := Option.bind_eq_some_iff.mp hgain
          rw [ih hgain, eq_of_within64? hsum, eq_of_within64? hproduct, Int.ofNat_eq_natCast]
          omega

namespace EffectMatrix

variable {matrix : EffectMatrix} {direction : Direction}

/-- The spikes a neuron gains, in integers without bounds. -/
def exactGain (matrix : EffectMatrix) (neuron : Nat) (acting : List Bool)
    (train : Option (List UInt32)) : Int :=
  ((List.range matrix.rules).map fun rule =>
    (multiplicity acting train rule : Int) * (matrix.cell neuron rule).toInt).sum

/-- The cell of an existing neuron and rule is stored. -/
theorem place_lt {neuron rule : Nat} (hneuron : neuron < matrix.neurons)
    (hrule : rule < matrix.rules) : neuron * matrix.rules + rule < matrix.values.length := by
  have hrows : (neuron + 1) * matrix.rules ≤ matrix.neurons * matrix.rules :=
    Nat.mul_le_mul_right matrix.rules hneuron
  rw [Nat.add_mul, Nat.one_mul, ← matrix.shape] at hrows
  omega

theorem cell_zeros (neurons rules neuron rule : Nat) :
    (zeros neurons rules).cell neuron rule = 0 := by
  simp [cell, zeros, List.getElem?_getD_replicate_default_eq]

/-- The row of a neuron holds its cells in rule order. -/
theorem row_eq_map_cell {neuron : Nat} (hneuron : neuron < matrix.neurons) :
    matrix.row neuron = (List.range matrix.rules).map (matrix.cell neuron) := by
  apply List.ext_getElem
  · simp [length_row hneuron]
  · intro rule hrule _
    rw [length_row hneuron] at hrule
    simp [row, cell, List.getElem?_eq_getElem (place_lt hneuron hrule)]

theorem exactGainFrom_row {neuron : Nat} (hneuron : neuron < matrix.neurons) :
    exactGainFrom acting train 0 (matrix.row neuron) = matrix.exactGain neuron acting train := by
  rw [exactGainFrom, exactGain, row_eq_map_cell hneuron]
  congr 1
  apply List.ext_getElem
  · simp
  · intro rule _ _
    simp

theorem eq_exactGain_of_gain? {neuron : Nat} {gain : Int} (hneuron : neuron < matrix.neurons)
    (hgain : matrix.gain? neuron acting train = some gain) :
    gain = matrix.exactGain neuron acting train := by
  rw [eq_of_gainFrom hgain, exactGainFrom_row hneuron, Int.zero_add]

/-- A neuron settles at the count that is exactly its old one moved by its
gain. -/
theorem settle?_eq_some_iff {neuron : Nat} {spikes settled : Int32} :
    matrix.settle? acting train direction neuron spikes = some settled ↔
      ∃ gain, matrix.gain? neuron acting train = some gain ∧
        settled.toInt = direction.apply spikes gain := by
  simp only [settle?, bind, Option.bind_eq_some_iff]
  constructor
  · rintro ⟨gain, hgain, moved, hmoved, hsettled⟩
    rw [spikeCount?_eq_some_iff, eq_of_within64? hmoved] at hsettled
    exact ⟨gain, hgain, hsettled⟩
  · rintro ⟨gain, hgain, hsettled⟩
    refine ⟨gain, hgain, settled.toInt, ?_, spikeCount?_eq_some_iff.mpr rfl⟩
    rw [← hsettled, within64?_toInt]

/-- The counts after a step, neuron by neuron: a closed neuron keeps its own. -/
theorem settle_eq_ok_iff {spikes settled : List Int32} {cooldown : List UInt32} :
    matrix.settle spikes cooldown acting train direction = .ok settled ↔
      settled.length = spikes.length ∧ ∀ neuron < spikes.length,
        if cooldown.getD neuron 0 = 0 then
          matrix.settle? acting train direction neuron (spikes.getD neuron 0) =
            some (settled.getD neuron 0)
        else
          settled.getD neuron 0 = spikes.getD neuron 0 := by
  rw [settle, mapM_zipIdx_eq_ok_iff 0 0]
  apply and_congr_right
  intro _
  apply forall₂_congr
  intro neuron _
  dsimp only
  split
  case isTrue =>
    cases matrix.settle? acting train direction neuron (spikes.getD neuron 0) with
    | none => simp
    | some count => simp
  case isFalse => simp [eq_comm]

end EffectMatrix

end SpikingNeuralP
