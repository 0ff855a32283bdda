import SpikingNeuralP.Proofs.Network.Editing
import SpikingNeuralP.Proofs.Step.Settling

/-!
# Minors

When the neuron at some place goes, the neurons behind it move up, and so do the rules behind
its own.  Places are counted before and after, vectors over neurons and over rules are cut
accordingly, and a matrix without the row and the columns of the neuron is its minor.
-/

namespace SpikingNeuralP

namespace Network

/-- Where a neuron stands after the one at `index` is removed. -/
def laterIndex (index neuron : Nat) : Nat :=
  if index < neuron then neuron - 1 else neuron

variable {index : Nat}

theorem laterIndex_formerIndex (index place : Nat) :
    laterIndex index (formerIndex index place) = place := by
  rw [laterIndex, formerIndex]
  split <;> split <;> omega

theorem formerIndex_ne (index place : Nat) : formerIndex index place ≠ index := by
  rw [formerIndex]
  split <;> omega

theorem formerIndex_laterIndex {neuron : Nat} (hne : neuron ≠ index) :
    formerIndex index (laterIndex index neuron) = neuron := by
  rw [formerIndex, laterIndex]
  split <;> split <;> omega

theorem formerIndex_lt_iff {count place : Nat} (hindex : index ≤ count) :
    formerIndex index place < count + 1 ↔ place < count := by
  rw [formerIndex]
  split <;> omega

theorem getElem?_eraseIdx_formerIndex {α : Type} (items : List α) (index place : Nat) :
    (items.eraseIdx index)[place]? = items[formerIndex index place]? := by
  rw [List.getElem?_eraseIdx, formerIndex]
  split <;> rfl

/-- The other places, in order. -/
theorem filter_ne_range {count : Nat} (hindex : index ≤ count) :
    (List.range (count + 1)).filter (· != index) =
      (List.range count).map (formerIndex index) := by
  have hlength : index < (List.range (count + 1)).length := by
    rw [List.length_range]
    exact Nat.lt_succ_of_le hindex
  calc
    (List.range (count + 1)).filter (· != index) =
        (List.range (count + 1)).erase index := (List.nodup_range.erase_eq_filter index).symm
    _ = (List.range (count + 1)).eraseIdx index := by
      have herase := List.nodup_range.erase_getElem index hlength
      rwa [List.getElem_range] at herase
    _ = (List.range count).map (formerIndex index) := by
      ext place : 1
      rw [getElem?_eraseIdx_formerIndex, List.getElem?_map]
      by_cases hplace : place < count
      · rw [List.getElem?_range hplace, Option.map_some,
          List.getElem?_range ((formerIndex_lt_iff hindex).mpr hplace)]
      · have hbeyond := mt (formerIndex_lt_iff hindex).mp hplace
        rw [List.getElem?_eq_none (by simpa using hbeyond),
          List.getElem?_eq_none (by simpa using hplace), Option.map_none]

end Network

section Lists

variable {α β : Type}

/-- A list in blocks loses the block of the item that goes. -/
theorem flatMap_eraseIdx (items : List α) (block : α → List β) (size : α → Nat)
    (hsize : ∀ item, (block item).length = size item) (index : Nat) :
    (items.eraseIdx index).flatMap block =
      (items.flatMap block).take ((items.map size).take index).sum ++
        (items.flatMap block).drop ((items.map size).take (index + 1)).sum := by
  have hsizes : items.map size = (items.map block).map List.length := by
    rw [List.map_map]
    exact List.map_congr_left fun item _ => (hsize item).symm
  rw [List.flatMap_def, List.flatMap_def, hsizes, List.take_sum_flatten, List.drop_sum_flatten,
    ← List.flatten_append, ← List.eraseIdx_eq_take_drop_succ, map_eraseIdx]

/-- Behind the entry that goes, every sum of first entries lacks it. -/
theorem sum_take_eraseIdx {counts : List Nat} {index place : Nat} (hindex : index < counts.length)
    (hplace : index ≤ place) :
    ((counts.eraseIdx index).take place).sum + counts[index] = (counts.take (place + 1)).sum := by
  obtain ⟨rest, rfl⟩ := Nat.exists_eq_add_of_le hplace
  have hlength : (counts.take index).length = index := List.length_take_of_le hindex.le
  calc
    ((counts.eraseIdx index).take (index + rest)).sum + counts[index] =
        (counts.take index).sum + ((counts.drop (index + 1)).take rest).sum + counts[index] := by
      rw [List.eraseIdx_eq_take_drop_succ, List.take_append, hlength, Nat.add_sub_cancel_left,
        List.take_of_length_le (by omega), List.sum_append]
    _ = (counts.take (index + 1)).sum + ((counts.drop (index + 1)).take rest).sum := by
      rw [List.sum_take_succ _ _ hindex, Nat.add_right_comm]
    _ = (counts.take (index + rest + 1)).sum := by
      have hsplit : counts.take (index + 1 + rest) =
          counts.take (index + 1) ++ (counts.drop (index + 1)).take rest := List.take_add
      rw [Nat.add_right_comm index rest 1, hsplit, List.sum_append]

end Lists

namespace RuleRange

variable {α : Type}

/-- What is left of a vector over rules when the rules of the range go. -/
def cut (range : RuleRange) (items : List α) : List α :=
  items.take range.start ++ items.drop range.stop

/-- The number a rule had before the rules of the range went. -/
def formerRule (range : RuleRange) (rule : Nat) : Nat :=
  if rule < range.start then rule else rule + range.length

variable {range : RuleRange} {items : List α}

theorem getElem?_cut (hstart : range.start ≤ range.stop) (hstop : range.stop ≤ items.length)
    (rule : Nat) : (range.cut items)[rule]? = items[range.formerRule rule]? := by
  have hlength : (items.take range.start).length = range.start :=
    List.length_take_of_le (hstart.trans hstop)
  rw [cut, List.getElem?_append, hlength, formerRule]
  split
  case isTrue hrule => rw [List.getElem?_take, if_pos hrule]
  case isFalse hrule =>
    rw [List.getElem?_drop, length]
    congr 1
    omega

theorem length_cut (hstart : range.start ≤ range.stop) (hstop : range.stop ≤ items.length) :
    (range.cut items).length + range.length = items.length := by
  rw [cut, List.length_append, List.length_take_of_le (hstart.trans hstop), List.length_drop,
    length]
  omega

end RuleRange

namespace EffectMatrix

/-- The rows of the matrix, in neuron order. -/
def rows (matrix : EffectMatrix) : List (List Int32) :=
  (List.range matrix.neurons).map matrix.row

/-- What is left of a matrix when a row and the columns of a range are deleted. -/
structure IsMinor (minor matrix : EffectMatrix) (neuron : Nat) (range : RuleRange) : Prop where
  neurons : minor.neurons + 1 = matrix.neurons
  rules : minor.rules + range.length = matrix.rules
  rows : minor.rows = (matrix.rows.eraseIdx neuron).map range.cut

variable {minor matrix : EffectMatrix} {neuron : Nat} {range : RuleRange}

theorem getD_row {rule : Nat} (hneuron : neuron < matrix.neurons) (hrule : rule < matrix.rules) :
    (matrix.row neuron).getD rule 0 = matrix.cell neuron rule := by
  rw [row_eq_map_cell hneuron, getD_map_range hrule]

theorem getElem?_rows (hneuron : neuron < matrix.neurons) :
    matrix.rows[neuron]? = some (matrix.row neuron) := by
  rw [rows, List.getElem?_map, List.getElem?_range hneuron, Option.map_some]

theorem row_eq_cut {place : Nat} (hstart : range.start ≤ range.stop)
    (hstop : range.stop ≤ matrix.rules) (hrules : minor.rules + range.length = matrix.rules)
    (hplace : place < minor.neurons) (hneuron : neuron < matrix.neurons)
    (hcells : ∀ rule < minor.rules,
      minor.cell place rule = matrix.cell neuron (range.formerRule rule)) :
    minor.row place = range.cut (matrix.row neuron) := by
  have hwidth : range.stop ≤ (matrix.row neuron).length :=
    hstop.trans_eq (length_row hneuron).symm
  have hlength := RuleRange.length_cut hstart hwidth
  rw [length_row hneuron] at hlength
  apply eq_of_getD_eq (by rw [length_row hplace]; omega) 0
  intro rule hrule
  rw [length_row hplace] at hrule
  have hformer : range.formerRule rule < matrix.rules := by
    rw [RuleRange.formerRule]
    split <;> omega
  calc
    (minor.row place).getD rule 0 = matrix.cell neuron (range.formerRule rule) :=
      (getD_row hplace hrule).trans (hcells rule hrule)
    _ = (matrix.row neuron).getD (range.formerRule rule) 0 := (getD_row hneuron hformer).symm
    _ = (range.cut (matrix.row neuron)).getD rule 0 := by
      rw [List.getD_eq_getElem?_getD, List.getD_eq_getElem?_getD,
        RuleRange.getElem?_cut hstart hwidth]

/-- A minor is told by its cells: each is the one that its neuron and its rule had before. -/
theorem isMinor_of_cell_eq (hneuron : neuron < matrix.neurons)
    (hstart : range.start ≤ range.stop) (hstop : range.stop ≤ matrix.rules)
    (hneurons : minor.neurons + 1 = matrix.neurons)
    (hrules : minor.rules + range.length = matrix.rules)
    (hcells : ∀ place < minor.neurons, ∀ rule < minor.rules,
      minor.cell place rule =
        matrix.cell (Network.formerIndex neuron place) (range.formerRule rule)) :
    minor.IsMinor matrix neuron range where
  neurons := hneurons
  rules := hrules
  rows := by
    have hlast : neuron ≤ minor.neurons := by omega
    ext place : 1
    rw [List.getElem?_map, Network.getElem?_eraseIdx_formerIndex]
    by_cases hplace : place < minor.neurons
    · have hformer : Network.formerIndex neuron place < matrix.neurons :=
        hneurons ▸ (Network.formerIndex_lt_iff hlast).mpr hplace
      rw [getElem?_rows hplace, getElem?_rows hformer, Option.map_some,
        row_eq_cut hstart hstop hrules hplace hformer (hcells place hplace)]
    · have hbeyond : ¬Network.formerIndex neuron place < matrix.neurons :=
        hneurons ▸ mt (Network.formerIndex_lt_iff hlast).mp hplace
      rw [List.getElem?_eq_none (by simpa [EffectMatrix.rows] using hplace),
        List.getElem?_eq_none (by simpa [EffectMatrix.rows] using hbeyond), Option.map_none]

end EffectMatrix

end SpikingNeuralP
