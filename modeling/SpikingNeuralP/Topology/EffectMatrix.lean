import SpikingNeuralP.Failure

/-!
# The effect matrix

One row per neuron and one column per rule: the cell tells how many spikes the
neuron gains each time the rule acts.  Cells are stored row by row, so a cell
past the end of its row is the cell of a later row.
-/

namespace SpikingNeuralP

structure EffectMatrix where
  neurons : Nat
  rules : Nat
  values : List Int32
  shape : values.length = neurons * rules

namespace EffectMatrix

/-- The matrix with the given cells, row by row. -/
def ofValues (neurons rules : Nat) (values : List Int32) : Except StepError EffectMatrix :=
  if shape : values.length = neurons * rules then
    .ok { neurons, rules, values, shape }
  else
    .error (.lengthMismatch "transition matrix" (neurons * rules) values.length)

def zeros (neurons rules : Nat) : EffectMatrix where
  neurons := neurons
  rules := rules
  values := List.replicate (neurons * rules) 0
  shape := List.length_replicate

def row (matrix : EffectMatrix) (neuron : Nat) : List Int32 :=
  (matrix.values.drop (neuron * matrix.rules)).take matrix.rules

def cell (matrix : EffectMatrix) (neuron rule : Nat) : Int32 :=
  matrix.values.getD (neuron * matrix.rules + rule) 0

def set (matrix : EffectMatrix) (neuron rule : Nat) (value : Int32) : EffectMatrix where
  neurons := matrix.neurons
  rules := matrix.rules
  values := matrix.values.set (neuron * matrix.rules + rule) value
  shape := by rw [List.length_set, matrix.shape]

/-- The cells from the start of an existing neuron's row on reach to its end. -/
theorem row_stop_le {matrix : EffectMatrix} {neuron : Nat} (hneuron : neuron < matrix.neurons) :
    neuron * matrix.rules + matrix.rules ≤ matrix.values.length := by
  rw [matrix.shape, ← Nat.succ_mul]
  exact Nat.mul_le_mul_right matrix.rules hneuron

/-- Every row of an existing neuron is complete. -/
theorem length_row {matrix : EffectMatrix} {neuron : Nat} (hneuron : neuron < matrix.neurons) :
    (matrix.row neuron).length = matrix.rules := by
  have hstop := row_stop_le hneuron
  rw [row, List.length_take, List.length_drop]
  omega

end EffectMatrix

end SpikingNeuralP
