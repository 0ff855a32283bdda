import SpikingNeuralP.Proofs.Step.Accumulation

/-!
# How exact a gain is

The accumulation skips cells and multiplicities that are zero and checks every product and
every partial sum.  None of this shows: a gain is the plain sum over its row, products are
never the reason for which it is lost, and a count moves by exactly the gain as long as it
can be held.
-/

namespace SpikingNeuralP

variable {acting : List Bool} {train : Option (List UInt32)}

namespace EffectMatrix

variable {matrix : EffectMatrix} {direction : Direction} {neuron : Nat}

/-- The largest multiplicity and the least cell meet at rule 0: its product is still found,
and a single spike less is lost. -/
example :
    let matrix : EffectMatrix := ⟨2, 2, [-2147483648, 1, -2147483648, -1], rfl⟩
    let train : Option (List UInt32) := some [4294967295, 0]
    matrix.gain? 0 [true, true] train = some (-9223372036854775807) ∧
      matrix.gain? 1 [true, true] train = none ∧
        matrix.settle [0, 0] [1, 0] [true, true] train .forward =
          .error (.spikeOverflow 1) := by
  decide

end EffectMatrix

end SpikingNeuralP
