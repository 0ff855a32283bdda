/-!
# Guarded rules

A rule of a spiking neural P system is applicable to a spike count that lies in
a regular language over one letter and is large enough to be consumed.  This
module holds the three shapes of language the system uses and the rules
guarded by them.
-/

namespace SpikingNeuralP

/-- A language over the single letter `a`, given by the spike counts in it:
`a^n`, `a^n a*` or `a^offset (a^period)*`. -/
inductive Guard where
  | exactly (count : UInt32)
  | atLeast (count : UInt32)
  | periodic (offset period : UInt32)
  deriving DecidableEq, Repr

/-- A zero period repeats nothing, so it accepts the offset alone. -/
def Guard.accepts : Guard → UInt32 → Bool
  | .exactly count, spikes => spikes == count
  | .atLeast count, spikes => decide (count ≤ spikes)
  | .periodic offset period, spikes =>
      decide (offset ≤ spikes) &&
        if period == 0 then spikes == offset else (spikes - offset) % period == 0

/-- A rule that acts removes `consume` spikes from its neuron and sends
`produce` spikes along each synapse, `delay` steps after it was chosen. -/
structure Rule where
  guard : Guard
  consume : UInt32
  produce : UInt32
  delay : UInt32
  deriving DecidableEq, Repr

def Rule.spiking (guard : Guard) (consume delay : UInt32) : Rule :=
  { guard, consume, produce := 1, delay }

/-- A forgetting rule sends nothing and acts at once. -/
def Rule.forgetting (guard : Guard) (consume : UInt32) : Rule :=
  { guard, consume, produce := 0, delay := 0 }

/-- The rule through which an input neuron passes on its spike train: it
consumes nothing and multiplies nothing. -/
def Rule.relay : Rule :=
  { guard := .atLeast 0, consume := 0, produce := 1, delay := 0 }

def Rule.isForgetting (rule : Rule) : Bool :=
  rule.produce == 0

/-- Delays play no part here: a closed neuron is ruled out elsewhere. -/
def Rule.applicable (rule : Rule) (spikes : UInt32) : Bool :=
  decide (rule.consume ≤ spikes) && rule.guard.accepts spikes

end SpikingNeuralP
