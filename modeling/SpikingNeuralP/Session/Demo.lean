import SpikingNeuralP.Network.Basic
import SpikingNeuralP.Neuron.Draft

/-!
# Demonstration systems

Three small networks to try, and the names by which they are asked for.
-/

namespace SpikingNeuralP

inductive DemoSystem where
  /-- Three regular neurons with alternative rules and an output neuron. -/
  | figure
  /-- A chain whose first neuron fires with a delay. -/
  | delayed
  /-- An input neuron driving a forgetting neuron. -/
  | input
  deriving DecidableEq, Repr

/-- A neuron by its kind and its edits. -/
abbrev NeuronPlan := NeuronKind × List NeuronEdit

/-- The network with the planned neurons and synapses, or the first failure. -/
def Network.ofPlan (plans : List NeuronPlan) (synapses : List (Nat × Nat × UInt32)) :
    Except NetworkError Network := do
  let neurons ← plans.mapM fun (kind, edits) => Neuron.build kind edits
  Network.build neurons synapses

namespace DemoSystem

def outputPlan : NeuronPlan :=
  (.output, [.label "out"])

def neurons : DemoSystem → List NeuronPlan
  | .figure =>
      [(.regular,
          [.label "n0", .spikes 2,
           .rule (.spiking (.exactly 2) 1 0),
           .rule (.forgetting (.exactly 1) 1)]),
       (.regular,
          [.label "n1", .spikes 3,
           .rule (.spiking (.exactly 3) 3 0),
           .rule (.spiking (.exactly 1) 1 1),
           .rule (.forgetting (.exactly 2) 2)]),
       (.regular,
          [.label "n2", .spikes 1,
           .rule (.spiking (.exactly 1) 1 0),
           .rule (.spiking (.exactly 1) 1 1)]),
       outputPlan]
  | .delayed =>
      [(.regular,
          [.label "src", .spikes 4,
           .rule (.spiking (.atLeast 1) 1 2)]),
       (.regular,
          [.label "relay",
           .rule (.spiking (.periodic 1 2) 1 0),
           .rule (.forgetting (.exactly 2) 2)]),
       outputPlan]
  | .input =>
      [(.input, [.train [1, 0, 1, 1, 0, 1], .label "in"]),
       (.regular,
          [.label "gate",
           .rule (.spiking (.exactly 2) 2 1),
           .rule (.forgetting (.atLeast 3) 3)]),
       outputPlan]

def synapses : DemoSystem → List (Nat × Nat × UInt32)
  | .figure => [(0, 1, 1), (0, 2, 1), (2, 0, 1), (2, 1, 1), (1, 3, 1)]
  | .delayed => [(0, 1, 1), (1, 2, 1)]
  | .input => [(0, 1, 1), (1, 2, 1)]

def network (system : DemoSystem) : Except NetworkError Network :=
  Network.ofPlan system.neurons system.synapses

end DemoSystem

/-- How each neuron picks among its applicable rules. -/
inductive Selection where
  /-- The rule with the lowest number. -/
  | first
  /-- Any of them, with equal chances. -/
  | random
  deriving DecidableEq, Repr

/-- Names are lower-case; where case is ignored, that of the letters `A` to `Z`
is. -/
def isNamed (name : String) (ignoreCase : Bool) (text : String) : Bool :=
  (if ignoreCase then text.map Char.toLower else text) == name

def DemoSystem.named? (ignoreCase : Bool) (text : String) : Option DemoSystem :=
  if isNamed "figure" ignoreCase text then some .figure
  else if isNamed "delayed" ignoreCase text then some .delayed
  else if isNamed "input" ignoreCase text then some .input
  else none

def Selection.named? (ignoreCase : Bool) (text : String) : Option Selection :=
  if isNamed "first" ignoreCase text then some .first
  else if isNamed "random" ignoreCase text then some .random
  else none

end SpikingNeuralP
