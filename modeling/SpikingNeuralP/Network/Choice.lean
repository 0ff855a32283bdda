import SpikingNeuralP.Network.Assembly

/-!
# Choices

Which rules the neurons may choose in a state, and the decision over all rules
that one choice per neuron stands for.
-/

namespace SpikingNeuralP

/-- A spike count as a word, unless it is negative. -/
def wordOfSpikes? (spikes : Int32) : Option UInt32 :=
  if 0 ≤ spikes.toInt then some (UInt32.ofNat spikes.toInt.toNat) else none

namespace Network

/-- A closed neuron and one with a negative count have no applicable rules. -/
def applicableIn (topology : Topology) (state : State) (index : Nat) (neuron : Neuron) :
    List Nat :=
  if state.isOpen topology index then
    match wordOfSpikes? (state.spikes.getD index 0) with
    | some spikes => neuron.applicableRules spikes
    | none => []
  else
    []

def applicableRules (network : Network) (topology : Topology) (state : State) :
    List (List Nat) :=
  network.neurons.zipIdx.map fun (neuron, index) => applicableIn topology state index neuron

/-- One flag per rule of a neuron, set at the chosen one. -/
def choiceFlags (neuron : Neuron) (choice : Option Nat) : List Bool :=
  (List.range neuron.rules.length).map fun rule => choice == some rule

def checkChoice (index : Nat) (neuron : Neuron) : Option Nat → Except NetworkError Unit
  | none => .ok ()
  | some rule =>
      if rule < neuron.rules.length then .ok () else .error (.unknownRule index rule)

/-- The decision in which every neuron chooses as given. -/
def decision (network : Network) (choices : List (Option Nat)) :
    Except NetworkError (List Bool) := do
  (checkLength "choices" network.neuronCount choices.length).mapError .step
  let flags ← (network.neurons.zip choices).zipIdx.mapM fun ((neuron, choice), index) => do
    checkChoice index neuron choice
    pure (choiceFlags neuron choice)
  return flags.flatten

end Network

end SpikingNeuralP
