import SpikingNeuralP.Network.Basic
import SpikingNeuralP.State

/-!
# Assembly

The vectors and the effect matrix of a network.  Rules are numbered through in
neuron order, and every vector over rules uses this numbering.
-/

namespace SpikingNeuralP

/-- A quantity that takes part in spike counts must be one itself. -/
def asSpikes (quantity : String) (value : Nat) : Except NetworkError Int32 :=
  if value < Int32.size / 2 then .ok (Int32.ofNat value) else .error (.outOfRange quantity)

namespace Network

def ruleCounts (network : Network) : List Nat :=
  network.neurons.map fun neuron => neuron.rules.length

/-- The ranges of a topology are built from counts that are words. -/
def checkRuleCounts (network : Network) : Except NetworkError Unit :=
  if ∀ count ∈ network.ruleCounts, count < UInt32.size then .ok ()
  else .error (.outOfRange "rule count")

def delays (network : Network) : List UInt32 :=
  network.neurons.flatMap fun neuron => neuron.rules.map Rule.delay

/-- Every rule in numbering order, with its neuron and the synapses it sends
along. -/
def columns (network : Network) : List (Nat × List Synapse × Rule) :=
  network.cells.zipIdx.flatMap fun (cell, owner) =>
    cell.neuron.rules.map fun rule => (owner, cell.outgoing, rule)

/-- What a rule does to each neuron it reaches: its owner loses what it
consumes, and each target gains what it produces times the weight. -/
def effects (owner : Nat) (outgoing : List Synapse) (rule : Rule) :
    Except NetworkError (List (Nat × Int32)) := do
  let consumed ← asSpikes "consume" rule.consume.toNat
  let gains ← outgoing.mapM fun synapse => do
    let gain ← asSpikes "produce * weight" (rule.produce.toNat * synapse.weight.toNat)
    pure (synapse.target, gain)
  return (owner, -consumed) :: gains

/-- Writes the effects of one rule into its column. -/
def writeColumn (matrix : EffectMatrix) (column : Nat) (effects : List (Nat × Int32)) :
    EffectMatrix :=
  effects.foldl (fun matrix (neuron, effect) => matrix.set neuron column effect) matrix

def effectMatrix (network : Network) : Except NetworkError EffectMatrix := do
  let effects ← network.columns.mapM fun (owner, outgoing, rule) => effects owner outgoing rule
  return effects.zipIdx.foldl (fun matrix (effects, column) => writeColumn matrix column effects)
    (.zeros network.neuronCount network.ruleCount)

def topology (network : Network) : Except NetworkError Topology := do
  network.checkRuleCounts
  let matrix ← network.effectMatrix
  (Topology.build network.ruleCounts network.delays matrix).mapError .step

def initialSpikes (network : Network) : Except NetworkError (List Int32) :=
  network.neurons.mapM fun neuron => asSpikes "spikes" neuron.spikes.toNat

def initialState (network : Network) (topology : Topology) : Except NetworkError State := do
  let spikes ← network.initialSpikes
  (State.initial topology spikes).mapError .step

/-- How many steps the longest input train lasts. -/
def trainLength (network : Network) : Nat :=
  (network.neurons.map fun neuron => neuron.train.length).foldr max 0

/-- The spikes the environment adds at every rule at a time within the trains: a
neuron's train reaches all of its rules, and a train that has ended adds
nothing. -/
def arrivalsAt (network : Network) (time : Nat) : List UInt32 :=
  network.neurons.flatMap fun neuron =>
    List.replicate neuron.rules.length (neuron.train.getD time 0)

/-- After the longest train there is no train at all. -/
def train? (network : Network) (time : Nat) : Option (List UInt32) :=
  if time < network.trainLength then some (network.arrivalsAt time) else none

def trains (network : Network) : List (List UInt32) :=
  (List.range network.trainLength).map network.arrivalsAt

def outputNeurons (network : Network) : List Nat :=
  (network.neurons.zipIdx.filter fun (neuron, _) => neuron.kind == .output).map
    fun (_, index) => index

end Network

end SpikingNeuralP
