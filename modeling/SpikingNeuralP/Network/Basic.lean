import SpikingNeuralP.Neuron.Basic

/-!
# Networks

Neurons and the weighted synapses between them.  Every neuron is kept together
with its outgoing synapses, and neurons are named by position, so removing one
renames those behind it.
-/

namespace SpikingNeuralP

structure Synapse where
  target : Nat
  weight : UInt32
  deriving DecidableEq, Repr

/-- A neuron with its outgoing synapses, oldest first. -/
structure Cell where
  neuron : Neuron
  outgoing : List Synapse
  deriving DecidableEq, Repr

structure Network where
  cells : List Cell
  deriving DecidableEq, Repr

namespace Network

def empty : Network :=
  ⟨[]⟩

def neurons (network : Network) : List Neuron :=
  network.cells.map Cell.neuron

def neuronCount (network : Network) : Nat :=
  network.cells.length

def neuron? (network : Network) (index : Nat) : Option Neuron :=
  network.cells[index]?.map Cell.neuron

/-- An unknown neuron has no synapses. -/
def outgoing (network : Network) (source : Nat) : List Synapse :=
  (network.cells[source]?.map Cell.outgoing).getD []

def ruleCount (network : Network) : Nat :=
  (network.neurons.flatMap Neuron.rules).length

/-- The new neuron comes last; its index is the old neuron count. -/
def addNeuron (network : Network) (neuron : Neuron) : Network :=
  ⟨network.cells ++ [{ neuron, outgoing := [] }]⟩

def checkNeuron (network : Network) (index : Nat) : Except NetworkError Unit :=
  if index < network.neuronCount then .ok () else .error (.unknownNeuron index)

/-- The network with other synapses leaving `source`. -/
def setOutgoing (network : Network) (source : Nat) (outgoing : List Synapse) : Network :=
  ⟨network.cells.modify source fun cell => { cell with outgoing }⟩

/-- Whether a synapse leads from `source` to `target`. -/
def connects (network : Network) (source target : Nat) : Bool :=
  (network.outgoing source).any (·.target == target)

/-- A source has at most one synapse to a target and none to itself. -/
def addSynapse (network : Network) (source target : Nat) (weight : UInt32) :
    Except NetworkError Network := do
  network.checkNeuron source
  network.checkNeuron target
  if source = target then
    .error (.selfSynapse source)
  else if network.connects source target then
    .error (.duplicateSynapse source target)
  else
    .ok (network.setOutgoing source (network.outgoing source ++ [⟨target, weight⟩]))

def removeSynapse (network : Network) (source target : Nat) : Except NetworkError Network := do
  network.checkNeuron source
  network.checkNeuron target
  if network.connects source target then
    .ok (network.setOutgoing source ((network.outgoing source).eraseP (·.target == target)))
  else
    .error (.unknownSynapse source target)

/-- The synapses that remain when a neuron goes, under the new names of their
targets. -/
def withoutTarget (index : Nat) (outgoing : List Synapse) : List Synapse :=
  (outgoing.filter (·.target != index)).map fun synapse =>
    if index < synapse.target then { synapse with target := synapse.target - 1 } else synapse

/-- Removes a neuron with all synapses that touch it and hands it out. -/
def removeNeuron (network : Network) (index : Nat) : Except NetworkError (Neuron × Network) :=
  match network.neuron? index with
  | none => .error (.unknownNeuron index)
  | some neuron =>
      .ok (neuron, ⟨(network.cells.eraseIdx index).map fun cell =>
        { cell with outgoing := withoutTarget index cell.outgoing }⟩)

end Network

/-- The four ways of changing a network. -/
inductive NetworkEdit where
  | addNeuron (neuron : Neuron)
  | addSynapse (source target : Nat) (weight : UInt32)
  | removeSynapse (source target : Nat)
  | removeNeuron (index : Nat)
  deriving DecidableEq, Repr

def Network.edit (network : Network) : NetworkEdit → Except NetworkError Network
  | .addNeuron neuron => .ok (network.addNeuron neuron)
  | .addSynapse source target weight => network.addSynapse source target weight
  | .removeSynapse source target => network.removeSynapse source target
  | .removeNeuron index => (network.removeNeuron index).map Prod.snd

/-- The network after an edit that may fail and then changes nothing. -/
def Network.attempt (network : Network) (edit : NetworkEdit) : Network :=
  match network.edit edit with
  | .ok edited => edited
  | .error _ => network

/-- The network with the given neurons and synapses, added in order. -/
def Network.build (neurons : List Neuron) (synapses : List (Nat × Nat × UInt32)) :
    Except NetworkError Network :=
  synapses.foldlM (fun network (source, target, weight) => network.addSynapse source target weight)
    (neurons.foldl Network.addNeuron .empty)

end SpikingNeuralP
