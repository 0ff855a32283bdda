import SpikingNeuralP.Neuron.Basic

/-!
# Drafts of neurons

A neuron is described by a list of edits.  Applied directly, each edit either
changes the neuron or fails.  A draft takes all edits, remembers the first that
failed and hands out the neuron only if none did.
-/

namespace SpikingNeuralP

inductive NeuronEdit where
  | label (text : String)
  | spikes (count : UInt32)
  | rule (rule : Rule)
  | train (spikes : List UInt32)
  deriving DecidableEq, Repr

/-- A batch of rules is added one by one. -/
def NeuronEdit.rules (rules : List Rule) : List NeuronEdit :=
  rules.map .rule

def Neuron.edit (neuron : Neuron) : NeuronEdit → Except NetworkError Neuron
  | .label text => .ok (neuron.setLabel text)
  | .spikes count => neuron.setSpikes count
  | .rule rule => neuron.addRule rule
  | .train spikes => neuron.setTrain spikes

/-- A neuron with nothing in it yet. -/
def Neuron.empty : NeuronKind → Neuron
  | .regular => .regular 0
  | .input => .input []
  | .output => .output

structure NeuronDraft where
  neuron : Neuron
  failure : Option NetworkError
  deriving DecidableEq, Repr

namespace NeuronDraft

def ofKind (kind : NeuronKind) : NeuronDraft :=
  { neuron := .empty kind, failure := none }

/-- A failed edit changes nothing but the failure, and that only if it is the
first. -/
def edit (draft : NeuronDraft) (edit : NeuronEdit) : NeuronDraft :=
  match draft.neuron.edit edit with
  | .ok neuron => { draft with neuron }
  | .error failure => { draft with failure := draft.failure.or (some failure) }

def build (draft : NeuronDraft) : Except NetworkError Neuron :=
  match draft.failure with
  | some failure => .error failure
  | none => .ok draft.neuron

end NeuronDraft

/-- The neuron of a kind with the given edits, or the first failure. -/
def Neuron.build (kind : NeuronKind) (edits : List NeuronEdit) : Except NetworkError Neuron :=
  (edits.foldl NeuronDraft.edit (.ofKind kind)).build

end SpikingNeuralP
