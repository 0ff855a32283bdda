import SpikingNeuralP.Rule
import SpikingNeuralP.Failure

/-!
# Neurons

A regular neuron holds spikes and owns rules, an input neuron passes on a spike
train through its one relaying rule, an output neuron collects.  What a kind
does not have cannot be stored in it; asking for it anyway is a failure that
leaves the neuron as it was.
-/

namespace SpikingNeuralP

inductive NeuronKind where
  | regular
  | input
  | output
  deriving DecidableEq, Repr

/-- What a neuron holds, by kind. -/
inductive NeuronBody where
  | regular (spikes : UInt32) (rules : List Rule)
  | input (train : List UInt32)
  | output
  deriving DecidableEq, Repr

structure Neuron where
  label : Option String
  body : NeuronBody
  deriving DecidableEq, Repr

namespace Neuron

def regular (spikes : UInt32) : Neuron :=
  { label := none, body := .regular spikes [] }

def input (train : List UInt32) : Neuron :=
  { label := none, body := .input train }

def output : Neuron :=
  { label := none, body := .output }

def kind (neuron : Neuron) : NeuronKind :=
  match neuron.body with
  | .regular .. => .regular
  | .input _ => .input
  | .output => .output

/-- The initial spikes; only a regular neuron starts with any. -/
def spikes (neuron : Neuron) : UInt32 :=
  match neuron.body with
  | .regular spikes _ => spikes
  | _ => 0

def rules (neuron : Neuron) : List Rule :=
  match neuron.body with
  | .regular _ rules => rules
  | .input _ => [.relay]
  | .output => []

def train (neuron : Neuron) : List UInt32 :=
  match neuron.body with
  | .input train => train
  | _ => []

def setLabel (neuron : Neuron) (label : String) : Neuron :=
  { neuron with label := some label }

def setSpikes (neuron : Neuron) (spikes : UInt32) : Except NetworkError Neuron :=
  match neuron.body with
  | .regular _ rules => .ok { neuron with body := .regular spikes rules }
  | _ => .error (.wrongKind "set spikes of non-regular neurons")

/-- A forgetting rule must act at once; the number in the failure is the one the
rule would have had. -/
def addRule (neuron : Neuron) (rule : Rule) : Except NetworkError Neuron :=
  match neuron.body with
  | .regular spikes rules =>
      if rule.isForgetting && decide (0 < rule.delay) then
        .error (.delayedForgettingRule rules.length)
      else
        .ok { neuron with body := .regular spikes (rules ++ [rule]) }
  | _ => .error (.wrongKind "add rules to non-regular neurons")

def setTrain (neuron : Neuron) (train : List UInt32) : Except NetworkError Neuron :=
  match neuron.body with
  | .input _ => .ok { neuron with body := .input train }
  | _ => .error (.wrongKind "set spike train for non-input neurons")

/-- The rules a neuron may choose at a spike count, by their position in it.
Only regular neurons choose. -/
def applicableRules (neuron : Neuron) (spikes : UInt32) : List Nat :=
  match neuron.body with
  | .regular _ rules =>
      (rules.zipIdx.filter fun (rule, _) => rule.applicable spikes).map fun (_, index) => index
  | _ => []

end Neuron

end SpikingNeuralP
