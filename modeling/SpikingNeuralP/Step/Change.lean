import SpikingNeuralP.State

/-!
# Changes

What a step changed, for those who redraw only what moved: four flags per
neuron, and the same as a flat log with the entries of a neuron next to each
other.
-/

namespace SpikingNeuralP

/-- Where two vectors differ, as far as both reach. -/
def differences {α : Type} [BEq α] (before after : List α) : List Bool :=
  List.zipWith (· != ·) before after

structure ChangeSet where
  fired : List Bool
  /-- The outgoing synapses of these neurons look different. -/
  firingChanged : List Bool
  cooldownChanged : List Bool
  /-- The spike count or the cooldown differs. -/
  updated : List Bool
  deriving DecidableEq, Repr

def ChangeSet.between (before after : State) : ChangeSet :=
  let cooldownChanged := differences before.cooldown after.cooldown
  { fired := after.firing
    firingChanged := differences before.firing after.firing
    cooldownChanged
    updated := List.zipWith (· || ·) cooldownChanged (differences before.spikes after.spikes) }

/-- One entry of the log, about one neuron. -/
inductive Change where
  | neuron (index : Nat)
  | synapses (index : Nat)
  | fired (index : Nat)
  deriving DecidableEq, Repr

def Change.index : Change → Nat
  | .neuron index => index
  | .synapses index => index
  | .fired index => index

abbrev ChangeLog := List Change

/-- A log names neurons by words of thirty-two bits. -/
def logIndex (neuron : Nat) : Nat :=
  (UInt32.ofNat neuron).toNat

/-- The entries about one neuron: its update, its synapses, its firing. -/
def ChangeSet.entries (changes : ChangeSet) (neuron : Nat) : ChangeLog :=
  let index := logIndex neuron
  (if changes.updated.getD neuron false then [.neuron index] else []) ++
    (if changes.firingChanged.getD neuron false then [.synapses index] else []) ++
    (if changes.fired.getD neuron false then [.fired index] else [])

def ChangeSet.log (changes : ChangeSet) : ChangeLog :=
  (List.range changes.fired.length).flatMap changes.entries

/-- Drops every index equal to the one kept last. -/
def withoutRepeats (last : Option Nat) : List Nat → List Nat
  | [] => []
  | index :: rest =>
      if last = some index then
        withoutRepeats last rest
      else
        index :: withoutRepeats (some index) rest

/-- The neurons to redraw; entries about one neuron that stand together count
once. -/
def ChangeLog.touched (log : ChangeLog) : List Nat :=
  withoutRepeats none (log.map Change.index)

end SpikingNeuralP
