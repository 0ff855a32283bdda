/-!
# Failures and their wording

Three layers can refuse a request: a step of the engine, an edit or assembly of
a network, and a simulator.  Each has its causes as an inductive type and the
wording of a cause in one function; a cause passed up from a lower layer keeps
its wording.
-/

namespace SpikingNeuralP

/-- Why a single step was refused. -/
inductive StepError where
  | severalChoices (neuron chosen : Nat)
  | closedNeuron (neuron : Nat)
  | lengthMismatch (vector : String) (expected actual : Nat)
  /-- There was no room for a vector of this length. -/
  | outOfMemory (elements : Nat)
  | spikeOverflow (neuron : Nat)
  deriving DecidableEq, Repr

def StepError.message : StepError → String
  | .severalChoices neuron chosen =>
      s!"invalid decision: neuron {neuron} has {chosen} rules chosen (at most 1 allowed)"
  | .closedNeuron neuron => s!"invalid decision: neuron {neuron} is closed"
  | .lengthMismatch vector expected actual =>
      s!"dimension mismatch: {vector} has length {actual}, expected {expected}"
  | .outOfMemory elements =>
      s!"allocation error: could not reserve scratch buffer of {elements} elements"
  | .spikeOverflow neuron => s!"spike count overflow at neuron {neuron}"

/-- Why a network could not be edited or assembled. -/
inductive NetworkError where
  | unknownNeuron (neuron : Nat)
  | unknownSynapse (source target : Nat)
  | duplicateSynapse (source target : Nat)
  | selfSynapse (neuron : Nat)
  | unknownRule (neuron rule : Nat)
  | delayedForgettingRule (rule : Nat)
  | wrongKind (action : String)
  | outOfRange (quantity : String)
  | step (cause : StepError)
  deriving DecidableEq, Repr

def NetworkError.message : NetworkError → String
  | .unknownNeuron neuron => s!"neuron {neuron} doesn't exist"
  | .unknownSynapse source target => s!"synapse {source} -> {target} doesn't exist"
  | .duplicateSynapse source target => s!"synapse {source} -> {target} already exists"
  | .selfSynapse neuron => s!"neuron {neuron} cannot have a synapse to itself"
  | .unknownRule neuron rule => s!"neuron {neuron} has no rule {rule}"
  | .delayedForgettingRule rule => s!"forgetting rule {rule} cannot have a delay"
  | .wrongKind action => s!"can't {action}"
  | .outOfRange quantity => s!"value out of range: {quantity}"
  | .step cause => cause.message

/-- Why a simulator could not be built or moved. -/
inductive SimulatorError where
  | halted
  | atStart
  | historyExhausted (time : Nat)
  | network (cause : NetworkError)
  | step (cause : StepError)
  deriving DecidableEq, Repr

def SimulatorError.message : SimulatorError → String
  | .halted => "reached final configuration"
  | .atStart => "reached starting configuration"
  | .historyExhausted time => s!"history exhausted at time {time}"
  | .network cause => cause.message
  | .step cause => cause.message

/-- Refuses a vector of the wrong length under its name. -/
def checkLength (vector : String) (expected actual : Nat) : Except StepError Unit :=
  if actual = expected then .ok () else .error (.lengthMismatch vector expected actual)

/-- A vector that is not given has no length to be wrong. -/
def checkGivenLength {α : Type} (vector : String) (expected : Nat) :
    Option (List α) → Except StepError Unit
  | some values => checkLength vector expected values.length
  | none => .ok ()

end SpikingNeuralP
