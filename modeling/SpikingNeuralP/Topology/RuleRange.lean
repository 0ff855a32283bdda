/-!
# Rule ranges

Rules are numbered through, neuron by neuron.  The prefix sums of the rule
counts give each neuron the contiguous range of its rules; a range can be looked
up by neuron or met while enumerating all neurons in order.
-/

namespace SpikingNeuralP

/-- The rules from `start` up to, not including, `stop`. -/
structure RuleRange where
  start : Nat
  stop : Nat
  deriving DecidableEq, Repr

def RuleRange.length (range : RuleRange) : Nat :=
  range.stop - range.start

def RuleRange.rules (range : RuleRange) : List Nat :=
  List.range' range.start range.length

/-- Whether one of `count` numbers from `start` on passes the test; later ones
are not looked at once one has passed. -/
def anyFrom (test : Nat → Bool) (start : Nat) : Nat → Bool
  | 0 => false
  | count + 1 => test start || anyFrom test (start + 1) count

/-- Whether a rule of the range passes the test.  The range is walked only up to
the first that does, so it may be far longer than what is read of it. -/
def RuleRange.any (range : RuleRange) (test : Nat → Bool) : Bool :=
  anyFrom test range.start range.length

/-- Whether the flag of a rule in the range is set; a missing flag is not. -/
def RuleRange.anySet (range : RuleRange) (flags : List Bool) : Bool :=
  range.any (flags.getD · false)

def RuleRange.countSet (range : RuleRange) (flags : List Bool) : Nat :=
  range.rules.countP (flags.getD · false)

def RuleRange.firstSet? (range : RuleRange) (flags : List Bool) : Option Nat :=
  range.rules.find? (flags.getD · false)

@[simp]
theorem RuleRange.mem_rules {range : RuleRange} {rule : Nat} :
    rule ∈ range.rules ↔ range.start ≤ rule ∧ rule < range.stop := by
  simp only [rules, length, List.mem_range'_1]
  omega

theorem anyFrom_eq_any_range' (test : Nat → Bool) (start count : Nat) :
    anyFrom test start count = (List.range' start count).any test := by
  induction count generalizing start with
  | zero => rfl
  | succ count ih => rw [anyFrom, ih, List.range'_succ, List.any_cons]

/-- Walking a range finds what listing it would. -/
theorem RuleRange.any_eq_any_rules (range : RuleRange) (test : Nat → Bool) :
    range.any test = range.rules.any test :=
  anyFrom_eq_any_range' test range.start range.length

/-- Where the rules of each neuron begin when the first begin at `start`,
followed by where the last ones end. -/
def offsetsFrom (start : Nat) : List Nat → List Nat
  | [] => [start]
  | count :: counts => start :: offsetsFrom (start + count) counts

@[simp]
theorem length_offsetsFrom (start : Nat) (counts : List Nat) :
    (offsetsFrom start counts).length = counts.length + 1 := by
  induction counts generalizing start with
  | nil => rfl
  | cons count counts ih => simp [offsetsFrom, ih]

/-- The table of offsets: one more than there are neurons. -/
structure RuleRanges where
  offsets : List Nat
  deriving DecidableEq, Repr

namespace RuleRanges

def ofCounts (counts : List Nat) : RuleRanges :=
  ⟨offsetsFrom 0 counts⟩

def neuronCount (ranges : RuleRanges) : Nat :=
  ranges.offsets.length - 1

def ruleCount (ranges : RuleRanges) : Nat :=
  ranges.offsets.getLast?.getD 0

def range (ranges : RuleRanges) (neuron : Nat) : RuleRange :=
  ⟨ranges.offsets.getD neuron 0, ranges.offsets.getD (neuron + 1) 0⟩

/-- Every neuron with its range, in neuron order. -/
def enumerate (ranges : RuleRanges) : List (Nat × RuleRange) :=
  (List.zipWith RuleRange.mk ranges.offsets ranges.offsets.tail).zipIdx.map
    fun (range, neuron) => (neuron, range)

@[simp]
theorem neuronCount_ofCounts (counts : List Nat) :
    (ofCounts counts).neuronCount = counts.length := by
  simp [ofCounts, neuronCount]

@[simp]
theorem length_enumerate (ranges : RuleRanges) :
    ranges.enumerate.length = ranges.neuronCount := by
  simp [enumerate, neuronCount]

end RuleRanges

end SpikingNeuralP
