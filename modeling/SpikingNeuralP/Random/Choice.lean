import SpikingNeuralP.Random.KeyStream

/-!
# Unbiased choice

Picks one of several items with the words of a key stream.  A word is scaled to
the number of items and rejected where the scaled range would favour some of
them, so all items are equally likely.
-/

namespace SpikingNeuralP

/-- A position in the key stream of a seed. -/
structure RandomSource where
  seed : UInt64
  position : Nat
  deriving DecidableEq, Repr

namespace RandomSource

def ofSeed (seed : UInt64) : RandomSource :=
  { seed, position := 0 }

def draw (source : RandomSource) : UInt32 × RandomSource :=
  (KeyStream.word source.seed source.position, { source with position := source.position + 1 })

/-- The last accepted low half: the largest multiple of `count` by a power of
two that fits a word, less one. -/
def zone (count : Nat) : Nat :=
  count <<< (31 - count.log2) - 1

/-- Draws until the low half of the scaled word is accepted and answers the high
half, at most `attempts` times more; each attempt fails at most every other
time. -/
def index (count : Nat) : Nat → RandomSource → Nat × RandomSource
  | 0, source =>
      let (word, source) := source.draw
      (word.toNat * count / UInt32.size, source)
  | attempts + 1, source =>
      let (word, source) := source.draw
      let scaled := word.toNat * count
      if scaled % UInt32.size ≤ zone count then
        (scaled / UInt32.size, source)
      else
        index count attempts source

/-- That many rejections in a row have no practical chance. -/
def attempts : Nat := 65536

/-- Nothing is drawn for an empty list. -/
def choose {α : Type} (source : RandomSource) : List α → Option α × RandomSource
  | [] => (none, source)
  | items =>
      let (index, source) := source.index items.length attempts
      (items[index]?, source)

/-- One choice from each list, drawn in order. -/
def chooseEach {α : Type} (source : RandomSource) : List (List α) → List (Option α) × RandomSource
  | [] => ([], source)
  | items :: rest =>
      let (choice, source) := source.choose items
      let (choices, source) := source.chooseEach rest
      (choice :: choices, source)

end RandomSource

end SpikingNeuralP
