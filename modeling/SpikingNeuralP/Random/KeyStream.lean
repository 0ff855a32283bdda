/-!
# The key stream

An endless stream of words determined by a seed of sixty-four bits.  The seed is
stretched to a key of eight words, and each block of sixteen words is the
ChaCha permutation of twelve rounds applied to the key and the number of the
block.
-/

namespace SpikingNeuralP.KeyStream

def rotateLeft (word : UInt32) (count : UInt32) : UInt32 :=
  (word <<< count) ||| (word >>> (32 - count))

def rotateRight (word : UInt32) (count : UInt32) : UInt32 :=
  (word >>> count) ||| (word <<< (32 - count))

/-- The next state of the linear congruence that stretches the seed. -/
def nextSeed (seed : UInt64) : UInt64 :=
  seed * 6364136223846793005 + 11634580027462260723

/-- The word a state of the congruence stands for: its high bits, mixed and
rotated by the highest ones. -/
def seedWord (seed : UInt64) : UInt32 :=
  rotateRight (((seed >>> 18) ^^^ seed) >>> 27).toUInt32 (seed >>> 59).toUInt32

/-- The words of the next `count` states. -/
def stretch : Nat → UInt64 → List UInt32
  | 0, _ => []
  | count + 1, seed => seedWord (nextSeed seed) :: stretch count (nextSeed seed)

def key (seed : UInt64) : List UInt32 :=
  stretch 8 seed

/-- Adds, mixes and rotates four words of a block, named by position. -/
def quarterRound (block : List UInt32) (a b c d : Nat) : List UInt32 :=
  let wa := block.getD a 0 + block.getD b 0
  let wd := rotateLeft (block.getD d 0 ^^^ wa) 16
  let wc := block.getD c 0 + wd
  let wb := rotateLeft (block.getD b 0 ^^^ wc) 12
  let wa := wa + wb
  let wd := rotateLeft (wd ^^^ wa) 8
  let wc := wc + wd
  let wb := rotateLeft (wb ^^^ wc) 7
  (((block.set a wa).set b wb).set c wc).set d wd

/-- The columns of the four by four block, then its diagonals. -/
def quarters : List (Nat × Nat × Nat × Nat) :=
  [(0, 4, 8, 12), (1, 5, 9, 13), (2, 6, 10, 14), (3, 7, 11, 15),
   (0, 5, 10, 15), (1, 6, 11, 12), (2, 7, 8, 13), (3, 4, 9, 14)]

def doubleRound (block : List UInt32) : List UInt32 :=
  quarters.foldl (fun block (a, b, c, d) => quarterRound block a b c d) block

def rounds : Nat → List UInt32 → List UInt32
  | 0, block => block
  | count + 1, block => rounds count (doubleRound block)

/-- Four fixed words, the key, the number of the block in two words and two
zeros. -/
def firstBlock (key : List UInt32) (number : Nat) : List UInt32 :=
  [0x61707865, 0x3320646e, 0x79622d32, 0x6b206574] ++ key ++
    [UInt32.ofNat number, UInt32.ofNat (number / UInt32.size), 0, 0]

def block (key : List UInt32) (number : Nat) : List UInt32 :=
  let first := firstBlock key number
  List.zipWith (· + ·) first (rounds 6 first)

/-- The word at a position of the stream of a seed. -/
def word (seed : UInt64) (position : Nat) : UInt32 :=
  (block (key seed) (position / 16)).getD (position % 16) 0

end SpikingNeuralP.KeyStream
