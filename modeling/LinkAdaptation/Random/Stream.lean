/-
A stream of random words: the ChaCha cipher with twelve rounds, under a key
that is drawn from the system's entropy or, for a reproducible stream, made
from a 64-bit seed. The words of the stream are those of the cipher's blocks
0, 1, 2, …, in order, so a generator is its key and the number of words
already taken.
-/
namespace LinkAdaptation.Random

-- ============================================================== cipher

/-- Sixteen words: the cipher's state and its output. -/
abbrev Block := Vector UInt32 16

/-- Eight words: the cipher's key. -/
abbrev Key := Vector UInt32 8

/-- The word with its bits moved left, those leaving on the left entering
on the right. -/
def rotateLeft (x n : UInt32) : UInt32 := (x <<< n) ||| (x >>> (32 - n))

/-- Mixes four words of a block: three operations on a pair at a time, with
the rotations 16, 12, 8 and 7. -/
def quarterRound (a b c d : Fin 16) (s : Block) : Block :=
  let half (m n : UInt32) (s : Block) : Block :=
    let s := s.set a (s[a] + s[b])
    let s := s.set d (rotateLeft (s[d] ^^^ s[a]) m)
    let s := s.set c (s[c] + s[d])
    s.set b (rotateLeft (s[b] ^^^ s[c]) n)
  half 8 7 (half 16 12 s)

/-- Mixes the four columns of a block and then its four diagonals. -/
def doubleRound (s : Block) : Block :=
  let s := quarterRound 0 4 8 12 s
  let s := quarterRound 1 5 9 13 s
  let s := quarterRound 2 6 10 14 s
  let s := quarterRound 3 7 11 15 s
  let s := quarterRound 0 5 10 15 s
  let s := quarterRound 1 6 11 12 s
  let s := quarterRound 2 7 8 13 s
  quarterRound 3 4 9 14 s

/-- The state before mixing: the words of "expand 32-byte k", the key, the
block's number as two words, low one first, and two zero words. -/
def initialBlock (key : Key) (number : UInt64) : Block :=
  let opening : Vector UInt32 4 :=
    #v[0x61707865, 0x3320646e, 0x79622d32, 0x6b206574]
  let closing : Vector UInt32 4 :=
    #v[number.toUInt32, (number >>> 32).toUInt32, 0, 0]
  opening ++ key ++ closing

/-- The block of output with a number: six double rounds, added to the
state they started from. -/
def outputBlock (key : Key) (number : UInt64) : Block :=
  let start := initialBlock key number
  Vector.zipWith (· + ·) start (Nat.repeat doubleRound 6 start)

-- ============================================================= seeding

/-- The successor of a seeding state. -/
def seedStep (s : UInt64) : UInt64 :=
  s * 6364136223846793005 + 11634580027462260723

/-- The word that a seeding state yields: some of its upper bits, rotated
right by its topmost five. -/
def seedWord (s : UInt64) : UInt32 :=
  let x := (((s >>> 18) ^^^ s) >>> 27).toUInt32
  let n := (s >>> 59).toUInt32
  (x >>> n) ||| (x <<< (32 - n))

/-- The key of a seed: the words of the eight states that follow it. -/
def keyOfSeed (seed : UInt64) : Key :=
  Vector.ofFn fun i => seedWord (Nat.repeat seedStep (i.val + 1) seed)

-- =========================================================== generator

/-- A place in a stream of random words. -/
structure Generator where
  key : Key
  /-- The number of words already taken. -/
  taken : Nat
  deriving DecidableEq

namespace Generator

/-- The start of the stream of a key. -/
def ofKey (key : Key) : Generator := { key, taken := 0 }

/-- The start of the stream of a seed. -/
def ofSeed (seed : UInt64) : Generator := .ofKey (keyOfSeed seed)

/-- The word at a place of the stream. -/
def word (key : Key) (n : Nat) : UInt32 :=
  (outputBlock key (UInt64.ofNat (n / 16)))[n % 16]

/-- Takes the next word. -/
def next (g : Generator) : UInt32 × Generator :=
  (word g.key g.taken, { g with taken := g.taken + 1 })

end Generator

end LinkAdaptation.Random
