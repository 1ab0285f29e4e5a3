import KeyPartitions.Random.WordSource

/-!
# A seeded source

The words of the ChaCha stream cipher with twelve rounds, block after block. Its key is drawn from a
64-bit seed by a linear congruential generator with permuted output; the nonce is zero.
-/
namespace KeyPartitions.Random

/-- Key, number of the next block, and the words of the last block that are still to be given. -/
structure ChaCha where
  key : List UInt32
  block : UInt64 := 0
  waiting : List UInt32 := []

namespace ChaCha

def rotateLeft (word amount : UInt32) : UInt32 := (word <<< amount) ||| (word >>> (32 - amount))

def rotateRight (word amount : UInt32) : UInt32 := (word >>> amount) ||| (word <<< (32 - amount))

def word (state : Array UInt32) (index : Nat) : UInt32 := state.getD index 0

/-- Adds one word to another, then mixes the sum into a third and rotates it. -/
def mix (state : Array UInt32) (sum addend mixed : Nat) (amount : UInt32) : Array UInt32 :=
  let state := state.setIfInBounds sum (word state sum + word state addend)
  state.setIfInBounds mixed (rotateLeft (word state mixed ^^^ word state sum) amount)

def quarterRound (state : Array UInt32) (a b c d : Nat) : Array UInt32 :=
  let state := mix state a b d 16
  let state := mix state c d b 12
  let state := mix state a b d 8
  mix state c d b 7

/-- A round over the columns and one over the diagonals. -/
def doubleRound (state : Array UInt32) : Array UInt32 :=
  [(0, 4, 8, 12), (1, 5, 9, 13), (2, 6, 10, 14), (3, 7, 11, 15),
    (0, 5, 10, 15), (1, 6, 11, 12), (2, 7, 8, 13), (3, 4, 9, 14)].foldl
    (fun state (a, b, c, d) => quarterRound state a b c d) state

def constants : List UInt32 := [0x61707865, 0x3320646e, 0x79622d32, 0x6b206574]

/-- The sixteen words of a block. -/
def blockWords (key : List UInt32) (block : UInt64) : List UInt32 :=
  let start := constants ++ key ++ [block.toUInt32, (block >>> 32).toUInt32, 0, 0]
  let mixed := (List.range 6).foldl (fun state _ => doubleRound state) start.toArray
  List.zipWith (· + ·) mixed.toList start

def next (source : ChaCha) : UInt32 × ChaCha :=
  match source.waiting with
  | first :: rest => (first, { source with waiting := rest })
  | [] =>
    let words := blockWords source.key source.block
    (words.headD 0, { source with block := source.block + 1, waiting := words.tail })

instance : WordSource ChaCha where
  next := next

/-- The state behind a state of the generator that draws the key, and the key word it gives. -/
def seedStep (state : UInt64) : UInt64 × UInt32 :=
  let state := state * 6364136223846793005 + 11634580027462260723
  let folded := (((state >>> 18) ^^^ state) >>> 27).toUInt32
  (state, rotateRight folded (state >>> 59).toUInt32)

def keyWords (state : UInt64) : (count : Nat) → List UInt32
  | 0 => []
  | count + 1 =>
    let (state, word) := seedStep state
    word :: keyWords state count

def ofSeed (seed : UInt64) : ChaCha := { key := keyWords seed 8 }

end ChaCha

end KeyPartitions.Random
