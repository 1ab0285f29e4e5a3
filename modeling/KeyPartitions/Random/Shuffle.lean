import KeyPartitions.Random.WordSource

/-!
# Shuffling

An array is shuffled from its front: step `i` swaps element `i` with one at or before it. One
bounded draw serves several steps. Its bound is the product of consecutive numbers, as many as stay
below `2 ^ 32` together, and the indices are the digits of the draw in these bases.
-/
namespace KeyPartitions.Random

variable {σ : Type} [WordSource σ]

/-- The digits of a draw that are still to be taken. -/
structure IndexDrawer where
  steps : Nat := 0
  value : Nat := 0
  digits : Nat := 1

/-- Multiplies consecutive numbers, from `next` on, as long as the product stays below `2 ^ 32`.
Gives the product and the first number left out. -/
def stretch (product next : Nat) : (rounds : Nat) → Nat × Nat
  | 0 => (product, next)
  | rounds + 1 =>
    if product * next < UInt32.size then stretch (product * next) (next + 1) rounds
    else (product, next)

/-- The bases of one draw from `first` on. Every factor doubles the product at least, so it takes
fewer than 32 rounds. -/
def bases (first : Nat) : Nat × Nat := stretch first (first + 1) 32

namespace IndexDrawer

/-- Draws anew if no digit is left. -/
def refill (drawer : IndexDrawer) (source : σ) : IndexDrawer × σ :=
  if drawer.digits = 0 then
    let first := drawer.steps + 1
    let (product, behind) := bases first
    let (value, source) := below product source
    ({ drawer with value, digits := behind - first }, source)
  else (drawer, source)

/-- Takes one digit. The last one is all that is left of the draw. -/
def takeDigit (drawer : IndexDrawer) : Nat × IndexDrawer :=
  let base := drawer.steps + 1
  if drawer.digits = 1 then (drawer.value, { drawer with steps := base, digits := 0 })
  else
    (drawer.value % base,
      { steps := base, value := drawer.value / base, digits := drawer.digits - 1 })

/-- An index from zero to the number of steps made before. -/
def next (drawer : IndexDrawer) (source : σ) : Nat × IndexDrawer × σ :=
  let (drawer, source) := drawer.refill source
  let (index, drawer) := drawer.takeDigit
  (index, drawer, source)

end IndexDrawer

def shuffleStep {β : Type} : Array β × IndexDrawer × σ → Nat → Array β × IndexDrawer × σ
  | (array, drawer, source), step =>
    let (index, drawer, source) := drawer.next source
    (array.swapIfInBounds step index, drawer, source)

def shuffle {β : Type} (array : Array β) (source : σ) : Array β × σ :=
  let (array, _, source) := (List.range array.size).foldl shuffleStep (array, {}, source)
  (array, source)

end KeyPartitions.Random
