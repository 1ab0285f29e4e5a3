import KeyPartitions.Decimal.Fixed

/-!
# Shortest decimals

The fewest digits that read back as the same binary64 number, and of these the nearest to it. From
`1e-4` up to, and not with, `1e16` the digits are written around a point, with at least one place.
Outside that range one digit stands before the point and a power of ten follows.
-/
namespace KeyPartitions.Decimal

/-- A decimal `digits * 10 ^ exponent`. -/
structure Scaled where
  digits : Nat
  exponent : Int
  deriving DecidableEq, Repr

/-- The numbers that read as the magnitude, as quotients over one denominator. The ends belong to
the interval exactly if the significand is even. -/
structure ReadingInterval where
  low : Nat
  value : Nat
  high : Nat
  denominator : Nat
  closed : Bool

/-- Each end is half the way to the next number. Just above a power of two the lower gap is half as
wide as the upper one. -/
def Magnitude.interval (magnitude : Magnitude) : ReadingInterval :=
  let unit := 1 <<< magnitude.exponent.toNat
  let narrow := magnitude.significand = 1 <<< 52 ∧ -1074 < magnitude.exponent
  { low := (4 * magnitude.significand - if narrow then 1 else 2) * unit
    value := 4 * magnitude.significand * unit
    high := (4 * magnitude.significand + 2) * unit
    denominator := 4 * magnitude.denominator
    closed := magnitude.significand % 2 = 0 }

namespace ReadingInterval

/-- Whether the quotient lies in the interval. -/
def holds (interval : ReadingInterval) (numerator denominator : Nat) : Bool :=
  let point := numerator * interval.denominator
  let low := interval.low * denominator
  let high := interval.high * denominator
  if interval.closed then low ≤ point && point ≤ high else low < point && point < high

/-- The exponent of the leading decimal digit of the value. -/
def leading (interval : ReadingInterval) : Int :=
  let length (n : Nat) : Int := (Nat.toDigits 10 n).length
  -- The quotient of an m-digit and an n-digit number has its leading digit at m - n or just below.
  let guess := length interval.value - length interval.denominator
  if interval.denominator * Nat.pow 10 guess.toNat ≤ interval.value * Nat.pow 10 (-guess).toNat then
    guess
  else guess - 1

/-- The nearest point of the interval on the grid of multiples of `10 ^ exponent`, if there is one.
A tie goes up. -/
def nearest? (interval : ReadingInterval) (exponent : Int) : Option Nat :=
  let up := Nat.pow 10 exponent.toNat
  let down := Nat.pow 10 (-exponent).toNat
  let below := interval.value * down / (interval.denominator * up)
  let remainder := interval.value * down % (interval.denominator * up)
  let fits (digits : Nat) := interval.holds (digits * up) down
  let upward := interval.denominator * up ≤ 2 * remainder
  if fits below && fits (below + 1) then some (if upward then below + 1 else below)
  else if fits below then some below
  else if fits (below + 1) then some (below + 1)
  else none

/-- The first grid that has a point, from coarse to fine. -/
def search (interval : ReadingInterval) (exponent : Int) : Nat → Scaled
  | 0 => ⟨interval.value / interval.denominator, 0⟩
  | grids + 1 =>
    match interval.nearest? exponent with
    | some digits => ⟨digits, exponent⟩
    | none => interval.search (exponent - 1) grids

end ReadingInterval

/-- Seventeen digits tell every binary64 number from its neighbours. -/
def Magnitude.shortest (magnitude : Magnitude) : Scaled :=
  magnitude.interval.search magnitude.interval.leading 17

/-- The digits of a decimal without zeros at their end, and the exponent of the first one. -/
def Scaled.normal (scaled : Scaled) : List Char × Int :=
  let digits := Nat.toDigits 10 scaled.digits
  ((digits.reverse.dropWhile (· == '0')).reverse, scaled.exponent + digits.length - 1)

/-- Digits around a point, the first of them standing for `10 ^ exponent`. -/
def positional (digits : List Char) (exponent : Int) : String :=
  if exponent < 0 then
    String.ofList ("0.".toList ++ List.replicate (-exponent - 1).toNat '0' ++ digits)
  else
    let whole := exponent.toNat + 1
    let padded := digits ++ List.replicate (whole - digits.length) '0'
    let fraction := padded.drop whole
    String.ofList (padded.take whole ++ '.' :: if fraction.isEmpty then ['0'] else fraction)

/-- One digit, the others behind a point, and a power of ten. -/
def scientific (digits : List Char) (exponent : Int) : String :=
  let mantissa := match digits with
    | first :: second :: rest => first :: '.' :: second :: rest
    | single => single
  String.ofList mantissa ++ "e" ++ toString exponent

def shortest (value : Float) : String :=
  match readBits value.toBits with
  | .nan => "NaN"
  | .infinite negative => signed negative "inf"
  | .finite negative magnitude =>
    if magnitude.significand = 0 then signed negative "0.0"
    else
      let (digits, exponent) := magnitude.shortest.normal
      signed negative
        (if -4 ≤ exponent ∧ exponent < 16 then positional digits exponent
          else scientific digits exponent)

end KeyPartitions.Decimal
