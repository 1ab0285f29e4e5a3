/-!
# Exact values of floating-point numbers

A finite binary floating-point number is a sign and a magnitude `significand * 2 ^ exponent`.
Magnitudes are compared and rounded as quotients of natural numbers.
-/
namespace KeyPartitions.Decimal

structure Magnitude where
  significand : Nat
  exponent : Int
  deriving DecidableEq, Repr

inductive Reading
  | nan
  | infinite (negative : Bool)
  | finite (negative : Bool) (magnitude : Magnitude)
  deriving DecidableEq, Repr

/-- Sign, exponent field and fraction field of a binary64 number. -/
def readBits (bits : UInt64) : Reading :=
  let negative := bits >>> 63 == 1
  let field := ((bits >>> 52) &&& 0x7ff).toNat
  let fraction := (bits &&& 0xfffffffffffff).toNat
  if field = 0x7ff then (if fraction = 0 then .infinite negative else .nan)
  else if field = 0 then .finite negative ⟨fraction, -1074⟩
  else .finite negative ⟨fraction + 1 <<< 52, (field : Int) - 1075⟩

def Magnitude.numerator (magnitude : Magnitude) : Nat :=
  magnitude.significand <<< magnitude.exponent.toNat

def Magnitude.denominator (magnitude : Magnitude) : Nat := 1 <<< (-magnitude.exponent).toNat

/-- The nearest whole number to a quotient; a half goes to the even neighbour. -/
def roundHalfEven (numerator denominator : Nat) : Nat :=
  let whole := numerator / denominator
  let twice := 2 * (numerator % denominator)
  if denominator < twice ∨ (denominator = twice ∧ whole % 2 = 1) then whole + 1 else whole

theorem roundHalfEven_exact (whole : Nat) {denominator : Nat} (positive : 0 < denominator) :
    roundHalfEven (whole * denominator) denominator = whole := by
  simp [roundHalfEven, Nat.mul_div_cancel _ positive]
  omega

end KeyPartitions.Decimal
