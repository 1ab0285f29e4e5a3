import KeyPartitions.Decimal.Magnitude

/-!
# Numbers with a fixed number of places

The exact value is rounded to the asked number of places, a half to the even neighbour. All digits
before the point are written, and the sign stays even where only zeros remain.
-/
namespace KeyPartitions.Decimal

/-- A whole number of units of the last place, written with a point before the places. -/
def pointed (places units : Nat) : String :=
  let digits := Nat.toDigits 10 units
  let padded := List.replicate (places + 1 - digits.length) '0' ++ digits
  let whole := padded.take (padded.length - places)
  let fraction := padded.drop (padded.length - places)
  String.ofList (if places = 0 then whole else whole ++ '.' :: fraction)

def signed (negative : Bool) (text : String) : String := if negative then "-" ++ text else text

def fixed (places : Nat) (value : Float) : String :=
  match readBits value.toBits with
  | .nan => "NaN"
  | .infinite negative => signed negative "inf"
  | .finite negative magnitude =>
    signed negative
      (pointed places
        (roundHalfEven (magnitude.numerator * Nat.pow 10 places) magnitude.denominator))

end KeyPartitions.Decimal
