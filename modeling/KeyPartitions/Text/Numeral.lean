/-!
# Decimal numerals with a range

A numeral is an optional sign and at least one ASCII digit. Digits are read from left to right and
the first fault ends the reading, so a value that has left its range is reported before a bad
character further right. Numbers are written without leading zeros and with no sign but a minus.
-/
namespace KeyPartitions.Text

inductive NumeralFault
  | empty
  | invalidDigit
  | tooLarge
  | tooSmall
  deriving DecidableEq, Repr

def NumeralFault.message : NumeralFault → String
  | .empty => "cannot parse integer from empty string"
  | .invalidDigit => "invalid digit found in string"
  | .tooLarge => "number too large to fit in target type"
  | .tooSmall => "number too small to fit in target type"

/-- The value of an ASCII digit. -/
def digitValue? (c : Char) : Option Nat :=
  if '0' ≤ c ∧ c ≤ '9' then some (c.toNat - '0'.toNat) else none

/-- Digits of a number at or above zero that has to stay at or below `bound`. -/
def readUpward (bound : Int) (value : Int) : List Char → Except NumeralFault Int
  | [] => .ok value
  | c :: rest =>
    match digitValue? c with
    | none => .error .invalidDigit
    | some digit =>
      let next := value * 10 + digit
      if next ≤ bound then readUpward bound next rest else .error .tooLarge

/-- Digits of a number at or below zero that has to stay at or above `bound`. -/
def readDownward (bound : Int) (value : Int) : List Char → Except NumeralFault Int
  | [] => .ok value
  | c :: rest =>
    match digitValue? c with
    | none => .error .invalidDigit
    | some digit =>
      let next := value * 10 - digit
      if bound ≤ next then readDownward bound next rest else .error .tooSmall

/-- A numeral from `low` to `high`. Where `low` is not below zero a minus sign is no digit. -/
def readNumeral (low high : Int) : List Char → Except NumeralFault Int
  | [] => .error .empty
  | ['+'] | ['-'] => .error .invalidDigit
  | '+' :: digits => readUpward high 0 digits
  | '-' :: digits => if low < 0 then readDownward low 0 digits else .error .invalidDigit
  | digits => readUpward high 0 digits

def writeNumeral (value : Int) : List Char :=
  if value < 0 then '-' :: Nat.toDigits 10 value.natAbs else Nat.toDigits 10 value.natAbs

end KeyPartitions.Text
