import KeyPartitions.Fault
import KeyPartitions.Text.Blank

/-!
# Lines of a data file

A record is a key, a tab and a partition. Blanks around either field are dropped before it is read,
so tabs after the first one are blanks of the second field. A fault quotes its field as it stands.
-/
namespace KeyPartitions.Records

def isLineEnd (c : Char) : Bool := c == '\r' || c == '\n'

/-- A line without the carriage returns and line feeds at its end. -/
def body (line : List Char) : List Char := (line.reverse.dropWhile isLineEnd).reverse

/-- The parts before and after the first tab. -/
def fields? : List Char → Option (List Char × List Char)
  | [] => none
  | c :: rest =>
    if c = '\t' then some ([], rest)
    else (fields? rest).map fun (before, after) => (c :: before, after)

def readKey (field : List Char) : Except Text.NumeralFault Key :=
  (Text.readNumeral Int64.minValue.toInt Int64.maxValue.toInt (Text.trim field)).map Int64.ofInt

def readPartition (field : List Char) : Except Text.NumeralFault Partition :=
  (Text.readNumeral 0 (UInt32.size - 1) (Text.trim field)).map fun value =>
    UInt32.ofNat value.toNat

def readFields (line : List Char) : Except LineFault Entry :=
  match fields? (body line) with
  | none => .error (.noTab (String.ofList (body line)))
  | some (left, right) =>
    match readKey left with
    | .error fault => .error (.badKey (String.ofList left) fault)
    | .ok key =>
      match readPartition right with
      | .error fault => .error (.badPartition (String.ofList right) fault)
      | .ok partition => .ok ⟨key, partition⟩

/-- The record on a line; a fault carries the number of the line and what is wrong with it. -/
def parseLine (line : String) (number : Nat) : Except Fault Entry :=
  (readFields line.toList).mapError fun fault => .badLine number fault.message

end KeyPartitions.Records
