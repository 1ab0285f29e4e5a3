import KeyPartitions.Basic
import KeyPartitions.Text.Numeral
import KeyPartitions.Text.Quoted

/-!
# Faults

What can go wrong when a table is made, a data file is read or written, or an assignment is used.
A fault is its cause; `Fault.message` gives its wording.
-/
namespace KeyPartitions

/-- Why a line of a data file is no record. -/
inductive LineFault
  | noTab (line : String)
  | badKey (field : String) (fault : Text.NumeralFault)
  | badPartition (field : String) (fault : Text.NumeralFault)
  deriving DecidableEq, Repr

/-- Why bytes could not be read or written. -/
inductive IoFailure
  | noSuchFile
  | notDirectory
  | isDirectory
  | noSpace
  | invalidUtf8
  | nulInPath
  | writeZero
  | other (reason : String)
  deriving DecidableEq, Repr

inductive Fault
  | allocation (buckets : Nat)
  | zeroCapacity
  | badLoadLimit
  | readBack (key : Key) (expected : Partition) (found : Option Partition)
  | badLine (number : Nat) (reason : String)
  | io (failure : IoFailure)
  | notLoaded
  deriving DecidableEq, Repr

def LineFault.message : LineFault → String
  | .noTab line => "expected <key>\\t<partition>, got " ++ Text.quoted line
  | .badKey field fault => "invalid key " ++ Text.quoted field ++ ": " ++ fault.message
  | .badPartition field fault =>
    "invalid partition " ++ Text.quoted field ++ ": " ++ fault.message

def IoFailure.message : IoFailure → String
  | .noSuchFile => "No such file or directory (os error 2)"
  | .notDirectory => "Not a directory (os error 20)"
  | .isDirectory => "Is a directory (os error 21)"
  | .noSpace => "No space left on device (os error 28)"
  | .invalidUtf8 => "stream did not contain valid UTF-8"
  | .nulInPath => "file name contained an unexpected NUL byte"
  | .writeZero => "failed to write whole buffer"
  | .other reason => reason

namespace Fault

def message : Fault → String
  | .allocation buckets => s!"failed to allocate bucket array of {buckets} buckets"
  | .zeroCapacity => "capacity must be greater than 0"
  | .badLoadLimit => "max load factor must be finite and greater than 0"
  | .readBack key expected (some found) =>
    s!"mismatch after inserting key {key}: wrote {expected}, read back {found}"
  | .readBack key expected none =>
    s!"mismatch after inserting key {key}: wrote {expected}, key is missing"
  | .badLine number reason => s!"line {number}: {reason}"
  | .io failure => "io error: " ++ failure.message
  | .notLoaded => "partition map is not populated"

/-- The failure beneath a fault; only failed reading and writing has one. -/
def source? : Fault → Option IoFailure
  | .io failure => some failure
  | _ => none

end Fault

end KeyPartitions
