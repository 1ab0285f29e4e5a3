import KeyPartitions.Fault
import KeyPartitions.Text.Utf8

/-!
# Writing a data file

Each entry becomes one line: its key, a tab, its partition and a line feed. A sink takes bytes up to
its room. Of a line that does not fit it takes what does, and the writing ends with its refusal.
-/
namespace KeyPartitions.Records

open Text (Bytes)

def lineText (entry : Entry) : List Char :=
  Text.writeNumeral entry.key.toInt ++ '\t' :: Text.writeNumeral entry.partition.toNat ++ ['\n']

def lineBytes (entry : Entry) : Bytes := Text.encode (lineText entry)

/-- Where the lines of a data file go. `room` bytes still fit, all if it is missing, and `received`
holds those taken so far, the latest first. -/
structure Sink where
  room : Option Nat := none
  refusal : IoFailure := .writeZero
  flushFailure : Option IoFailure := none
  received : Bytes := []

namespace Sink

def bytes (sink : Sink) : Bytes := sink.received.reverse

/-- Takes as much of the piece as fits; the answer is whether that is all of it. -/
def accept (sink : Sink) (piece : Bytes) : Bool × Sink :=
  match sink.room with
  | none => (true, { sink with received := piece.reverse ++ sink.received })
  | some room =>
    (piece.length ≤ room,
      { sink with
        room := some (room - piece.length)
        received := (piece.take room).reverse ++ sink.received })

def flush (sink : Sink) (written : Nat) : Except Fault Nat :=
  match sink.flushFailure with
  | none => .ok written
  | some failure => .error (.io failure)

end Sink

/-- Writes the entries behind `written` others and answers how many there are in all. -/
def writeOnto (sink : Sink) (written : Nat) : List Entry → Except Fault Nat × Sink
  | [] => (sink.flush written, sink)
  | entry :: rest =>
    match sink.accept (lineBytes entry) with
    | (true, sink) => writeOnto sink (written + 1) rest
    | (false, sink) => (.error (.io sink.refusal), sink)

def write (sink : Sink) (entries : List Entry) : Except Fault Nat × Sink :=
  writeOnto sink 0 entries

/-- The whole data file of the entries. -/
def fileBytes (entries : List Entry) : Bytes := entries.flatMap lineBytes

end KeyPartitions.Records
