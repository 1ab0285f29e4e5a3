import KeyPartitions.CommandLine.Report
import KeyPartitions.CommandLine.Request
import KeyPartitions.Random.ChaCha

/-!
# Command line

Reads and writes the files that a request names. What is printed comes from reports.
-/
namespace KeyPartitions.CommandLine

def failureOf : IO.Error → IoFailure
  | .noFileOrDirectory .. => .noSuchFile
  | .inappropriateType _ code details =>
    if code = 20 then .notDirectory
    else if code = 21 then .isDirectory
    else .other s!"{details} (os error {code})"
  | .resourceExhausted _ code details =>
    if code = 28 then .noSpace else .other s!"{details} (os error {code})"
  | .permissionDenied _ code details => .other s!"{details} (os error {code})"
  | error => .other (toString error)

/-- A directory can be opened but not read. -/
def openSource (path : String) : IO (Except IoFailure Records.Source) := do
  try
    let bytes ← IO.FS.readBinFile path
    return .ok { bytes := bytes.data.toList }
  catch error =>
    match failureOf error with
    | .isDirectory => return .ok { bytes := [], ending := .failing .isDirectory }
    | failure => return .error failure

def createFile (path : String) : IO (Except IoFailure IO.FS.Handle) := do
  try
    return .ok (← IO.FS.Handle.mk path .write)
  catch error => return .error (failureOf error)

def writeBytes (handle : IO.FS.Handle) (bytes : Text.Bytes) : IO (Except IoFailure Unit) := do
  try
    handle.write ⟨bytes.toArray⟩
    handle.flush
    return .ok ()
  catch error => return .error (failureOf error)

/-- Creates the output first and writes all records to it then. -/
def saveFile (output : String) (entries : List Entry) : IO Report := do
  match ← createFile output with
  | .error failure => return Report.notCreated output failure
  | .ok handle =>
    let (report, sink) := Report.save output {} entries
    match ← writeBytes handle sink.bytes with
    | .error failure => return Report.written output (.error (.io failure))
    | .ok () => return report

def seedWord : IO UInt64 := do
  let bytes ← IO.getRandomBytes 8
  return bytes.data.foldl (fun word byte => word * 256 + byte.toUInt64) 0

def perform : Command → IO Report
  | .load file queries => do
    return Report.load Memory.unbounded file queries (← openSource file)
  | .generate count partitions seed output => do
    let seed ← seed.elim seedWord pure
    match Records.generate? count partitions (Random.ChaCha.ofSeed seed) with
    | none => return Report.noPartitions
    | some (entries, _) => saveFile output entries

end KeyPartitions.CommandLine

open KeyPartitions.CommandLine in
def main (arguments : List String) : IO UInt32 := do
  match request? arguments with
  | none =>
    IO.eprintln "usage: [-q] [-v] generate [-c COUNT] [-p PARTITIONS] [--seed SEED] OUTPUT"
    IO.eprintln "       [-q] [-v] load FILE [--query KEY]"
    return Report.misuseCode
  | some request =>
    let report ← perform request.command
    for notice in report.notices do
      if request.shows notice.level then IO.eprintln notice.line
    IO.print report.output
    if let some complaint := report.complaint then IO.eprintln complaint
    return report.code
