import KeyPartitions.Assignment
import KeyPartitions.Records.Generate
import KeyPartitions.Records.Writer
import KeyPartitions.Table.Diagnostics

/-!
# Reports

What a command answers: the lines it prints, and its complaint if it fails.
-/
namespace KeyPartitions.CommandLine

structure Report where
  lines : List String := []
  complaint : Option String := none
  notices : List Notice := []

namespace Report

/-- A command that is not understood ends with two. -/
def misuseCode : UInt32 := 2

def code (report : Report) : UInt32 := if report.complaint.isNone then 0 else 1

def output (report : Report) : String := String.join (report.lines.map (· ++ "\n"))

def answerLine (key : Key) : Option Partition → String
  | some partition => s!"{key}\t{partition}"
  | none => s!"{key}\tnot found"

/-- The answers to lookups made one after another. -/
def answerLines (assignment : Assignment) : List Key → List String
  | [] => []
  | key :: rest =>
    let (found, assignment) := assignment.query key
    answerLine key found :: answerLines assignment rest

/-- The load of a data file, where `opened` is what opening it gives. -/
def load (memory : Memory) (file : String) (queries : List Key)
    (opened : Except IoFailure Records.Source) : Report :=
  let loading := Assignment.standard.loadFile memory file opened
  match loading.result with
  | .error fault =>
    { complaint := s!"failed to load {file}: {fault.message}", notices := loading.notices }
  | .ok summary =>
    let records := summary.records
    let distinct := summary.distinctKeys
    let table := match loading.assignment.table with
      | none => []
      | some table => table.diagnostics.lines
    { lines := s!"loaded {records} records ({distinct} distinct keys) from {file}" :: table ++
        answerLines loading.assignment queries
      notices := loading.notices }

/-- The answer to a request for records from no partitions. -/
def noPartitions : Report := { complaint := "--partitions must be greater than 0" }

def notCreated (output : String) (failure : IoFailure) : Report :=
  { complaint := s!"failed to create {output}: {failure.message}" }

/-- The end of writing a data file. -/
def written (output : String) : Except Fault Nat → Report
  | .error fault => { complaint := s!"failed to write {output}: {fault.message}" }
  | .ok records => { notices := [.written records output] }

/-- Writes records to a sink that stands for a created file. -/
def save (output : String) (sink : Records.Sink) (entries : List Entry) : Report × Records.Sink :=
  let (result, sink) := Records.write sink entries
  (written output result, sink)

end Report

end KeyPartitions.CommandLine
