import KeyPartitions.Notice
import KeyPartitions.Records.Reader
import KeyPartitions.Table.Frozen

/-!
# Assignments

An assignment of partitions to keys that is loaded once and looked up many times. It owns at most
one table, and every lookup misses until it has one. A load reads each key back right after its put,
and a load that meets a fault leaves no table behind.
-/
namespace KeyPartitions

structure Assignment where
  settings : Settings Float
  table : Option (Table Float) := none

/-- What a load did. The records count repeated keys, the distinct keys are those of the table. -/
structure LoadSummary where
  records : Nat
  distinctKeys : Nat
  alreadyLoaded : Bool
  deriving DecidableEq, Repr

/-- What a load gives: the assignment behind it, its result and its notices in order. -/
structure Loading where
  assignment : Assignment
  result : Except Fault LoadSummary
  notices : List Notice

namespace Assignment

def standard : Assignment := { settings := Settings.bulk }

def isPopulated (assignment : Assignment) : Bool := assignment.table.isSome

def size (assignment : Assignment) : Nat := (assignment.table.map Table.count).getD 0

def query (assignment : Assignment) (key : Key) : Option Partition × Assignment :=
  match assignment.table with
  | none => (none, assignment)
  | some table =>
    let (found, table) := table.get key
    (found, { assignment with table := some table })

def queryOrNotFound (assignment : Assignment) (key : Key) : Partition × Assignment :=
  ((assignment.query key).1.getD notFound, (assignment.query key).2)

/-- Releases the table, so that the assignment can be loaded again. -/
def cleanup (assignment : Assignment) : Assignment := { assignment with table := none }

def intoFrozen (assignment : Assignment) : Except Fault (Frozen Float) :=
  match assignment.table with
  | none => .error .notLoaded
  | some table => .ok table.freeze

/-- What a put of an entry reads back, if it is not what was put. -/
def readBack (table : Table Float) (entry : Entry) : Except Fault Unit :=
  let found := table.find? entry.key
  if found = some entry.partition then .ok ()
  else .error (.readBack entry.key entry.partition found)

/-- A table that is being loaded: the records taken so far, and the notices, the latest first. -/
structure Progress where
  table : Table Float
  records : Nat
  notices : List Notice

/-- Takes records until one is a fault or is not read back. -/
def insertAll (memory : Memory) : Progress → List Records.Item → Progress × Except Fault Unit
  | progress, [] => (progress, .ok ())
  | progress, .error fault :: _ => (progress, .error fault)
  | ⟨table, records, notices⟩, .ok entry :: rest =>
    let (table, notices) := Table.putNoting memory (table, notices) entry
    match readBack table entry with
    | .error fault => (⟨table, records, notices⟩, .error fault)
    | .ok () => insertAll memory ⟨table, records + 1, notices⟩ rest

/-- The table of the assignment, or a new one. -/
def openTable (memory : Memory) (assignment : Assignment) : Except Fault (Table Float) :=
  match assignment.table with
  | some table => .ok table
  | none => Table.ofSettings memory assignment.settings

/-- Puts every record. A fault on the way discards the table. -/
def insert (memory : Memory) (assignment : Assignment) (items : List Records.Item) : Loading :=
  match assignment.openTable memory with
  | .error fault => ⟨assignment, .error fault, []⟩
  | .ok table =>
    let settings := assignment.settings
    match insertAll memory ⟨table, 0, []⟩ items with
    | (progress, .error fault) =>
      -- Entries that were there before the load go with it.
      ⟨{ settings }, .error fault,
        (.discarded progress.records fault :: progress.notices).reverse⟩
    | (progress, .ok ()) =>
      ⟨{ settings, table := some progress.table },
        .ok ⟨progress.records, progress.table.count, false⟩, progress.notices.reverse⟩

/-- Puts entries over those that the assignment has. -/
def loadEntries (memory : Memory) (assignment : Assignment) (entries : List Entry) : Loading :=
  assignment.insert memory (entries.map .ok)

/-- An assignment that is loaded already stays as it is. -/
def keep (assignment : Assignment) (path : Option String) : Loading :=
  ⟨assignment, .ok ⟨0, assignment.size, true⟩, [.alreadyLoaded path]⟩

/-- A load that reports its records when it is through. -/
def insertReporting (memory : Memory) (assignment : Assignment) (path : Option String)
    (items : List Records.Item) : Loading :=
  let loading := assignment.insert memory items
  match loading.result with
  | .error _ => loading
  | .ok summary =>
    { loading with notices := loading.notices ++ [.loaded summary.records path] }

/-- Loads the records of a source, unless the assignment is loaded already. -/
def load (memory : Memory) (assignment : Assignment) (source : Records.Source) : Loading :=
  if assignment.isPopulated then assignment.keep none
  else assignment.insertReporting memory none source.items

/-- Loads the data file at a path, where `opened` is what opening the file gives. -/
def loadFile (memory : Memory) (assignment : Assignment) (path : String)
    (opened : Except IoFailure Records.Source) : Loading :=
  if assignment.isPopulated then assignment.keep (some path)
  else
    match opened with
    | .error failure => ⟨assignment, .error (.io failure), []⟩
    | .ok source => assignment.insertReporting memory (some path) source.items

end Assignment

end KeyPartitions
