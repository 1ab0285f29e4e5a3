import KeyPartitions.Decimal.Fixed
import KeyPartitions.Table

/-!
# Notices

What a table and an assignment report about their work, with the weight of each report. The first
refused doubling of a table is a warning; later ones are details.
-/
namespace KeyPartitions

inductive Level
  | error
  | warning
  | information
  | detail
  deriving DecidableEq, Repr

def Level.name : Level → String
  | .error => "ERROR"
  | .warning => "WARN"
  | .information => "INFO"
  | .detail => "DEBUG"

inductive Notice
  | resized (before after entries : Nat)
  | firstRefusal (refusal : Refusal) (entries buckets : Nat)
  | laterRefusal (refusal : Refusal) (failures retryAt : Nat)
  | loaded (records : Nat) (path : Option String)
  | discarded (records : Nat) (fault : Fault)
  | alreadyLoaded (path : Option String)
  | written (records : Nat) (path : String)
  deriving DecidableEq, Repr

def Refusal.message : Refusal → String
  | .noMemory buckets => (Fault.allocation buckets).message
  | .tooManyBuckets => "capacity cannot be doubled"

namespace Notice

def level : Notice → Level
  | .resized .. | .laterRefusal .. => .detail
  | .loaded .. | .written .. => .information
  | .firstRefusal .. | .discarded .. | .alreadyLoaded .. => .warning

/-- A path in quotes behind a preposition, if there is one. -/
def behind (words : String) : Option String → String
  | none => ""
  | some path => words ++ Text.quoted path

def text : Notice → String
  | .resized before after entries =>
    s!"resized from {before} to {after} buckets ({entries} entries)"
  | .firstRefusal refusal entries buckets =>
    s!"resize failed: {refusal.message}, keeping {buckets} buckets (load factor " ++
      Decimal.fixed 2 (LoadScale.ratio entries buckets) ++ ")"
  | .laterRefusal refusal failures retryAt =>
    s!"resize failed: {refusal.message}, {failures} failed resizes so far, " ++
      s!"next attempt at {retryAt} entries"
  | .loaded records path => s!"loaded {records} key-partition pairs" ++ behind " from " path
  | .discarded records fault =>
    s!"partition map load failed after {records} records, discarding: {fault.message}"
  | .alreadyLoaded path =>
    "partition map already initialized, not loading" ++ behind " " path
  | .written records path => s!"wrote {records} records to {path}"

def line (notice : Notice) : String := notice.level.name ++ " " ++ notice.text

end Notice

namespace Table

variable {α : Type} [LoadScale α]

/-- What the next doubling reports. -/
def growthNotice (memory : Memory) (table : Table α) : Notice :=
  match table.refusal? memory with
  | none => .resized table.capacity (2 * table.capacity) table.count
  | some refusal =>
    let after := table.grow memory
    if after.failedResizes = 1 then .firstRefusal refusal table.count table.capacity
    else .laterRefusal refusal after.failedResizes after.retryAt

/-- What putting a key reports; nothing unless it asks for more buckets. -/
def putNotice? (memory : Memory) (table : Table α) (key : Key) : Option Notice :=
  if table.needsGrowth && (table.find? key).isNone then some (table.growthNotice memory) else none

/-- A put that keeps its report, the latest first. -/
def putNoting (memory : Memory) : Table α × List Notice → Entry → Table α × List Notice
  | (table, notices), entry =>
    match table.putNotice? memory entry.key with
    | none => (table.put memory entry, notices)
    | some notice => (table.put memory entry, notice :: notices)

theorem putNoting_fst (memory : Memory) (state : Table α × List Notice) (entry : Entry) :
    (putNoting memory state entry).1 = state.1.put memory entry := by
  cases state
  simp only [putNoting]
  split <;> rfl

/-- The reports of putting entries one after another. -/
def extendNotices (memory : Memory) (table : Table α) (entries : List Entry) : List Notice :=
  (entries.foldl (putNoting memory) (table, [])).2.reverse

end Table

end KeyPartitions
