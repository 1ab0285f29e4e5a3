import KeyPartitions.Chain
import KeyPartitions.Memory
import KeyPartitions.Settings

/-!
# Tables

A table spreads its entries over buckets by the hash of the key. A put of a present key overwrites
it in place. A put of an absent key first doubles the buckets if the load factor would exceed its
limit, and then goes to the front of its chain. Where the doubling is refused the table keeps its
buckets, takes the entry all the same, and tries again only when the number of entries has doubled.

Operations are counted as in a build with metrics; without them every count stays zero. There the
counts are 64-bit words, here they are natural numbers. The two are the same as long as there have
been fewer than 2 ^ 64 operations, and where a statement needs that it says so.
-/
namespace KeyPartitions

/-- Counts of the lookups and removals that found their key, and of all puts. -/
structure Operations where
  reads : Nat := 0
  writes : Nat := 0
  removes : Nat := 0
  deriving DecidableEq, Repr

/-- The sum of the counts as a 64-bit number. -/
def Operations.total (operations : Operations) : Nat :=
  (operations.reads + operations.writes + operations.removes) % UInt64.size

structure Table (α : Type) where
  buckets : Array Chain
  count : Nat
  loadLimit : α
  hash : Key → UInt64
  resizes : Nat
  failedResizes : Nat
  retryAt : Nat
  operations : Operations

/-- Why a doubling was refused. -/
inductive Refusal
  | noMemory (buckets : Nat)
  | tooManyBuckets
  deriving DecidableEq, Repr

namespace Table

variable {α : Type}

/-- A table without entries. -/
def empty (capacity : Nat) (loadLimit : α) (hash : Key → UInt64) : Table α where
  buckets := Array.replicate capacity []
  count := 0
  loadLimit
  hash
  resizes := 0
  failedResizes := 0
  retryAt := 0
  operations := {}

def capacity (table : Table α) : Nat := table.buckets.size

/-- The bucket a key belongs to at the current capacity. -/
def index (table : Table α) (key : Key) : Nat := bucketIndex (table.hash key) table.capacity

def chainAt (table : Table α) (bucket : Nat) : Chain := table.buckets.getD bucket []

/-- All entries, bucket after bucket, and each chain from its front. -/
def entries (table : Table α) : List Entry := table.buckets.toList.flatten

/-- Looks a key up without counting the lookup. -/
def find? (table : Table α) (key : Key) : Option Partition :=
  (table.chainAt (table.index key)).lookup key

def countRead (table : Table α) : Table α :=
  { table with operations.reads := table.operations.reads + 1 }

/-- Looks a key up. A lookup that finds its key is counted. -/
def get (table : Table α) (key : Key) : Option Partition × Table α :=
  match table.find? key with
  | none => (none, table)
  | some partition => (some partition, table.countRead)

def getOrNotFound (table : Table α) (key : Key) : Partition × Table α :=
  ((table.get key).1.getD notFound, (table.get key).2)

def contains (table : Table α) (key : Key) : Bool × Table α :=
  ((table.get key).1.isSome, (table.get key).2)

/-- Number of doublings tried so far. -/
def attempts (table : Table α) : Nat := table.resizes + table.failedResizes

/-- Why memory refuses to double the buckets now. Capacities are 64-bit numbers. -/
def refusal? (memory : Memory) (table : Table α) : Option Refusal :=
  let doubled := 2 * table.capacity
  if UInt64.size ≤ doubled then some .tooManyBuckets
  else if memory.growth table.attempts doubled then none
  else some (.noMemory doubled)

/-- Puts an entry at the front of its chain. -/
def place (hash : Key → UInt64) (buckets : Array Chain) (entry : Entry) : Array Chain :=
  buckets.modify (bucketIndex (hash entry.key) buckets.size) (entry :: ·)

/-- Places the entries of the old buckets, in their order, into `capacity` empty ones. -/
def relink (hash : Key → UInt64) (old : Array Chain) (capacity : Nat) : Array Chain :=
  old.foldl (fun buckets chain => chain.foldl (place hash) buckets) (Array.replicate capacity [])

/-- Tries to double the buckets. -/
def grow (memory : Memory) (table : Table α) : Table α :=
  match table.refusal? memory with
  | none =>
    let doubled := 2 * table.capacity
    { table with
      buckets := relink table.hash table.buckets doubled
      resizes := table.resizes + 1
      retryAt := 0 }
  | some _ =>
    { table with
      failedResizes := table.failedResizes + 1
      retryAt := max (2 * table.count) (table.count + 1) }

section Put

variable [LoadScale α]

/-- Whether one more entry asks for more buckets. -/
def needsGrowth (table : Table α) : Bool :=
  table.retryAt ≤ table.count &&
    LoadScale.exceeded table.loadLimit (table.count + 1) table.capacity

def makeRoom (memory : Memory) (table : Table α) : Table α :=
  if table.needsGrowth then table.grow memory else table

def overwrite (table : Table α) (entry : Entry) : Table α :=
  let bucket := table.index entry.key
  { table with
    buckets := table.buckets.modify bucket (Chain.overwrite entry)
    operations.writes := table.operations.writes + 1 }

def prepend (table : Table α) (entry : Entry) : Table α :=
  { table with
    buckets := place table.hash table.buckets entry
    count := table.count + 1
    operations.writes := table.operations.writes + 1 }

def put (memory : Memory) (table : Table α) (entry : Entry) : Table α :=
  if (table.find? entry.key).isSome then table.overwrite entry
  else
    -- The bucket of the entry depends on whether the buckets were doubled.
    (table.makeRoom memory).prepend entry

/-- Puts the entries one after another. -/
def extend (memory : Memory) (table : Table α) (entries : List Entry) : Table α :=
  entries.foldl (put memory) table

end Put

/-- Removes a key. The answer is whether it was present. -/
def remove (table : Table α) (key : Key) : Bool × Table α :=
  if (table.find? key).isSome then
    let bucket := table.index key
    (true,
      { table with
        buckets := table.buckets.modify bucket (Chain.remove key)
        count := table.count - 1
        operations.removes := table.operations.removes + 1 })
  else (false, table)

/-- Drops all entries. Buckets and counts of operations stay. -/
def clear (table : Table α) : Table α :=
  { table with
    buckets := Array.replicate table.capacity []
    count := 0
    retryAt := 0 }

def isEmpty (table : Table α) : Bool := table.count == 0

section Measure

variable [LoadScale α]

def loadFactor (table : Table α) : α := LoadScale.ratio table.count table.capacity

def ofSettings (memory : Memory) (settings : Settings α) : Except Fault (Table α) := do
  settings.check
  if memory.initial settings.capacity then
    return empty settings.capacity settings.loadLimit settings.hashFunction.hash
  else throw (.allocation settings.capacity)

def withCapacity (memory : Memory) (capacity : Nat) : Except Fault (Table α) := do
  ofSettings memory (← Settings.standard.withCapacity capacity)

/-- The table of the standard settings, for which there is always memory. -/
def standard : Table α :=
  let settings : Settings α := Settings.standard
  empty settings.capacity settings.loadLimit settings.hashFunction.hash

def ofEntries (memory : Memory) (entries : List Entry) : Table α :=
  standard.extend memory entries

end Measure

end Table

end KeyPartitions
