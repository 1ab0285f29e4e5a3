import KeyPartitions.Decimal.Fixed
import KeyPartitions.Table

/-!
# Diagnostics

Counts and measures of a table: how its entries spread over the buckets, how often it grew or failed
to, and how often it was used. An average is over the buckets that hold an entry.
-/
namespace KeyPartitions

structure Diagnostics (α : Type) where
  entries : Nat
  capacity : Nat
  loadFactor : α
  emptyBuckets : Nat
  longestChain : Nat
  averageChain : α
  resizes : Nat
  failedResizes : Nat
  operations : Operations
  deriving BEq

namespace Table

variable {α : Type}

def chainLengths (table : Table α) : List Nat := table.buckets.toList.map List.length

def diagnostics [LoadScale α] (table : Table α) : Diagnostics α :=
  let emptyBuckets := table.chainLengths.count 0
  let used := table.capacity - emptyBuckets
  { entries := table.count
    capacity := table.capacity
    loadFactor := table.loadFactor
    emptyBuckets
    longestChain := table.chainLengths.foldl max 0
    averageChain :=
      if used = 0 then LoadScale.ofCount 0 else LoadScale.ratio table.count used
    resizes := table.resizes
    failedResizes := table.failedResizes
    operations := table.operations }

end Table

namespace Diagnostics

/-- How far the longest chain is from the average one; zero where the average is. -/
def chainSkew {α : Type} [LoadScale α] (diagnostics : Diagnostics α) : α :=
  if LoadScale.isZero diagnostics.averageChain then LoadScale.ofCount 0
  else LoadScale.quotient (LoadScale.ofCount diagnostics.longestChain) diagnostics.averageChain

def lines (diagnostics : Diagnostics Float) : List String :=
  [s!"entries:         {diagnostics.entries}",
    s!"capacity:        {diagnostics.capacity}",
    "load factor:     " ++ Decimal.fixed 3 diagnostics.loadFactor,
    s!"empty buckets:   {diagnostics.emptyBuckets}",
    s!"longest chain:   {diagnostics.longestChain}",
    "avg chain len:   " ++ Decimal.fixed 3 diagnostics.averageChain,
    s!"resizes:         {diagnostics.resizes}",
    s!"failed resizes:  {diagnostics.failedResizes}"]

def text (diagnostics : Diagnostics Float) : String := "\n".intercalate diagnostics.lines

end Diagnostics

end KeyPartitions
