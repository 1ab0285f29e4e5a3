/-!
# Memory

Which requests for an array of buckets are granted. The array of a new table is asked for once.
Requests of a growing table are numbered, from zero, by the doublings that it tried before, so that
one value describes every pattern of granted and refused growth.
-/
namespace KeyPartitions

structure Memory where
  initial : (buckets : Nat) → Bool
  growth : (attempt buckets : Nat) → Bool

namespace Memory

/-- An array of this many buckets does not fit into the address space. -/
def addressable : Nat := 1 <<< 44

/-- Grants every array that fits into the address space and, where there is a limit, has at most
that many buckets. -/
def bounded (limit : Option Nat) : Memory :=
  let grants (buckets : Nat) := decide (buckets < addressable) && limit.all (buckets ≤ ·)
  { initial := grants, growth := fun _ => grants }

def unbounded : Memory := bounded none

end Memory

end KeyPartitions
