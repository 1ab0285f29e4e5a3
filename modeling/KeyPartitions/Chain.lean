import KeyPartitions.Basic

/-!
# Chains

The entries of one bucket, the newest first. Each operation stops at the first entry of its key.
-/
namespace KeyPartitions

abbrev Chain := List Entry

namespace Chain

def lookup (key : Key) : Chain → Option Partition
  | [] => none
  | entry :: rest => if entry.key = key then some entry.partition else lookup key rest

/-- Gives the first entry of the key a new partition. -/
def overwrite (new : Entry) : Chain → Chain
  | [] => []
  | entry :: rest => if entry.key = new.key then new :: rest else entry :: overwrite new rest

/-- Drops the first entry of the key. -/
def remove (key : Key) : Chain → Chain
  | [] => []
  | entry :: rest => if entry.key = key then rest else entry :: remove key rest

@[simp] theorem lookup_nil (key : Key) : lookup key [] = none := rfl

end Chain

end KeyPartitions
