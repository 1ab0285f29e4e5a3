import KeyPartitions.Table

/-!
# Frozen tables

A frozen table takes no writes and is reached through handles, which can be cloned and dropped.
Lookups through any of them count on the one table. The owners are counted, one for each handle, and
a handle gives the table back to be written again when the count is down to one.
-/
namespace KeyPartitions

abbrev Handle := Nat

structure Frozen (α : Type) where
  table : Table α
  /-- The count that decides whether the table is given back. -/
  owners : Nat
  live : List Handle
  /-- The handle that the next clone gets. -/
  fresh : Handle

/-- Freezing gives the first handle, zero. -/
def Table.freeze {α : Type} (table : Table α) : Frozen α := ⟨table, 1, [0], 1⟩

namespace Frozen

variable {α : Type}

/-- A further handle. -/
def clone (frozen : Frozen α) : Handle × Frozen α :=
  (frozen.fresh,
    { frozen with
      owners := frozen.owners + 1
      live := frozen.fresh :: frozen.live
      fresh := frozen.fresh + 1 })

def drop (frozen : Frozen α) (handle : Handle) : Frozen α :=
  { frozen with owners := frozen.owners - 1, live := frozen.live.erase handle }

/-- Lookups go to the one table. -/
def get (frozen : Frozen α) (key : Key) : Option Partition × Frozen α :=
  let (found, table) := frozen.table.get key
  (found, { frozen with table })

def getOrNotFound (frozen : Frozen α) (key : Key) : Partition × Frozen α :=
  let (partition, table) := frozen.table.getOrNotFound key
  (partition, { frozen with table })

def contains (frozen : Frozen α) (key : Key) : Bool × Frozen α :=
  let (present, table) := frozen.table.contains key
  (present, { frozen with table })

/-- The table, if it has one owner. It does not matter whose handle asks. -/
def thaw? (frozen : Frozen α) : Option (Table α) :=
  if frozen.owners = 1 then some frozen.table else none

end Frozen

end KeyPartitions
