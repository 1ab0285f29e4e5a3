import KeyPartitions.Assignment
import KeyPartitions.Decimal.Shortest
import KeyPartitions.Table.Frozen
import KeyPartitions.Text.Outline

/-!
# Outlines of settings, tables and assignments

A table is shown as the map of its entries in their order, a frozen one by its size alone.
-/
namespace KeyPartitions

open Text (Outline)

def Settings.outline (settings : Settings Float) : Outline :=
  .record "Config"
    [("initial_capacity", .word (toString settings.capacity)),
      ("max_load_factor", .word (Decimal.shortest settings.loadLimit)),
      ("hash_function", .word settings.hashFunction.name)]

def Table.outline {α : Type} (table : Table α) : Outline :=
  .map (table.entries.map fun entry => (toString entry.key, .word (toString entry.partition)))

def Frozen.outline {α : Type} (frozen : Frozen α) : Outline :=
  .record "FrozenTable"
    [("size", .word (toString frozen.table.count)),
      ("capacity", .word (toString frozen.table.capacity))]

def Assignment.outline (assignment : Assignment) : Outline :=
  .record "PartitionMap"
    [("config", assignment.settings.outline),
      ("table",
        match assignment.table with
        | none => .word "None"
        | some table => .around "Some" table.outline)]

end KeyPartitions
