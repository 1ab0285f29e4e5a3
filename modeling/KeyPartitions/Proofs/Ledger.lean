import KeyPartitions.Proofs.MapRefinement

/-!
# Ledgers

A ledger is kept from the operations alone: it holds the entries as a map, and it counts what there
is to count of a run. Its puts are the entries it holds and those that are gone again, by removals,
by updates and by clearings. A table tallies with a ledger when it represents the map and has
counted what the ledger has. Every operation keeps both, so the counters of a table balance.
-/
namespace KeyPartitions

structure Ledger where
  contents : Contents := ∅
  /-- Lookups that found their key. -/
  hits : Nat := 0
  puts : Nat := 0
  /-- Puts of a present key. -/
  updates : Nat := 0
  /-- Removals that found their key. -/
  removals : Nat := 0
  /-- Entries that went with a clearing. -/
  discarded : Nat := 0

/-- How many single operations an operation stands for. -/
def Operation.weight : Operation → Nat
  | .extend entries => entries.length
  | _ => 1

namespace Ledger

def put (ledger : Ledger) (entry : Entry) : Ledger :=
  { ledger with
    contents := ledger.contents.put entry
    puts := ledger.puts + 1
    updates := if ledger.contents.contains entry.key then ledger.updates + 1 else ledger.updates }

def look (ledger : Ledger) (key : Key) : Ledger :=
  { ledger with hits := if ledger.contents.contains key then ledger.hits + 1 else ledger.hits }

def remove (ledger : Ledger) (key : Key) : Ledger :=
  { ledger with
    contents := ledger.contents.erase key
    removals := if ledger.contents.contains key then ledger.removals + 1 else ledger.removals }

def clear (ledger : Ledger) : Ledger :=
  { ledger with
    contents := ∅
    discarded := ledger.discarded + ledger.contents.size }

def record (ledger : Ledger) : Operation → Ledger
  | .put entry => ledger.put entry
  | .extend entries => entries.foldl put ledger
  | .remove key => ledger.remove key
  | .get key | .getOrNotFound key | .contains key => ledger.look key
  | .clear => ledger.clear

/-- The counts that a table shows. -/
def operations (ledger : Ledger) : Operations := ⟨ledger.hits, ledger.puts, ledger.removals⟩

def counted (ledger : Ledger) : Nat := ledger.hits + ledger.puts + ledger.removals

/-- What was put is there, or it went by a removal, an update or a clearing. -/
def Balanced (ledger : Ledger) : Prop :=
  ledger.puts = ledger.contents.size + ledger.removals + ledger.updates + ledger.discarded

theorem balanced_empty : Balanced {} := rfl

section Laws

variable {ledger : Ledger}

theorem Balanced.put (balanced : ledger.Balanced) (entry : Entry) :
    (ledger.put entry).Balanced := by
  unfold Balanced at balanced ⊢
  simp only [Ledger.put, Contents.put, Std.ExtTreeMap.size_insert]
  split <;> omega

theorem Balanced.extend (balanced : ledger.Balanced) (entries : List Entry) :
    (entries.foldl Ledger.put ledger).Balanced := by
  induction entries generalizing ledger with
  | nil => exact balanced
  | cons entry rest ih => exact ih (balanced.put entry)

theorem Balanced.remove (balanced : ledger.Balanced) (key : Key) :
    (ledger.remove key).Balanced := by
  unfold Balanced at balanced ⊢
  simp only [Ledger.remove, Std.ExtTreeMap.size_erase]
  split
  next present =>
    -- A map that has the key has a size to go down.
    have some : ledger.contents.size ≠ 0 := by
      rw [Std.ExtTreeMap.contains_iff_mem] at present
      rw [ne_eq, ← Std.ExtTreeMap.eq_empty_iff_size_eq_zero]
      exact Std.ExtTreeMap.ne_empty_of_mem present
    omega
  next => exact balanced

theorem Balanced.clear (balanced : ledger.Balanced) : ledger.clear.Balanced := by
  unfold Balanced at balanced ⊢
  simp only [Ledger.clear, Std.ExtTreeMap.size_empty]
  omega

theorem Balanced.record (balanced : ledger.Balanced) (operation : Operation) :
    (ledger.record operation).Balanced := by
  cases operation with
  | put entry => exact balanced.put entry
  | extend entries => exact balanced.extend entries
  | remove key => exact balanced.remove key
  | get | getOrNotFound | contains => exact balanced
  | clear => exact balanced.clear

theorem counted_extend (entries : List Entry) :
    (entries.foldl put ledger).counted = ledger.counted + entries.length := by
  induction entries generalizing ledger with
  | nil => rfl
  | cons entry rest ih =>
    rw [List.foldl_cons, ih, List.length_cons]
    simp only [counted, put]
    omega

/-- An operation counts at most as often as it is one. -/
theorem counted_record_le (operation : Operation) :
    (ledger.record operation).counted ≤ ledger.counted + operation.weight := by
  cases operation with
  | extend entries => exact Nat.le_of_eq (counted_extend entries)
  | put | clear => simp only [record, counted, put, clear, Operation.weight]; omega
  | get | getOrNotFound | contains =>
    simp only [record, counted, look, Operation.weight]
    split <;> omega
  | remove =>
    simp only [record, counted, remove, Operation.weight]
    split <;> omega

end Laws

end Ledger

namespace Table

variable {α : Type}

/-- A table that holds what a ledger holds and has counted what the ledger has. -/
structure Tallies (table : Table α) (ledger : Ledger) : Prop extends
    table.Represents ledger.contents where
  operations : table.operations = ledger.operations

theorem Made.tallies [LoadScale α] {memory : Memory} {table : Table α}
    (made : Made memory table) : table.Tallies {} where
  toRepresents := made.represents
  operations := by rw [made.eq_empty.2]; rfl

namespace Tallies

variable {table : Table α} {ledger : Ledger} (tallies : table.Tallies ledger)

include tallies

/-- The ledger knows which keys are found. -/
theorem isSome_find? (key : Key) : (table.find? key).isSome = ledger.contents.contains key := by
  rw [tallies.find, Std.ExtTreeMap.contains_eq_isSome_getElem?]

theorem get (key : Key) : (table.get key).2.Tallies (ledger.look key) where
  toRepresents := (tallies.toRepresents.get key).2
  operations := by
    -- The table and the ledger ask alike whether the key is there, and count alike.
    rw [operations_get, tallies.isSome_find?, tallies.operations, Ledger.look]
    split <;> rfl

theorem remove (key : Key) : (table.remove key).2.Tallies (ledger.remove key) where
  toRepresents := (tallies.toRepresents.remove key).2
  operations := by
    rw [operations_remove, tallies.isSome_find?, tallies.operations, Ledger.remove]
    split <;> rfl

theorem clear : table.clear.Tallies ledger.clear where
  toRepresents := tallies.toRepresents.clear
  operations := tallies.operations

variable [LoadScale α] (memory : Memory)

theorem put (entry : Entry) : (table.put memory entry).Tallies (ledger.put entry) where
  toRepresents := tallies.toRepresents.put memory entry
  operations := by
    rw [operations_put, tallies.operations]
    rfl

theorem extend (entries : List Entry) :
    (table.extend memory entries).Tallies (entries.foldl Ledger.put ledger) := by
  -- Whether a put is an update depends on the puts before it, so both sides go on from there.
  induction entries generalizing table ledger with
  | nil => exact tallies
  | cons entry rest ih => exact ih (tallies.put memory entry)

theorem perform (operation : Operation) :
    (table.perform memory operation).2.Tallies (ledger.record operation) := by
  cases operation with
  | put entry => exact tallies.put memory entry
  | extend entries => exact tallies.extend memory entries
  | remove key => exact tallies.remove key
  | get key => exact tallies.get key
  | getOrNotFound key => exact tallies.get key
  | contains key => exact tallies.get key
  | clear => exact tallies.clear

end Tallies

end Table

end KeyPartitions
