import KeyPartitions.Proofs.Steps
import KeyPartitions.Table.Operation

/-!
# What runs preserve

An operation puts, unlinks, counts a lookup or clears, or it leaves the table as it is. An extension
is a list of puts. So a property of tables that these four changes preserve holds all along a run.
-/
namespace KeyPartitions.Table

variable {α : Type} [LoadScale α] {memory : Memory}

theorem run_cons (table : Table α) (operation : Operation) (rest : List Operation) :
    table.run memory (operation :: rest) = (table.perform memory operation).2.run memory rest :=
  rfl

/-- An extension is the run of its puts. -/
theorem extend_eq_run (table : Table α) (entries : List Entry) :
    table.extend memory entries = table.run memory (entries.map Operation.put) := by
  rw [run, List.foldl_map]
  rfl

section Preserved

variable {motive : Table α → Prop}
  (put : ∀ table entry, motive table → motive (table.put memory entry))
  (unlink : ∀ table key, (table.find? key).isSome → motive table → motive (table.unlinked key))
  (read : ∀ table, motive table → motive table.countRead)
  (clear : ∀ table, motive table → motive table.clear)

include put in
theorem extend_preserves {table : Table α} (holds : motive table) (entries : List Entry) :
    motive (table.extend memory entries) := by
  induction entries generalizing table with
  | nil => exact holds
  | cons entry rest ih => exact ih (put table entry holds)

include read in
omit [LoadScale α] in
theorem get_preserves {table : Table α} (holds : motive table) (key : Key) :
    motive (table.get key).2 := by
  rcases table.get_snd_cases key with same | counted
  · rw [same]; exact holds
  · rw [counted]; exact read table holds

include unlink in
omit [LoadScale α] in
theorem remove_preserves {table : Table α} (holds : motive table) (key : Key) :
    motive (table.remove key).2 := by
  rcases table.remove_cases key with ⟨-, same⟩ | ⟨present, unlinked⟩
  · rw [same]; exact holds
  · rw [unlinked]; exact unlink table key present holds

include put unlink read clear

theorem perform_preserves {table : Table α} (holds : motive table) (operation : Operation) :
    motive (table.perform memory operation).2 := by
  cases operation with
  | put entry => exact put table entry holds
  | extend entries => exact extend_preserves put holds entries
  | remove key => exact remove_preserves unlink holds key
  | get key => exact get_preserves read holds key
  | getOrNotFound key => exact get_preserves read holds key
  | contains key => exact get_preserves read holds key
  | clear => exact clear table holds

theorem run_preserves {table : Table α} (holds : motive table) (operations : List Operation) :
    motive (table.run memory operations) := by
  -- What is known of the table reached so far goes through the operations still to come.
  induction operations generalizing table with
  | nil => exact holds
  | cons operation rest ih =>
    rw [run_cons]
    exact ih (perform_preserves put unlink read clear holds operation)

end Preserved

end KeyPartitions.Table
