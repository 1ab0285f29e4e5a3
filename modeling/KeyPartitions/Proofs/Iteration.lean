import KeyPartitions.Proofs.WellFormed
import KeyPartitions.Table.Cursor

/-!
# Iteration

A cursor gives the entries to come in order. Over a well-formed table these are all of its entries,
and the count of the table is a limit that reaches them all.
-/
namespace KeyPartitions

namespace Cursor

theorem next_fst (cursor : Cursor) : cursor.next.1 = cursor.rest.head? :=
  (advance_eq _ _ _).1

theorem rest_next (cursor : Cursor) : cursor.next.2.rest = cursor.rest.tail :=
  (advance_eq _ _ _).2

theorem take_fst (cursor : Cursor) (limit : Nat) :
    (cursor.take limit).1 = cursor.rest.take limit := by
  induction limit generalizing cursor with
  | zero => rfl
  | succ limit ih =>
    have first := cursor.next_fst
    have later := cursor.rest_next
    unfold take
    -- The cursor gives an entry just if one is to come.
    cases entries : cursor.rest with
    | nil =>
      rw [entries] at first
      split
      next found => rfl
      next found => rw [found] at first; cases first
    | cons entry rest =>
      rw [entries] at first later
      split
      next found => rw [found] at first; cases first
      next found =>
        rw [found] at first later
        cases first
        simp [ih, later]

end Cursor

theorem Table.rest_cursor {α : Type} (table : Table α) : table.cursor.rest = table.entries := rfl

/-- Iterating a table gives its entries. -/
theorem Table.WellFormed.take_cursor {α : Type} {table : Table α} (wf : table.WellFormed)
    {limit : Nat} (enough : table.count ≤ limit) :
    (table.cursor.take limit).1 = table.entries := by
  rw [Cursor.take_fst, Table.rest_cursor, List.take_of_length_le]
  rwa [← wf.counted]

end KeyPartitions
