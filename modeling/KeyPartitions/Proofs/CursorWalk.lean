import KeyPartitions.Proofs.Iteration
import KeyPartitions.Proofs.Reachable

/-!
# Walking a table with a cursor

A cursor trusts the count of its table for the number of entries to come. Where the two are the same
at the start they stay the same: a call either takes one entry and counts down, or finds that there
is none and leaves the number as it is. So over a reachable table the number is right after any
number of calls.
-/
namespace KeyPartitions

namespace Cursor

/-- The cursor after a number of calls. -/
def after (cursor : Cursor) : Nat → Cursor
  | 0 => cursor
  | calls + 1 => cursor.next.2.after calls

/-- The number of entries to come is the one that the cursor tells. -/
def Exact (cursor : Cursor) : Prop := cursor.remaining = cursor.rest.length

theorem advance_remaining (remaining : Nat) (chain : Chain) (unvisited : List Chain) :
    (advance remaining chain unvisited).2.remaining =
      remaining - min 1 (chain ++ unvisited.flatten).length := by
  -- An empty chain is passed without a count, so the search counts one entry or none.
  fun_induction advance remaining chain unvisited with
  | case1 entry chain unvisited => simp
  | case2 chain unvisited ih => simpa using ih
  | case3 => simp

theorem remaining_next (cursor : Cursor) :
    cursor.next.2.remaining = cursor.remaining - min 1 cursor.rest.length :=
  advance_remaining _ _ _

theorem Exact.next {cursor : Cursor} (exact : cursor.Exact) : cursor.next.2.Exact := by
  unfold Exact at exact ⊢
  rw [remaining_next, rest_next, List.length_tail]
  omega

theorem rest_after (cursor : Cursor) (calls : Nat) :
    (cursor.after calls).rest = cursor.rest.drop calls := by
  induction calls generalizing cursor with
  | zero => rfl
  | succ calls ih => rw [after, ih, rest_next, ← List.drop_one, List.drop_drop, Nat.add_comm]

theorem Exact.after {cursor : Cursor} (exact : cursor.Exact) (calls : Nat) :
    (cursor.after calls).Exact := by
  induction calls generalizing cursor with
  | zero => exact exact
  | succ calls ih => exact ih exact.next

end Cursor

namespace Table

variable {α : Type}

theorem entries_eq_flatMap (table : Table α) :
    table.entries = (List.range table.capacity).flatMap table.chainAt := by
  rw [entries, toList_buckets, List.flatMap_def]

theorem WellFormed.exact_cursor {table : Table α} (wf : table.WellFormed) : table.cursor.Exact :=
  wf.counted

/-- What the calls of a cursor over the table give, and the numbers that it tells between them. -/
structure Walks (table : Table α) : Prop where
  /-- Bucket after bucket, and each chain from its front. -/
  item : ∀ calls, (table.cursor.after calls).next.1 =
    ((List.range table.capacity).flatMap table.chainAt)[calls]?
  /-- So the calls up to the count give the entries, and the later ones nothing. -/
  length : ((List.range table.capacity).flatMap table.chainAt).length = table.count
  hint : ∀ calls ≤ table.count, (table.cursor.after calls).sizeHint =
    (table.count - calls, some (table.count - calls))
  ended : ∀ calls, table.count ≤ calls → (table.cursor.after calls).next.1 = none ∧
    (table.cursor.after calls).sizeHint = (0, some 0)
  /-- Where an entry is given there is one to count down. -/
  counted : ∀ calls entry, (table.cursor.after calls).next.1 = some entry →
    (table.cursor.after (calls + 1)).remaining + 1 = (table.cursor.after calls).remaining
  exhausted : ∀ calls, (table.cursor.after calls).remaining = 0 ↔
    (table.cursor.after calls).rest = []

theorem WellFormed.walks {table : Table α} (wf : table.WellFormed) : table.Walks := by
  -- After some calls their entries are gone from the list, and with them from the number.
  have left (calls : Nat) : (table.cursor.after calls).rest = table.entries.drop calls := by
    rw [Cursor.rest_after, rest_cursor]
  have remaining (calls : Nat) : (table.cursor.after calls).remaining = table.count - calls := by
    have exact := wf.exact_cursor.after calls
    rw [exact, left, List.length_drop, wf.counted]
  have item (calls : Nat) : (table.cursor.after calls).next.1 = table.entries[calls]? := by
    rw [Cursor.next_fst, left, List.head?_drop]
  constructor
  case item =>
    intro calls
    rw [item, entries_eq_flatMap]
  case length => rw [← entries_eq_flatMap, wf.counted]
  case hint =>
    intro calls _
    rw [Cursor.sizeHint, remaining]
  case ended =>
    intro calls behind
    have none : table.count - calls = 0 := Nat.sub_eq_zero_of_le behind
    rw [item, Cursor.sizeHint, remaining, none]
    exact ⟨List.getElem?_eq_none (wf.counted ▸ behind), rfl⟩
  case counted =>
    intro calls entry given
    obtain ⟨inside, -⟩ := List.getElem?_eq_some_iff.mp ((item calls).symm.trans given)
    rw [remaining, remaining, wf.counted]
    omega
  case exhausted =>
    intro calls
    rw [remaining, left, List.drop_eq_nil_iff, wf.counted, Nat.sub_eq_zero_iff_le]

variable [LoadScale α]

/-- Over every reachable table a cursor gives the entries in the order of the buckets and chains,
tells after each call how many are left, and gives nothing behind the last. -/
theorem cursor_walks_reachable (memory : Memory) {start : Table α} (made : Made memory start)
    (operations : List Operation) : (start.run memory operations).Walks :=
  (made.wellFormed.run memory operations).walks

/-- Two buckets after a doubling, the first of them empty. -/
theorem cursor_walks_reachable_of_crowded :
    let memory : Memory := ⟨fun _ => true, fun attempt _ => attempt == 0⟩
    let operations : List Operation := [.extend [⟨1, 10⟩, ⟨2, 20⟩, ⟨3, 30⟩], .remove 2]
    let table := (crowded 1).run memory operations
    Made memory (crowded 1) ∧ table.Walks ∧ table.chainAt 0 = [] ∧
      (table.cursor.after 0).next.1 = some ⟨3, 30⟩ ∧ (table.cursor.after 1).sizeHint = (1, some 1) ∧
      (table.cursor.after 2).next.1 = none := by
  intro memory operations table
  have made : Made memory (crowded 1) := made_crowded rfl one_pos
  exact ⟨made, cursor_walks_reachable memory made operations, by decide +kernel,
    by decide +kernel, by decide +kernel, by decide +kernel⟩

end Table

end KeyPartitions
