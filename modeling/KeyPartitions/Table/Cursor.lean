import KeyPartitions.Table

/-!
# Cursors

A cursor walks a table bucket by bucket and each chain from its front. It takes the number of
entries from the table and counts down as it goes. A snapshot is a copy of the entries on its own.
-/
namespace KeyPartitions

structure Cursor where
  chain : Chain
  unvisited : List Chain
  remaining : Nat

namespace Cursor

/-- The next entry from a chain, else from the first of the unvisited ones that has one. -/
def advance (remaining : Nat) : Chain → List Chain → Option Entry × Cursor
  | entry :: chain, unvisited => (some entry, ⟨chain, unvisited, remaining - 1⟩)
  | [], chain :: unvisited => advance remaining chain unvisited
  | [], [] => (none, ⟨[], [], remaining⟩)

/-- The next entry and the cursor behind it. -/
def next (cursor : Cursor) : Option Entry × Cursor :=
  advance cursor.remaining cursor.chain cursor.unvisited

/-- Lower and upper bound of the number of entries to come. -/
def sizeHint (cursor : Cursor) : Nat × Option Nat := (cursor.remaining, some cursor.remaining)

/-- The entries to come. -/
def rest (cursor : Cursor) : List Entry := cursor.chain ++ cursor.unvisited.flatten

theorem advance_eq (remaining : Nat) (chain : Chain) (unvisited : List Chain) :
    (advance remaining chain unvisited).1 = (chain ++ unvisited.flatten).head? ∧
      (advance remaining chain unvisited).2.rest = (chain ++ unvisited.flatten).tail := by
  fun_induction advance remaining chain unvisited with
  | case1 => simp [rest]
  | case2 chain unvisited ih => simpa using ih
  | case3 => simp [rest]

/-- Up to `limit` entries, and the cursor behind them. -/
def take (cursor : Cursor) : (limit : Nat) → List Entry × Cursor
  | 0 => ([], cursor)
  | limit + 1 =>
    match cursor.next with
    | (none, after) => ([], after)
    | (some entry, after) =>
      let (entries, last) := after.take limit
      (entry :: entries, last)

end Cursor

def Table.cursor {α : Type} (table : Table α) : Cursor := ⟨[], table.buckets.toList, table.count⟩

structure Snapshot where
  entries : List Entry

def Table.snapshot {α : Type} (table : Table α) : Snapshot := ⟨table.entries⟩

namespace Snapshot

def next : Snapshot → Option Entry × Snapshot
  | ⟨[]⟩ => (none, ⟨[]⟩)
  | ⟨entry :: rest⟩ => (some entry, ⟨rest⟩)

def remaining (snapshot : Snapshot) : Nat := snapshot.entries.length

def sizeHint (snapshot : Snapshot) : Nat × Option Nat :=
  (snapshot.remaining, some snapshot.remaining)

/-- Up to `limit` entries, and the snapshot behind them. -/
def take (snapshot : Snapshot) : (limit : Nat) → List Entry × Snapshot
  | 0 => ([], snapshot)
  | limit + 1 =>
    match snapshot.next with
    | (none, after) => ([], after)
    | (some entry, after) =>
      let (entries, last) := after.take limit
      (entry :: entries, last)

end Snapshot

end KeyPartitions
