import KeyPartitions.Table

/-!
# Runs of operations

Everything a client can ask of a table, as data, with its answer. A run performs a list of
operations and collects the answers in order.
-/
namespace KeyPartitions

inductive Operation
  | put (entry : Entry)
  | extend (entries : List Entry)
  | remove (key : Key)
  | get (key : Key)
  | getOrNotFound (key : Key)
  | contains (key : Key)
  | clear
  deriving DecidableEq, Repr

inductive Answer
  | done
  | flag (value : Bool)
  | lookup (partition : Option Partition)
  | partition (value : Partition)
  deriving DecidableEq, Repr

namespace Table

variable {α : Type} [LoadScale α]

def perform (memory : Memory) (table : Table α) : Operation → Answer × Table α
  | .put entry => (.done, table.put memory entry)
  | .extend entries => (.done, table.extend memory entries)
  | .remove key => let (present, after) := table.remove key; (.flag present, after)
  | .get key => let (partition, after) := table.get key; (.lookup partition, after)
  | .getOrNotFound key => let (value, after) := table.getOrNotFound key; (.partition value, after)
  | .contains key => let (present, after) := table.contains key; (.flag present, after)
  | .clear => (.done, table.clear)

/-- The table after each operation, with the answer that came with it. -/
def trace (memory : Memory) (table : Table α) : List Operation → List (Answer × Table α)
  | [] => []
  | operation :: rest =>
    let step := table.perform memory operation
    step :: step.2.trace memory rest

/-- The table after a list of operations. -/
def run (memory : Memory) (table : Table α) (operations : List Operation) : Table α :=
  operations.foldl (fun table operation => (table.perform memory operation).2) table

theorem run_append (memory : Memory) (table : Table α) (first second : List Operation) :
    table.run memory (first ++ second) = (table.run memory first).run memory second :=
  List.foldl_append

end Table

end KeyPartitions
