import KeyPartitions.Proofs.Reachable
import KeyPartitions.Table.Cursor

/-!
# Starting afresh

A table counts its doublings, its refusals and its operations. The wording of notices apart, these
counts decide nothing but the numbers of its requests for memory. So a table that counts from some
numbers on does what the table that counts from zero does, if the requests of both have the same
outcomes. A cleared table is a new one that counts on.
-/
namespace KeyPartitions

/-- What a table counts along its life. -/
structure Counters where
  resizes : Nat
  failedResizes : Nat
  operations : Operations

/-- The number of doublings tried. -/
def Counters.attempts (counters : Counters) : Nat := counters.resizes + counters.failedResizes

/-- The answers of memory behind the first ones. -/
def Memory.after (memory : Memory) (attempts : Nat) : Memory :=
  { memory with growth := fun attempt => memory.growth (attempts + attempt) }

namespace Table

variable {α : Type}

def counters (table : Table α) : Counters :=
  ⟨table.resizes, table.failedResizes, table.operations⟩

/-- The table, had it begun to count from these numbers. -/
def countingFrom (table : Table α) (past : Counters) : Table α :=
  { table with
    resizes := past.resizes + table.resizes
    failedResizes := past.failedResizes + table.failedResizes
    operations :=
      { reads := past.operations.reads + table.operations.reads
        writes := past.operations.writes + table.operations.writes
        removes := past.operations.removes + table.operations.removes } }

/-- A cleared table is a new one, but that it has counted. -/
theorem clear_eq_countingFrom (table : Table α) :
    table.clear =
      (empty table.capacity table.loadLimit table.hash).countingFrom table.counters := rfl

/-! ### One step -/

section Step

variable (table : Table α) (past : Counters) (memory : Memory)

@[simp] theorem find?_countingFrom (key : Key) :
    (table.countingFrom past).find? key = table.find? key := rfl

@[simp] theorem attempts_countingFrom :
    (table.countingFrom past).attempts = past.attempts + table.attempts := by
  simp only [attempts, countingFrom, Counters.attempts]
  omega

@[simp] theorem refusal?_countingFrom :
    (table.countingFrom past).refusal? memory = table.refusal? (memory.after past.attempts) := by
  -- The number of the request is what memory is asked with, beside the buckets.
  rw [refusal?, attempts_countingFrom]
  rfl

theorem grow_countingFrom :
    (table.countingFrom past).grow memory =
      (table.grow (memory.after past.attempts)).countingFrom past := by
  cases answer : table.refusal? (memory.after past.attempts) with
  | none =>
    rw [grow_of_granted answer, grow_of_granted (by rw [refusal?_countingFrom, answer])]
    rfl
  | some refusal =>
    rw [grow_of_refused answer, grow_of_refused (by rw [refusal?_countingFrom, answer])]
    rfl

theorem get_countingFrom (key : Key) :
    (table.countingFrom past).get key =
      ((table.get key).1, (table.get key).2.countingFrom past) := by
  rcases table.get_cases key with ⟨missing, answer⟩ | ⟨partition, found, answer⟩
  · rw [answer, get, find?_countingFrom, missing]
  · rw [answer, get, find?_countingFrom, found]
    rfl

theorem remove_countingFrom (key : Key) :
    (table.countingFrom past).remove key =
      ((table.remove key).1, (table.remove key).2.countingFrom past) := by
  rcases table.remove_cases key with ⟨missing, answer⟩ | ⟨present, answer⟩
  · rw [answer, remove_of_absent (by rw [find?_countingFrom, missing])]
  · rw [answer, remove_of_present (by rw [find?_countingFrom, present])]
    rfl

variable [LoadScale α]

@[simp] theorem needsGrowth_countingFrom :
    (table.countingFrom past).needsGrowth = table.needsGrowth := rfl

theorem makeRoom_countingFrom :
    (table.countingFrom past).makeRoom memory =
      (table.makeRoom (memory.after past.attempts)).countingFrom past := by
  unfold makeRoom
  rw [needsGrowth_countingFrom]
  split
  next => exact grow_countingFrom table past memory
  next => rfl

theorem put_countingFrom (entry : Entry) :
    (table.countingFrom past).put memory entry =
      (table.put (memory.after past.attempts) entry).countingFrom past := by
  rcases put_cases (memory.after past.attempts) table entry with
    ⟨present, changed⟩ | ⟨absent, added⟩
  · rw [changed, put_of_present (by rw [find?_countingFrom, present])]
    rfl
  · rw [added, put_of_absent (by rw [find?_countingFrom, absent]), makeRoom_countingFrom]
    rfl

theorem extend_countingFrom (entries : List Entry) :
    (table.countingFrom past).extend memory entries =
      (table.extend (memory.after past.attempts) entries).countingFrom past := by
  induction entries generalizing table with
  | nil => rfl
  | cons entry rest ih =>
    rw [extend, List.foldl_cons, put_countingFrom]
    exact ih _

/-- An operation does not ask how much was counted before. -/
theorem perform_countingFrom (operation : Operation) :
    (table.countingFrom past).perform memory operation =
      ((table.perform (memory.after past.attempts) operation).1,
        (table.perform (memory.after past.attempts) operation).2.countingFrom past) := by
  cases operation with
  | put entry => exact congrArg _ (put_countingFrom table past memory entry)
  | extend entries => exact congrArg _ (extend_countingFrom table past memory entries)
  | remove key => simp only [perform, remove_countingFrom]
  | get key => simp only [perform, get_countingFrom]
  | getOrNotFound key => simp only [perform, getOrNotFound, get_countingFrom]
  | contains key => simp only [perform, contains, get_countingFrom]
  | clear => rfl

end Step

/-! ### Runs -/

variable [LoadScale α]

/-- What shows of a table that has counted before and of one that has not: the same, but for what is
counted. -/
structure CountsOn (memory : Memory) (past : Counters) (first second : Answer × Table α) :
    Prop where
  answer : first.1 = second.1
  size : first.2.count = second.2.count
  capacity : first.2.capacity = second.2.capacity
  /-- So every iteration goes the same way, however far. -/
  cursor : first.2.cursor = second.2.cursor
  /-- The next put of an absent key tries a doubling in both tables or in neither. -/
  needsGrowth : first.2.needsGrowth = second.2.needsGrowth
  /-- What is tried is granted to both or refused to both. -/
  refusal : first.2.refusal? memory = second.2.refusal? (memory.after past.attempts)
  attempts : first.2.attempts = past.attempts + second.2.attempts
  resizes : first.2.resizes = past.resizes + second.2.resizes
  failedResizes : first.2.failedResizes = past.failedResizes + second.2.failedResizes
  reads : first.2.operations.reads = past.operations.reads + second.2.operations.reads
  writes : first.2.operations.writes = past.operations.writes + second.2.operations.writes
  removes : first.2.operations.removes = past.operations.removes + second.2.operations.removes

theorem countsOn_countingFrom (memory : Memory) (past : Counters) (answer : Answer)
    (table : Table α) : CountsOn memory past (answer, table.countingFrom past) (answer, table) where
  answer := rfl
  size := rfl
  capacity := rfl
  cursor := rfl
  needsGrowth := rfl
  refusal := refusal?_countingFrom table past memory
  attempts := attempts_countingFrom table past
  resizes := rfl
  failedResizes := rfl
  reads := rfl
  writes := rfl
  removes := rfl

theorem trace_countingFrom (memory : Memory) (past : Counters) (table : Table α)
    (operations : List Operation) :
    List.Forall₂ (CountsOn memory past) ((table.countingFrom past).trace memory operations)
      (table.trace (memory.after past.attempts) operations) := by
  induction operations generalizing table with
  | nil => exact .nil
  | cons operation rest ih =>
    rw [trace, trace, perform_countingFrom]
    exact .cons (countsOn_countingFrom memory past _ _) (ih _)

/-- Whatever a table has gone through, once it is cleared no client can tell it from a new table of
its capacity, load limit and hash function whose requests for memory have the same outcomes, but by
what it counted before. -/
theorem clear_starts_afresh (memory : Memory) (table : Table α) {granting : Memory}
    {fresh : Table α} (made : Made granting fresh) (capacity : fresh.capacity = table.capacity)
    (loadLimit : fresh.loadLimit = table.loadLimit) (hash : fresh.hash = table.hash)
    (operations : List Operation) :
    List.Forall₂ (CountsOn memory table.counters)
      (table.trace memory (.clear :: operations))
      ((.done, fresh) :: fresh.trace (memory.after table.attempts) operations) := by
  have cleared : table.clear = fresh.countingFrom table.counters := by
    rw [clear_eq_countingFrom, ← capacity, ← loadLimit, ← hash, ← made.eq_empty.2]
  have first : table.trace memory (.clear :: operations) =
      (.done, table.clear) :: table.clear.trace memory operations := rfl
  rw [first, cleared]
  exact .cons (countsOn_countingFrom memory _ .done fresh)
    (trace_countingFrom memory table.counters fresh operations)

/-- A table that grew once and was refused once. Behind the clearing its first request is refused
and the next granted, as the first two of the new table. -/
theorem clear_starts_afresh_of_refused :
    let early : Memory := ⟨fun _ => true, fun attempt _ => attempt == 0⟩
    let later : Memory := ⟨fun _ => true, fun attempt _ => attempt != 2⟩
    let history : List Operation := [.extend [⟨1, 10⟩, ⟨2, 20⟩, ⟨3, 30⟩], .remove 2, .get 1]
    let table := (crowded 1).run early history
    let fresh : Table Rat := empty 2 1 fun _ => 5
    let operations : List Operation :=
      [.extend [⟨7, 70⟩, ⟨8, 80⟩, ⟨9, 90⟩], .remove 8, .extend [⟨8, 81⟩, ⟨6, 60⟩, ⟨5, 50⟩]]
    Made early fresh ∧ table.capacity = 2 ∧ table.retryAt = 4 ∧ table.attempts = 2 ∧
      List.Forall₂ (CountsOn later table.counters) (table.trace later (.clear :: operations))
        ((.done, fresh) :: fresh.trace (later.after table.attempts) operations) ∧
      (table.run later (.clear :: operations)).capacity = 4 ∧
      (table.run later (.clear :: operations)).attempts = 4 ∧
      (fresh.run (later.after table.attempts) operations).attempts = 2 := by
  intro early later history table fresh operations
  have made : Made early fresh := made_empty rfl two_pos one_pos _
  have capacity : fresh.capacity = table.capacity := by decide +kernel
  obtain ⟨hash, loadLimit⟩ : table.hash = fresh.hash ∧ table.loadLimit = fresh.loadLimit :=
    run_keeps_settings history
  have same := clear_starts_afresh later table made capacity loadLimit.symm hash.symm operations
  exact ⟨made, by decide +kernel, by decide +kernel, by decide +kernel, same, by decide +kernel,
    by decide +kernel, by decide +kernel⟩

end Table

end KeyPartitions
