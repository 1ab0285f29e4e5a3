import KeyPartitions.Notice
import KeyPartitions.Proofs.Iteration
import KeyPartitions.Proofs.Reachable

/-!
# Independence of the hash function

The figures of a table are what it holds besides its hash function and its chains. Each change acts
on them by a rule that looks at nothing else, once it is known whether the key is present. Two
tables are alike when their figures are equal and their entries are the same up to order. Then they
have the same keys and decide alike, so they stay alike through every operation.
-/
namespace KeyPartitions.Table

variable {α : Type}

structure Figures (α : Type) where
  count : Nat
  capacity : Nat
  loadLimit : α
  resizes : Nat
  failedResizes : Nat
  retryAt : Nat
  operations : Operations

def figures (table : Table α) : Figures α :=
  ⟨table.count, table.capacity, table.loadLimit, table.resizes, table.failedResizes,
    table.retryAt, table.operations⟩

section Rules

variable (table : Table α)

theorem figures_overwrite (entry : Entry) :
    (table.overwrite entry).figures =
      { table.figures with operations.writes := table.figures.operations.writes + 1 } := by
  rw [figures, capacity_overwrite]
  rfl

theorem figures_prepend (entry : Entry) :
    (table.prepend entry).figures =
      { table.figures with
        count := table.figures.count + 1
        operations.writes := table.figures.operations.writes + 1 } := by
  rw [figures, capacity_prepend]
  rfl

theorem figures_doubled :
    table.doubled.figures =
      { table.figures with
        capacity := 2 * table.figures.capacity
        resizes := table.figures.resizes + 1
        retryAt := 0 } := by
  rw [figures, capacity_doubled]
  rfl

theorem figures_refused :
    table.refused.figures =
      { table.figures with
        failedResizes := table.figures.failedResizes + 1
        retryAt := max (2 * table.figures.count) (table.figures.count + 1) } := rfl

theorem figures_unlinked (key : Key) :
    (table.unlinked key).figures =
      { table.figures with
        count := table.figures.count - 1
        operations.removes := table.figures.operations.removes + 1 } := by
  rw [figures, capacity_unlinked]
  rfl

theorem figures_clear :
    table.clear.figures = { table.figures with count := 0, retryAt := 0 } := by
  rw [figures, capacity_clear]
  rfl

theorem figures_countRead :
    table.countRead.figures =
      { table.figures with operations.reads := table.figures.operations.reads + 1 } := rfl

end Rules

structure Alike (first second : Table α) : Prop where
  left : first.WellFormed
  right : second.WellFormed
  entries : first.entries.Perm second.entries
  figures : first.figures = second.figures

namespace Alike

variable {first second : Table α} (alike : first.Alike second)

include alike

theorem count : first.count = second.count := congrArg Figures.count alike.figures

theorem capacity : first.capacity = second.capacity := congrArg Figures.capacity alike.figures

theorem loadLimit : first.loadLimit = second.loadLimit :=
  congrArg Figures.loadLimit alike.figures

theorem resizes : first.resizes = second.resizes := congrArg Figures.resizes alike.figures

theorem failedResizes : first.failedResizes = second.failedResizes :=
  congrArg Figures.failedResizes alike.figures

theorem retryAt : first.retryAt = second.retryAt := congrArg Figures.retryAt alike.figures

theorem operations : first.operations = second.operations :=
  congrArg Figures.operations alike.figures

theorem find?_eq (key : Key) : first.find? key = second.find? key := by
  apply Option.ext
  intro partition
  rw [alike.left.find?_eq_some_iff, alike.right.find?_eq_some_iff, alike.entries.mem_iff]

theorem attempts : first.attempts = second.attempts := by
  rw [Table.attempts, Table.attempts, alike.resizes, alike.failedResizes]

theorem refusal?_eq (memory : Memory) : first.refusal? memory = second.refusal? memory := by
  simp only [refusal?, alike.capacity, alike.attempts]

theorem doubled : first.doubled.Alike second.doubled where
  left := alike.left.doubled
  right := alike.right.doubled
  entries := ((entries_doubled alike.left.nonempty).trans alike.entries).trans
    (entries_doubled alike.right.nonempty).symm
  figures := by rw [figures_doubled, figures_doubled, alike.figures]

theorem refused : first.refused.Alike second.refused where
  left := alike.left.refused
  right := alike.right.refused
  entries := alike.entries
  figures := by rw [figures_refused, figures_refused, alike.figures]

theorem grow (memory : Memory) : (first.grow memory).Alike (second.grow memory) := by
  -- Memory is asked with the number of attempts and of buckets, and both agree.
  have same := alike.refusal?_eq memory
  cases answer : second.refusal? memory with
  | none =>
    rw [grow_of_granted (same.trans answer), grow_of_granted answer]
    exact alike.doubled
  | some refusal =>
    rw [grow_of_refused (same.trans answer), grow_of_refused answer]
    exact alike.refused

theorem countRead : first.countRead.Alike second.countRead where
  left := alike.left.countRead
  right := alike.right.countRead
  entries := alike.entries
  figures := by rw [figures_countRead, figures_countRead, alike.figures]

theorem get (key : Key) :
    (first.get key).1 = (second.get key).1 ∧ (first.get key).2.Alike (second.get key).2 := by
  unfold Table.get
  rw [alike.find?_eq key]
  split
  · exact ⟨rfl, alike⟩
  · exact ⟨rfl, alike.countRead⟩

theorem unlinked {key : Key} (present : (first.find? key).isSome) :
    (first.unlinked key).Alike (second.unlinked key) where
  left := alike.left.unlinked present
  right := alike.right.unlinked (alike.find?_eq key ▸ present)
  entries := by
    rw [alike.left.entries_unlinked, alike.right.entries_unlinked]
    exact alike.entries.filter _
  figures := by rw [figures_unlinked, figures_unlinked, alike.figures]

theorem remove (key : Key) :
    (first.remove key).1 = (second.remove key).1 ∧
      (first.remove key).2.Alike (second.remove key).2 := by
  have same := alike.find?_eq key
  rcases first.remove_cases key with ⟨missing, left⟩ | ⟨present, left⟩
  · have right : second.remove key = (false, second) := remove_of_absent (same.symm.trans missing)
    rw [left, right]
    exact ⟨rfl, alike⟩
  · have right : second.remove key = (true, second.unlinked key) :=
      remove_of_present (same ▸ present)
    rw [left, right]
    exact ⟨rfl, alike.unlinked present⟩

theorem clear : first.clear.Alike second.clear where
  left := alike.left.clear
  right := alike.right.clear
  entries := by rw [entries_clear, entries_clear]
  figures := by rw [figures_clear, figures_clear, alike.figures]

variable [LoadScale α]

theorem needsGrowth_eq : first.needsGrowth = second.needsGrowth := by
  simp only [needsGrowth, alike.count, alike.capacity, alike.loadLimit, alike.retryAt]

theorem makeRoom (memory : Memory) : (first.makeRoom memory).Alike (second.makeRoom memory) := by
  unfold Table.makeRoom
  rw [alike.needsGrowth_eq]
  split
  · exact alike.grow memory
  · exact alike

theorem put (memory : Memory) (entry : Entry) :
    (first.put memory entry).Alike (second.put memory entry) where
  left := alike.left.put memory entry
  right := alike.right.put memory entry
  entries := by
    -- Up to order a put acts on the entries without regard to the chains.
    have others := (alike.entries.filter fun other => other.key ≠ entry.key).cons entry
    exact ((alike.left.entries_put memory entry).trans others).trans
      (alike.right.entries_put memory entry).symm
  figures := by
    -- The key is present in both or absent from both.
    have same := alike.find?_eq entry.key
    rcases put_cases memory first entry with ⟨present, changed⟩ | ⟨absent, added⟩
    · rw [changed, put_of_present (same ▸ present), figures_overwrite, figures_overwrite,
        alike.figures]
    · rw [added, put_of_absent (same.symm.trans absent), figures_prepend, figures_prepend,
        (alike.makeRoom memory).figures]

theorem extend (memory : Memory) (entries : List Entry) :
    (first.extend memory entries).Alike (second.extend memory entries) := by
  induction entries generalizing first second with
  | nil => exact alike
  | cons entry rest ih => exact ih (alike.put memory entry)

theorem perform (memory : Memory) (operation : Operation) :
    (first.perform memory operation).1 = (second.perform memory operation).1 ∧
      (first.perform memory operation).2.Alike (second.perform memory operation).2 := by
  cases operation with
  | put entry => exact ⟨rfl, alike.put memory entry⟩
  | extend entries => exact ⟨rfl, alike.extend memory entries⟩
  | remove key =>
    obtain ⟨answer, after⟩ := alike.remove key
    exact ⟨congrArg Answer.flag answer, after⟩
  | get key =>
    obtain ⟨answer, after⟩ := alike.get key
    exact ⟨congrArg Answer.lookup answer, after⟩
  | getOrNotFound key =>
    obtain ⟨answer, after⟩ := alike.get key
    have value : (first.get key).1.getD notFound = (second.get key).1.getD notFound := by
      rw [answer]
    exact ⟨congrArg Answer.partition value, after⟩
  | contains key =>
    obtain ⟨answer, after⟩ := alike.get key
    have present : (first.get key).1.isSome = (second.get key).1.isSome := by rw [answer]
    exact ⟨congrArg Answer.flag present, after⟩
  | clear => exact ⟨rfl, alike.clear⟩

theorem putNotice?_eq (memory : Memory) (key : Key) :
    first.putNotice? memory key = second.putNotice? memory key := by
  have grown := alike.grow memory
  simp only [putNotice?, growthNotice, alike.needsGrowth_eq, alike.find?_eq, alike.refusal?_eq,
    alike.count, alike.capacity, grown.failedResizes, grown.retryAt]

end Alike

variable [LoadScale α]

/-- What a client sees of two tables is the same, but for the order of iteration. Equal numbers of
attempts say that growth was tried in the same steps, equal notices that the next put of any key
tries it in both tables or in neither, with the same outcome. -/
structure SameView (memory : Memory) (first second : Answer × Table α) : Prop where
  answer : first.1 = second.1
  size : first.2.count = second.2.count
  capacity : first.2.capacity = second.2.capacity
  loadFactor : first.2.loadFactor = second.2.loadFactor
  resizes : first.2.resizes = second.2.resizes
  failedResizes : first.2.failedResizes = second.2.failedResizes
  operations : first.2.operations = second.2.operations
  attempts : first.2.attempts = second.2.attempts
  notices : ∀ key, first.2.putNotice? memory key = second.2.putNotice? memory key
  iterated : ∀ limit, first.2.count ≤ limit →
    (first.2.cursor.take limit).1.Perm (second.2.cursor.take limit).1

theorem Alike.sameView {memory : Memory} {first second : Answer × Table α}
    (alike : first.2.Alike second.2) (answer : first.1 = second.1) :
    SameView memory first second where
  answer := answer
  size := alike.count
  capacity := alike.capacity
  loadFactor := by rw [loadFactor, loadFactor, alike.count, alike.capacity]
  resizes := alike.resizes
  failedResizes := alike.failedResizes
  operations := alike.operations
  attempts := alike.attempts
  notices := alike.putNotice?_eq memory
  iterated limit enough := by
    rw [alike.left.take_cursor enough, alike.right.take_cursor (alike.count ▸ enough)]
    exact alike.entries

theorem Alike.trace {first second : Table α} (alike : first.Alike second) (memory : Memory)
    (operations : List Operation) :
    List.Forall₂ (SameView memory) (first.trace memory operations)
      (second.trace memory operations) := by
  induction operations generalizing first second with
  | nil => exact .nil
  | cons operation rest ih =>
    obtain ⟨answer, after⟩ := alike.perform memory operation
    exact .cons (after.sameView answer) (ih after)

/-- A table that was just made has nothing placed yet, so another hash function may place it. -/
theorem Made.wellFormed_rehashed {memory : Memory} {start : Table α} (made : Made memory start)
    (hash : Key → UInt64) : WellFormed { start with hash } := by
  obtain ⟨nonempty, same⟩ := made.eq_empty
  have rehashed : { start with hash } = empty start.capacity start.loadLimit hash :=
    congrArg (fun table : Table α => { table with hash }) same
  rw [rehashed]
  exact wellFormed_empty nonempty _ _

/-- A made table may have any two hash functions. -/
theorem Made.alike {memory : Memory} {start : Table α} (made : Made memory start)
    (first second : Key → UInt64) :
    Alike { start with hash := first } { start with hash := second } where
  left := made.wellFormed_rehashed first
  right := made.wellFormed_rehashed second
  entries := List.Perm.refl start.entries
  figures := rfl

/-- A run shows no client which hash function the table has, but by the order of iteration. -/
theorem trace_hash_independent (memory : Memory) {start : Table α} (made : Made memory start)
    (first second : Key → UInt64) (operations : List Operation) :
    List.Forall₂ (SameView memory)
      (trace memory { start with hash := first } operations)
      (trace memory { start with hash := second } operations) :=
  (made.alike first second).trace memory operations

/-- Mixed keys against one chain for all, with the second doubling refused: only the order is
another. -/
theorem trace_hash_independent_of_crowded :
    let memory : Memory := ⟨fun _ => true, fun attempt _ => attempt != 1⟩
    let mixed : Table Rat := { crowded 1 with hash := HashFunction.mix64.hash }
    let chained : Table Rat := { crowded 1 with hash := fun _ => 0 }
    let operations : List Operation :=
      [.put ⟨1, 10⟩, .extend [⟨2, 20⟩, ⟨-3, 30⟩, ⟨4, 40⟩], .remove 2, .get 4, .put ⟨1, 11⟩]
    Made memory (crowded 1) ∧
      List.Forall₂ (SameView memory) (mixed.trace memory operations)
        (chained.trace memory operations) ∧
      (mixed.run memory operations).entries = [⟨-3, 30⟩, ⟨1, 11⟩, ⟨4, 40⟩] ∧
      (chained.run memory operations).entries = [⟨4, 40⟩, ⟨-3, 30⟩, ⟨1, 11⟩] := by
  intro memory mixed chained operations
  have made : Made memory (crowded 1) := made_crowded rfl one_pos
  exact ⟨made, trace_hash_independent memory made _ _ operations, by decide +kernel,
    by decide +kernel⟩

end KeyPartitions.Table
