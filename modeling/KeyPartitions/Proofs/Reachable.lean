import KeyPartitions.Proofs.Runs
import KeyPartitions.Proofs.WellFormed
import Mathlib.Tactic.Ring

/-!
# Reachable tables

The tables that a client can start from, and what holds of every table that a run of operations
reaches from one of them, whatever the hash function and whichever doublings memory grants. The
main statement is `run_invariant`.
-/
namespace KeyPartitions.Table

variable {α : Type} [LoadScale α]

/-- The tables that a client can start from. Settings can come with any hash function. -/
inductive Made (memory : Memory) : Table α → Prop
  | ofSettings {settings : Settings α} {table : Table α} :
      Table.ofSettings memory settings = .ok table → Made memory table
  | withCapacity {capacity : Nat} {table : Table α} :
      Table.withCapacity memory capacity = .ok table → Made memory table
  | standard : Made memory Table.standard

theorem ofSettings_eq_ok_iff {memory : Memory} {settings : Settings α} {table : Table α} :
    ofSettings memory settings = .ok table ↔
      settings.Valid ∧ memory.initial settings.capacity = true ∧
        table = empty settings.capacity settings.loadLimit settings.hashFunction.hash := by
  rw [← settings.check_eq_ok_iff]
  unfold ofSettings
  cases settings.check with
  | error fault => simp [bind, Except.bind]
  | ok checked =>
    by_cases room : memory.initial settings.capacity = true
    · simp [bind, Except.bind, pure, Except.pure, room, eq_comm]
    · simp [bind, Except.bind, throw, throwThe, MonadExceptOf.throw, room]

theorem ofSettings_eq_empty {memory : Memory} {settings : Settings α} {table : Table α}
    (made : ofSettings memory settings = .ok table) :
    0 < table.capacity ∧ table = empty table.capacity table.loadLimit table.hash := by
  obtain ⟨⟨positive, -⟩, -, rfl⟩ := ofSettings_eq_ok_iff.mp made
  simpa [empty, capacity] using positive

/-- A table that was just made has a bucket and is otherwise empty. -/
theorem Made.eq_empty {memory : Memory} {table : Table α} (made : Made memory table) :
    0 < table.capacity ∧ table = empty table.capacity table.loadLimit table.hash := by
  cases made with
  | ofSettings made => exact ofSettings_eq_empty made
  | @withCapacity capacity _ made =>
    unfold Table.withCapacity at made
    cases answer : (Settings.standard : Settings α).withCapacity capacity with
    | error fault => simp [answer, bind, Except.bind] at made
    | ok settings =>
      rw [answer] at made
      exact ofSettings_eq_empty made
  | standard => simp [Table.standard, Settings.standard, empty, capacity]

theorem Made.wellFormed {memory : Memory} {table : Table α} (made : Made memory table) :
    table.WellFormed := by
  obtain ⟨positive, same⟩ := made.eq_empty
  rw [same]
  exact wellFormed_empty positive _ _

/-- With exact measures every empty table that has a bucket and a limit above zero can be made. -/
theorem made_empty {memory : Memory} {capacity : Nat} (room : memory.initial capacity = true)
    (nonempty : 0 < capacity) {loadLimit : Rat} (positive : 0 < loadLimit)
    (hash : Key → UInt64) : Made memory (empty capacity loadLimit hash) := by
  let settings : Settings Rat := ⟨capacity, loadLimit, .aHash hash⟩
  have limit : LoadScale.isLimit loadLimit = true := by
    simpa [LoadScale.isLimit, LoadScale.isFinite, LoadScale.less, LoadScale.ofCount] using positive
  have valid : settings.Valid := ⟨nonempty, limit⟩
  exact .ofSettings (ofSettings_eq_ok_iff.mpr ⟨valid, room, rfl⟩)

/-- One bucket, and one hash for all keys. -/
def crowded (loadLimit : Rat) : Table Rat := empty 1 loadLimit fun _ => 5

theorem made_crowded {memory : Memory} (room : memory.initial 1 = true) {loadLimit : Rat}
    (positive : 0 < loadLimit) : Made memory (crowded loadLimit) :=
  made_empty room one_pos positive _

section Step

variable (memory : Memory) (table : Table α) (entry : Entry)

theorem makeRoom_keeps_settings :
    (table.makeRoom memory).hash = table.hash ∧
      (table.makeRoom memory).loadLimit = table.loadLimit := by
  rcases makeRoom_cases memory table with ⟨-, same⟩ | ⟨-, -, grown⟩ | ⟨-, -, kept⟩
  · rw [same]; exact ⟨rfl, rfl⟩
  · rw [grown]; exact ⟨rfl, rfl⟩
  · rw [kept]; exact ⟨rfl, rfl⟩

theorem put_keeps_settings :
    (table.put memory entry).hash = table.hash ∧
      (table.put memory entry).loadLimit = table.loadLimit := by
  rcases put_cases memory table entry with ⟨-, changed⟩ | ⟨-, added⟩
  · rw [changed]; exact ⟨rfl, rfl⟩
  · rw [added]; exact makeRoom_keeps_settings memory table

/-- A put leaves the buckets as many as they are, or it puts an absent key and doubles them. -/
theorem put_growth_cases :
    ((table.put memory entry).capacity = table.capacity ∧
      (table.put memory entry).resizes = table.resizes) ∨
    (table.find? entry.key = none ∧ (table.put memory entry).capacity = 2 * table.capacity ∧
      (table.put memory entry).resizes = table.resizes + 1) := by
  rcases put_cases memory table entry with ⟨-, changed⟩ | ⟨absent, added⟩
  · rw [changed]
    exact Or.inl ⟨capacity_overwrite, rfl⟩
  · rw [added, capacity_prepend]
    rcases makeRoom_cases memory table with ⟨-, same⟩ | ⟨-, -, grown⟩ | ⟨-, -, kept⟩
    · rw [same]; exact Or.inl ⟨rfl, rfl⟩
    · rw [grown]; exact Or.inr ⟨absent, capacity_doubled, rfl⟩
    · rw [kept]; exact Or.inl ⟨rfl, rfl⟩

theorem capacity_le_put : table.capacity ≤ (table.put memory entry).capacity := by
  rcases put_growth_cases memory table entry with ⟨same, -⟩ | ⟨-, twice, -⟩ <;> omega

/-- A single operation changes the number of buckets only where it puts an absent key. -/
theorem perform_growth_cases (operation : Operation)
    (single : ∀ entries, operation ≠ .extend entries) :
    (table.perform memory operation).2.capacity = table.capacity ∨
    ∃ entry, operation = .put entry ∧ table.find? entry.key = none ∧
      (table.perform memory operation).2.capacity = 2 * table.capacity := by
  have looked (key : Key) : (table.get key).2.capacity = table.capacity := by
    rcases table.get_snd_cases key with same | counted
    · rw [same]
    · rw [counted]; rfl
  cases operation with
  | put entry =>
    rcases put_growth_cases memory table entry with ⟨same, -⟩ | ⟨absent, twice, -⟩
    · exact Or.inl same
    · exact Or.inr ⟨entry, rfl, absent, twice⟩
  | extend entries => exact absurd rfl (single entries)
  | remove key =>
    left
    change (table.remove key).2.capacity = table.capacity
    rcases table.remove_cases key with ⟨-, same⟩ | ⟨-, unlinked⟩
    · rw [same]
    · rw [unlinked, capacity_unlinked]
  | get key => exact Or.inl (looked key)
  | getOrNotFound key => exact Or.inl (looked key)
  | contains key => exact Or.inl (looked key)
  | clear => exact Or.inl (capacity_clear table)

end Step

section Run

variable {memory : Memory} {start : Table α}

theorem WellFormed.extend (wf : start.WellFormed) (memory : Memory) (entries : List Entry) :
    (start.extend memory entries).WellFormed :=
  extend_preserves (fun _ entry wf => wf.put memory entry) wf entries

theorem WellFormed.run (wf : start.WellFormed) (memory : Memory) (operations : List Operation) :
    (start.run memory operations).WellFormed :=
  run_preserves (fun _ entry wf => wf.put memory entry) (fun _ _ present wf => wf.unlinked present)
    (fun _ wf => wf.countRead) (fun _ wf => wf.clear) wf operations

theorem run_keeps_settings (operations : List Operation) :
    (start.run memory operations).hash = start.hash ∧
      (start.run memory operations).loadLimit = start.loadLimit := by
  apply run_preserves
    (motive := fun table => table.hash = start.hash ∧ table.loadLimit = start.loadLimit)
  case put =>
    intro table entry kept
    obtain ⟨hash, limit⟩ := put_keeps_settings memory table entry
    exact ⟨hash.trans kept.1, limit.trans kept.2⟩
  case unlink => exact fun _ _ _ kept => kept
  case read => exact fun _ kept => kept
  case clear => exact fun _ kept => kept
  case holds => exact ⟨rfl, rfl⟩

/-- The buckets have been doubled once for each resize. -/
theorem capacity_run (fresh : start.resizes = 0) (operations : List Operation) :
    (start.run memory operations).capacity =
      start.capacity * 2 ^ (start.run memory operations).resizes := by
  apply run_preserves
    (motive := fun table => table.capacity = start.capacity * 2 ^ table.resizes)
  case put =>
    intro table entry kept
    rcases put_growth_cases memory table entry with ⟨same, count⟩ | ⟨-, twice, count⟩
    · rw [same, count, kept]
    · rw [twice, count, kept]; ring
  case unlink =>
    intro table key _ kept
    rw [capacity_unlinked]
    exact kept
  case read => exact fun _ kept => kept
  case clear =>
    intro table kept
    rw [capacity_clear]
    exact kept
  case holds => simp [fresh]

end Run

/-- What a run from `start` upholds. The count of a well-formed table is that of all its chains, so
a removal that finds its key has an entry to count down. -/
structure Invariant (memory : Memory) (start table : Table α) : Prop extends table.WellFormed where
  hash : table.hash = start.hash
  doublings : table.capacity = start.capacity * 2 ^ table.resizes
  removable : ∀ key, (table.remove key).1 = true → 0 < table.count
  /-- The next operation changes the number of buckets only by putting an absent key, and then it
  doubles them once. -/
  growth : ∀ operation, (∀ entries, operation ≠ .extend entries) →
    (table.perform memory operation).2.capacity ≠ table.capacity →
      ∃ entry, operation = .put entry ∧ entry.key ∉ table.entries.map Entry.key ∧
        (table.perform memory operation).2.capacity = 2 * table.capacity
  /-- An extension counts as the puts that it makes. -/
  extension : ∀ entries, (table.perform memory (.extend entries)).2 =
    table.run memory (entries.map Operation.put)

/-- Every table that a run reaches from a made one, whatever memory refuses, upholds the invariant
of tables. -/
theorem run_invariant (memory : Memory) {start : Table α} (made : Made memory start)
    (operations : List Operation) : Invariant memory start (start.run memory operations) := by
  have wf : (start.run memory operations).WellFormed := made.wellFormed.run memory operations
  have fresh : start.resizes = 0 := by rw [made.eq_empty.2]; rfl
  refine { wf with
    hash := (run_keeps_settings operations).1
    doublings := capacity_run fresh operations
    removable := ?removable
    growth := ?growth
    extension := extend_eq_run _ }
  case removable =>
    intro key present
    -- What is found stands among the entries, and these are counted.
    rw [remove_fst] at present
    obtain ⟨entry, member, -⟩ := wf.find?_isSome_iff.mp present
    rw [wf.counted]
    exact List.length_pos_of_mem member
  case growth =>
    intro operation single changed
    rcases perform_growth_cases memory (start.run memory operations) operation single with
      same | ⟨entry, put, absent, twice⟩
    · exact absurd same changed
    · -- A key that is not found has no entry in any bucket.
      have missing := wf.find?_eq_none_iff.mp absent
      exact ⟨entry, put, by simpa using missing, twice⟩

/-- The first doubling is granted and no other. -/
theorem run_invariant_of_crowded :
    let memory : Memory := ⟨fun _ => true, fun attempt _ => attempt == 0⟩
    let operations : List Operation :=
      [.put ⟨1, 10⟩, .extend [⟨2, 20⟩, ⟨3, 30⟩], .put ⟨2, 21⟩, .remove 2]
    let table := (crowded 1).run memory operations
    Made memory (crowded 1) ∧ Invariant memory (crowded 1) table ∧
      table.capacity = 2 ∧ table.entries = [⟨3, 30⟩, ⟨1, 10⟩] ∧ table.failedResizes = 1 := by
  intro memory operations table
  have made : Made memory (crowded 1) := made_crowded rfl one_pos
  exact ⟨made, run_invariant memory made operations, by decide +kernel, by decide +kernel,
    by decide +kernel⟩

end KeyPartitions.Table
