import KeyPartitions.Proofs.Steps
import Mathlib.Data.List.Perm.Subperm

/-!
# Well-formed tables

A table is well formed when it has a bucket, its buckets are placed by its hash, no key stands in
two entries, and its count is the number of entries. Then a lookup answers from the entries as a
whole, and each operation has one law about them: a put leaves its entry and those of the other
keys, a removal leaves those of the other keys. Every operation keeps a table well formed.
-/
namespace KeyPartitions.Table

variable {α : Type}

structure WellFormed (table : Table α) : Prop where
  nonempty : 0 < table.capacity
  placed : Placed table.hash table.buckets
  distinct : Chain.Distinct table.entries
  counted : table.count = table.entries.length

/-! ### Lookups -/

namespace WellFormed

variable {table : Table α} (wf : table.WellFormed)

include wf

theorem distinct_chainAt (bucket : Nat) : Chain.Distinct (table.chainAt bucket) := by
  by_cases inside : bucket < table.buckets.size
  · -- A chain is a part of all entries.
    have member : table.buckets[bucket] ∈ table.buckets.toList := by simp
    have part := (List.sublist_flatten_of_mem member).map Entry.key
    have chain : table.chainAt bucket = table.buckets[bucket] := by simp [chainAt, inside]
    rw [chain]
    exact wf.distinct.sublist part
  · simp [Chain.Distinct, chainAt, inside]

theorem find?_eq_some_iff {key : Key} {partition : Partition} :
    table.find? key = some partition ↔ ⟨key, partition⟩ ∈ table.entries :=
  (Chain.lookup_eq_some_iff (wf.distinct_chainAt _)).trans wf.placed.mem_flatten_iff.symm

theorem find?_eq_none_iff {key : Key} :
    table.find? key = none ↔ ∀ entry ∈ table.entries, entry.key ≠ key := by
  rw [Option.eq_none_iff_forall_ne_some]
  constructor
  · rintro missing entry member rfl
    exact missing entry.partition (wf.find?_eq_some_iff.mpr member)
  · intro absent partition found
    exact absent _ (wf.find?_eq_some_iff.mp found) rfl

theorem find?_isSome_iff {key : Key} :
    (table.find? key).isSome ↔ ∃ entry ∈ table.entries, entry.key = key := by
  rw [← Option.ne_none_iff_isSome, ne_eq, wf.find?_eq_none_iff]
  simp

/-- No two entries have the same key, and a key is a 64-bit number. -/
theorem count_le : table.count ≤ UInt64.size := by
  have injective : Function.Injective fun key : Key => key.toUInt64.toNat :=
    fun key other same => congrArg Int64.ofUInt64 (UInt64.toNat_inj.mp same)
  have distinct := wf.distinct.map injective
  have words : (table.entries.map Entry.key).map (fun key => key.toUInt64.toNat) ⊆
      List.range UInt64.size := by
    intro word member
    obtain ⟨key, -, rfl⟩ := List.mem_map.mp member
    exact List.mem_range.mpr key.toUInt64.toNat_lt_size
  have few := (distinct.subperm words).length_le
  rwa [List.length_map, List.length_map, List.length_range, ← wf.counted] at few

/-- The bucket of a key is the only one that has it. -/
theorem absent_elsewhere {key : Key} {bucket : Nat} (other : bucket ≠ table.index key) :
    ∀ entry ∈ table.chainAt bucket, entry.key ≠ key := by
  rintro entry member rfl
  exact other (wf.placed bucket entry member).symm

end WellFormed

/-! ### Overwriting and prepending -/

section Overwrite

variable {table : Table α} {entry : Entry}

theorem WellFormed.buckets_overwrite (wf : table.WellFormed) :
    (table.overwrite entry).buckets = table.buckets.map (List.map (Chain.renew entry)) := by
  apply modify_eq_map
  · exact Chain.overwrite_eq_map (wf.distinct_chainAt _)
  · exact fun bucket other => Chain.map_renew_of_absent (wf.absent_elsewhere other)

theorem WellFormed.entries_overwrite (wf : table.WellFormed) :
    (table.overwrite entry).entries = table.entries.map (Chain.renew entry) := by
  rw [entries, wf.buckets_overwrite, Array.toList_map, ← List.map_flatten, ← entries]

theorem WellFormed.overwrite (wf : table.WellFormed) : (table.overwrite entry).WellFormed where
  nonempty := by simpa using wf.nonempty
  placed := by
    rw [wf.buckets_overwrite]
    apply wf.placed.map
    intro chain other member
    obtain ⟨old, stood, rfl⟩ := List.mem_map.mp member
    exact ⟨old, stood, (Chain.key_renew entry old).symm⟩
  distinct := by
    rw [wf.entries_overwrite, Chain.Distinct, Chain.map_key_renew]
    exact wf.distinct
  counted := by
    rw [wf.entries_overwrite, List.length_map]
    exact wf.counted

theorem entries_prepend (nonempty : 0 < table.capacity) (entry : Entry) :
    (table.prepend entry).entries.Perm (entry :: table.entries) :=
  flatten_place table.hash nonempty entry

theorem WellFormed.prepend (wf : table.WellFormed)
    (absent : ∀ other ∈ table.entries, other.key ≠ entry.key) :
    (table.prepend entry).WellFormed where
  nonempty := by simpa using wf.nonempty
  placed := wf.placed.place wf.nonempty entry
  distinct := by
    have keys := (entries_prepend wf.nonempty entry).map Entry.key
    have fresh : entry.key ∉ table.entries.map Entry.key := by simpa using absent
    exact keys.nodup_iff.mpr (List.nodup_cons.mpr ⟨fresh, wf.distinct⟩)
  counted := by
    rw [(entries_prepend wf.nonempty entry).length_eq, List.length_cons, ← wf.counted]
    rfl

end Overwrite

/-! ### Growth -/

section Growth

variable {table : Table α}

theorem entries_doubled (nonempty : 0 < table.capacity) :
    table.doubled.entries.Perm table.entries :=
  flatten_relink table.hash table.buckets (by omega)

theorem WellFormed.doubled (wf : table.WellFormed) : table.doubled.WellFormed where
  nonempty := by simpa using wf.nonempty
  placed := placed_relink table.hash table.buckets (by have := wf.nonempty; omega)
  distinct := ((entries_doubled wf.nonempty).map Entry.key).nodup_iff.mpr wf.distinct
  counted := by rw [(entries_doubled wf.nonempty).length_eq, ← wf.counted]; rfl

theorem WellFormed.refused (wf : table.WellFormed) : table.refused.WellFormed where
  nonempty := wf.nonempty
  placed := wf.placed
  distinct := wf.distinct
  counted := wf.counted

variable [LoadScale α] {memory : Memory}

theorem WellFormed.makeRoom (wf : table.WellFormed) : (table.makeRoom memory).WellFormed := by
  rcases makeRoom_cases memory table with ⟨-, same⟩ | ⟨-, -, grown⟩ | ⟨-, -, kept⟩
  · rwa [same]
  · rw [grown]; exact wf.doubled
  · rw [kept]; exact wf.refused

theorem entries_makeRoom (nonempty : 0 < table.capacity) :
    (table.makeRoom memory).entries.Perm table.entries := by
  rcases makeRoom_cases memory table with ⟨-, same⟩ | ⟨-, -, grown⟩ | ⟨-, -, kept⟩
  · rw [same]
  · rw [grown]; exact entries_doubled nonempty
  · rw [kept]; exact List.Perm.refl _

end Growth

/-! ### Puts, removals and clearings -/

section Changes

variable {table : Table α}

section Put

variable [LoadScale α]

theorem WellFormed.put (wf : table.WellFormed) (memory : Memory) (entry : Entry) :
    (table.put memory entry).WellFormed := by
  rcases put_cases memory table entry with ⟨-, changed⟩ | ⟨absent, added⟩
  · rw [changed]
    exact wf.overwrite
  · -- Making room moves entries, but brings in none, so the key is still absent.
    rw [added]
    apply wf.makeRoom.prepend
    intro other member
    have stood := (entries_makeRoom wf.nonempty).mem_iff.mp member
    exact wf.find?_eq_none_iff.mp absent other stood

/-- A put leaves its entry and those of the other keys. -/
theorem WellFormed.entries_put (wf : table.WellFormed) (memory : Memory) (entry : Entry) :
    (table.put memory entry).entries.Perm
      (entry :: Chain.without entry.key table.entries) := by
  rcases put_cases memory table entry with ⟨present, changed⟩ | ⟨absent, added⟩
  · rw [changed, wf.entries_overwrite]
    exact Chain.map_renew_perm wf.distinct (wf.find?_isSome_iff.mp present)
  · rw [added, Chain.without_of_absent (wf.find?_eq_none_iff.mp absent)]
    exact (entries_prepend wf.makeRoom.nonempty entry).trans
      ((entries_makeRoom wf.nonempty).cons entry)

theorem WellFormed.find?_put (wf : table.WellFormed) (memory : Memory) (entry : Entry)
    (key : Key) :
    (table.put memory entry).find? key =
      if entry.key = key then some entry.partition else table.find? key := by
  -- A lookup is a question about membership, before the put as after it.
  apply Option.ext
  intro partition
  rw [(wf.put memory entry).find?_eq_some_iff, (wf.entries_put memory entry).mem_iff]
  split
  next same => cases entry; subst same; simp [eq_comm]
  next other =>
    have differs : (⟨key, partition⟩ : Entry) ≠ entry := by rintro rfl; exact other rfl
    simp [wf.find?_eq_some_iff, differs, Ne.symm other]

end Put

variable {key : Key}

theorem WellFormed.buckets_unlinked (wf : table.WellFormed) (key : Key) :
    (table.unlinked key).buckets = table.buckets.map (Chain.without key) := by
  apply modify_eq_map
  · exact Chain.remove_eq_without (wf.distinct_chainAt _)
  · exact fun bucket other => Chain.without_of_absent (wf.absent_elsewhere other)

theorem WellFormed.entries_unlinked (wf : table.WellFormed) (key : Key) :
    (table.unlinked key).entries = Chain.without key table.entries := by
  rw [entries, wf.buckets_unlinked key, Array.toList_map, Chain.without, entries,
    List.filter_flatten]
  rfl

theorem WellFormed.unlinked (wf : table.WellFormed) (present : (table.find? key).isSome) :
    (table.unlinked key).WellFormed where
  nonempty := by simpa using wf.nonempty
  placed := by
    rw [wf.buckets_unlinked key]
    apply wf.placed.map
    intro chain entry member
    exact ⟨entry, (Chain.mem_without.mp member).1, rfl⟩
  distinct := by
    rw [wf.entries_unlinked key]
    exact wf.distinct.without
  counted := by
    -- The key has one entry, so there is one to count down.
    obtain ⟨entry, member, rfl⟩ := wf.find?_isSome_iff.mp present
    have parts := (Chain.perm_cons_without wf.distinct member).length_eq
    have counted := wf.counted
    rw [wf.entries_unlinked]
    simp only [Table.unlinked, List.length_cons] at parts ⊢
    omega

theorem WellFormed.remove (wf : table.WellFormed) (key : Key) :
    (table.remove key).2.WellFormed := by
  rcases table.remove_cases key with ⟨-, same⟩ | ⟨present, unlinked⟩
  · rw [same]
    exact wf
  · rw [unlinked]
    exact wf.unlinked present

/-- A removal leaves the entries of the other keys. -/
theorem WellFormed.entries_remove (wf : table.WellFormed) (key : Key) :
    (table.remove key).2.entries = Chain.without key table.entries := by
  rcases table.remove_cases key with ⟨absent, same⟩ | ⟨-, unlinked⟩
  · rw [same, Chain.without_of_absent (wf.find?_eq_none_iff.mp absent)]
  · rw [unlinked]
    exact wf.entries_unlinked key

theorem WellFormed.find?_remove (wf : table.WellFormed) (key other : Key) :
    (table.remove key).2.find? other = if key = other then none else table.find? other := by
  apply Option.ext
  intro partition
  rw [(wf.remove key).find?_eq_some_iff, wf.entries_remove key, Chain.mem_without]
  split
  next same => simp [same]
  next differs => simp [wf.find?_eq_some_iff, Ne.symm differs]

@[simp] theorem entries_clear (table : Table α) : table.clear.entries = [] := by
  simp [entries, clear]

theorem WellFormed.clear (wf : table.WellFormed) : table.clear.WellFormed where
  nonempty := by simpa using wf.nonempty
  placed := placed_replicate _
  distinct := by simp [Chain.Distinct]
  counted := by rw [entries_clear]; rfl

theorem WellFormed.countRead (wf : table.WellFormed) : table.countRead.WellFormed where
  nonempty := wf.nonempty
  placed := wf.placed
  distinct := wf.distinct
  counted := wf.counted

end Changes

theorem wellFormed_empty {capacity : Nat} (nonempty : 0 < capacity) (loadLimit : α)
    (hash : Key → UInt64) : (empty capacity loadLimit hash).WellFormed where
  nonempty := by simpa [Table.capacity, empty] using nonempty
  placed := placed_replicate capacity
  distinct := by simp [Chain.Distinct, entries, empty]
  counted := by simp [entries, empty]

end KeyPartitions.Table
