import KeyPartitions.Chain
import Mathlib.Data.List.Nodup

/-!
# Entries with distinct keys

A chain operation stops at the first entry of its key. Where no key stands twice that is the only
one, so the operation says something about all entries: an overwrite renews them one by one, a
removal keeps those of the other keys. In this form operations pass from a chain to a table.
-/
namespace KeyPartitions.Chain

abbrev Distinct (entries : List Entry) : Prop := (entries.map Entry.key).Nodup

/-- The entries of the other keys. -/
def without (key : Key) (entries : List Entry) : List Entry :=
  entries.filter fun entry => entry.key ≠ key

/-- The new entry in place of an old one of its key. -/
def renew (new entry : Entry) : Entry := if entry.key = new.key then new else entry

@[simp] theorem mem_without {key : Key} {entries : List Entry} {entry : Entry} :
    entry ∈ without key entries ↔ entry ∈ entries ∧ entry.key ≠ key := by
  simp [without]

@[simp] theorem key_renew (new entry : Entry) : (renew new entry).key = entry.key := by
  unfold renew
  split
  next same => exact same.symm
  next => rfl

theorem without_of_absent {key : Key} {entries : List Entry}
    (absent : ∀ entry ∈ entries, entry.key ≠ key) : without key entries = entries := by
  simpa [without] using absent

theorem map_renew_of_absent {new : Entry} {entries : List Entry}
    (absent : ∀ entry ∈ entries, entry.key ≠ new.key) : entries.map (renew new) = entries := by
  have kept : ∀ entry ∈ entries, renew new entry = id entry :=
    fun entry member => if_neg (absent entry member)
  rw [List.map_congr_left kept, List.map_id]

theorem map_key_renew (new : Entry) (entries : List Entry) :
    (entries.map (renew new)).map Entry.key = entries.map Entry.key := by
  simp [Function.comp_def]

/-- The keys behind the first entry differ from its key. -/
theorem Distinct.absent_tail {entry : Entry} {rest : List Entry}
    (distinct : Distinct (entry :: rest)) : ∀ other ∈ rest, other.key ≠ entry.key := by
  intro other member same
  have fresh := (List.nodup_cons.mp distinct).1
  exact fresh (same ▸ List.mem_map_of_mem member)

theorem Distinct.tail {entry : Entry} {rest : List Entry} (distinct : Distinct (entry :: rest)) :
    Distinct rest :=
  (List.nodup_cons.mp distinct).2

theorem Distinct.without {key : Key} {entries : List Entry} (distinct : Distinct entries) :
    Distinct (without key entries) :=
  distinct.sublist (List.filter_sublist.map Entry.key)

theorem mem_of_lookup {key : Key} {partition : Partition} {chain : Chain}
    (found : lookup key chain = some partition) : ⟨key, partition⟩ ∈ chain := by
  induction chain with
  | nil => cases found
  | cons entry rest ih =>
    by_cases same : entry.key = key
    · have value : entry.partition = partition := by simpa [lookup, same] using found
      subst same value
      exact List.mem_cons_self
    · have later : lookup key rest = some partition := by simpa [lookup, same] using found
      exact List.mem_cons_of_mem entry (ih later)

theorem lookup_eq_some_iff {key : Key} {partition : Partition} {chain : Chain}
    (distinct : Distinct chain) :
    lookup key chain = some partition ↔ ⟨key, partition⟩ ∈ chain := by
  refine ⟨mem_of_lookup, fun member => ?_⟩
  induction chain with
  | nil => cases member
  | cons entry rest ih =>
    rcases List.mem_cons.mp member with rfl | later
    · simp [lookup]
    · -- The search passes the first entry, whose key is another one.
      have other := distinct.absent_tail _ later
      rw [lookup, if_neg (Ne.symm other)]
      exact ih distinct.tail later

theorem overwrite_eq_map {new : Entry} {chain : Chain} (distinct : Distinct chain) :
    overwrite new chain = chain.map (renew new) := by
  induction chain with
  | nil => rfl
  | cons entry rest ih =>
    by_cases same : entry.key = new.key
    · -- Behind the first entry of the key there is none to renew.
      have absent := distinct.absent_tail
      rw [same] at absent
      simp [overwrite, renew, same, map_renew_of_absent absent]
    · simp [overwrite, renew, same, ih distinct.tail]

theorem remove_eq_without {key : Key} {chain : Chain} (distinct : Distinct chain) :
    remove key chain = without key chain := by
  induction chain with
  | nil => rfl
  | cons entry rest ih =>
    by_cases same : entry.key = key
    · -- Nor is there one to drop.
      have absent := distinct.absent_tail
      rw [same] at absent
      have kept := without_of_absent absent
      rw [remove, if_pos same]
      simpa [without, same] using kept.symm
    · have kept := ih distinct.tail
      rw [remove, if_neg same, kept]
      simp [without, same]

/-- An entry and those of the other keys are all there is. -/
theorem perm_cons_without {entry : Entry} {entries : List Entry} (distinct : Distinct entries)
    (member : entry ∈ entries) : entries.Perm (entry :: without entry.key entries) := by
  induction entries with
  | nil => cases member
  | cons first rest ih =>
    rcases List.mem_cons.mp member with rfl | later
    · have kept := without_of_absent distinct.absent_tail
      have dropped : without entry.key (entry :: rest) = rest := by simpa [without] using kept
      rw [dropped]
    · -- The first entry stays, and the two trade places.
      have other : first.key ≠ entry.key := Ne.symm (distinct.absent_tail entry later)
      have split : without entry.key (first :: rest) = first :: without entry.key rest := by
        simp [without, other]
      rw [split]
      exact ((ih distinct.tail later).cons first).trans (List.Perm.swap entry first _)

/-- Renewing the entry of a key puts the new entry beside those of the other keys. -/
theorem map_renew_perm {new : Entry} {entries : List Entry} (distinct : Distinct entries)
    (present : ∃ entry ∈ entries, entry.key = new.key) :
    (entries.map (renew new)).Perm (new :: without new.key entries) := by
  obtain ⟨old, member, same⟩ := present
  -- Renewal changes the old entry and none of the others.
  have parts := (perm_cons_without distinct member).map (renew new)
  rw [List.map_cons, same] at parts
  have others : (without new.key entries).map (renew new) = without new.key entries :=
    map_renew_of_absent fun entry kept => (mem_without.mp kept).2
  have renewed : renew new old = new := if_pos same
  rwa [others, renewed] at parts

end KeyPartitions.Chain
