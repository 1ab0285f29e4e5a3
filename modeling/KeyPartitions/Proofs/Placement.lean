import KeyPartitions.Proofs.DistinctKeys
import KeyPartitions.Table

/-!
# Placement

Buckets are placed by a hash when each entry is in the bucket of its hash at the current number of
buckets. Placing one entry keeps this and adds that entry to the others. Relinking is a fold of
placings over all old entries into empty buckets, so its result is placed and loses nothing,
whichever number of buckets the entries come from.
-/
namespace KeyPartitions.Table

/-- Every entry is in the bucket of its hash. -/
def Placed (hash : Key → UInt64) (buckets : Array Chain) : Prop :=
  ∀ bucket, ∀ entry ∈ buckets.getD bucket [], bucketIndex (hash entry.key) buckets.size = bucket

theorem mem_flatten_iff {buckets : Array Chain} {entry : Entry} :
    entry ∈ buckets.toList.flatten ↔ ∃ bucket, entry ∈ buckets.getD bucket [] := by
  rw [List.mem_flatten]
  constructor
  · rintro ⟨chain, member, inside⟩
    obtain ⟨bucket, bound, rfl⟩ := List.mem_iff_getElem.mp member
    have size : bucket < buckets.size := by simpa using bound
    refine ⟨bucket, ?_⟩
    simpa [size] using inside
  · rintro ⟨bucket, inside⟩
    -- Outside the array there is only the empty chain.
    by_cases size : bucket < buckets.size
    · have chain : buckets.getD bucket [] = buckets[bucket] := by simp [size]
      rw [chain] at inside
      exact ⟨buckets[bucket], by simp, inside⟩
    · simp [size] at inside

/-- The buckets in order are the chains of all their numbers. -/
theorem toList_buckets {α : Type} (table : Table α) :
    table.buckets.toList = (List.range table.capacity).map table.chainAt := by
  apply List.ext_getElem
  · simp [capacity]
  · intro bucket inside _
    have bound : bucket < table.buckets.size := by simpa using inside
    simp [chainAt, bound]

/-- A placed entry is found among all entries just if its own bucket has it. -/
theorem Placed.mem_flatten_iff {hash : Key → UInt64} {buckets : Array Chain}
    (placed : Placed hash buckets) {entry : Entry} :
    entry ∈ buckets.toList.flatten ↔
      entry ∈ buckets.getD (bucketIndex (hash entry.key) buckets.size) [] := by
  rw [Table.mem_flatten_iff]
  constructor
  · rintro ⟨bucket, inside⟩
    rwa [placed bucket entry inside]
  · exact fun inside => ⟨_, inside⟩

theorem getD_modify (buckets : Array Chain) (change : Chain → Chain) {bucket : Nat}
    (inside : bucket < buckets.size) (other : Nat) :
    (buckets.modify bucket change).getD other [] =
      if bucket = other then change (buckets.getD bucket []) else buckets.getD other [] := by
  simp only [Array.getD_eq_getD_getElem?, Array.getElem?_modify]
  split
  next same =>
    subst same
    simp [inside]
  next => rfl

/-- A change of one bucket is a change of all where it would leave the others as they are. -/
theorem modify_eq_map {buckets : Array Chain} {bucket : Nat} {change everywhere : Chain → Chain}
    (here : change (buckets.getD bucket []) = everywhere (buckets.getD bucket []))
    (elsewhere : ∀ other, other ≠ bucket →
      everywhere (buckets.getD other []) = buckets.getD other []) :
    buckets.modify bucket change = buckets.map everywhere := by
  apply Array.ext
  · simp
  · intro other bound _
    have size : other < buckets.size := by simpa using bound
    rw [Array.getElem_modify, Array.getElem_map]
    by_cases same : bucket = other
    · subst same
      simpa [size] using here
    · have kept := elsewhere other (Ne.symm same)
      rw [if_neg same]
      simpa [size] using kept.symm

/-- A change of all chains that brings in no new key keeps them placed. -/
theorem Placed.map {hash : Key → UInt64} {buckets : Array Chain} (placed : Placed hash buckets)
    {everywhere : Chain → Chain}
    (known : ∀ chain, ∀ entry ∈ everywhere chain, ∃ old ∈ chain, old.key = entry.key) :
    Placed hash (buckets.map everywhere) := by
  intro bucket entry member
  by_cases inside : bucket < buckets.size
  · have changed : entry ∈ everywhere buckets[bucket] := by simpa [inside] using member
    obtain ⟨old, stood, same⟩ := known _ entry changed
    have home := placed bucket old (by simpa [inside] using stood)
    rwa [same, ← Array.size_map (f := everywhere)] at home
  · simp [inside] at member

section Place

variable (hash : Key → UInt64)

@[simp] theorem size_place (buckets : Array Chain) (entry : Entry) :
    (place hash buckets entry).size = buckets.size := by
  simp [place]

theorem flatten_place {buckets : Array Chain} (nonempty : 0 < buckets.size) (entry : Entry) :
    (place hash buckets entry).toList.flatten.Perm (entry :: buckets.toList.flatten) := by
  have inside : bucketIndex (hash entry.key) buckets.size < buckets.toList.length := by
    simpa using bucketIndex_lt (hash entry.key) nonempty
  -- Cut at the bucket of the entry: the buckets before and behind it are the same on both sides.
  rw [place, Array.toList_modify, List.modify_eq_take_cons_drop inside]
  conv => rhs; rw [← List.take_append_drop (bucketIndex (hash entry.key) buckets.size)
    buckets.toList, List.drop_eq_getElem_cons inside]
  simp only [List.flatten_append, List.flatten_cons, List.cons_append]
  exact List.perm_middle

theorem size_foldl_place (entries : List Entry) (buckets : Array Chain) :
    (entries.foldl (place hash) buckets).size = buckets.size := by
  induction entries generalizing buckets with
  | nil => rfl
  | cons entry rest ih => rw [List.foldl_cons, ih, size_place]

theorem flatten_foldl_place (entries : List Entry) {buckets : Array Chain}
    (nonempty : 0 < buckets.size) :
    (entries.foldl (place hash) buckets).toList.flatten.Perm
      (entries ++ buckets.toList.flatten) := by
  induction entries generalizing buckets with
  | nil => exact List.Perm.refl _
  | cons entry rest ih =>
    have still : 0 < (place hash buckets entry).size := by simpa using nonempty
    have first := (flatten_place hash nonempty entry).append_left rest
    exact ((ih still).trans first).trans List.perm_middle

variable {hash}

theorem Placed.place {buckets : Array Chain} (placed : Placed hash buckets)
    (nonempty : 0 < buckets.size) (entry : Entry) : Placed hash (place hash buckets entry) := by
  intro bucket other member
  rw [size_place]
  rw [Table.place, getD_modify _ _ (bucketIndex_lt _ nonempty)] at member
  split at member
  next here =>
    -- The entry itself is new in this bucket, and the bucket is its own.
    rcases List.mem_cons.mp member with rfl | old
    · exact here
    · rw [here] at old
      exact placed bucket other old
  next => exact placed bucket other member

theorem Placed.foldl_place (entries : List Entry) {buckets : Array Chain}
    (placed : Placed hash buckets) (nonempty : 0 < buckets.size) :
    Placed hash (entries.foldl (Table.place hash) buckets) := by
  induction entries generalizing buckets with
  | nil => exact placed
  | cons entry rest ih =>
    exact ih (placed.place nonempty entry) (by simpa using nonempty)

theorem placed_replicate (capacity : Nat) :
    Placed hash (Array.replicate capacity ([] : Chain)) := by
  intro bucket entry member
  by_cases inside : bucket < capacity <;> simp [inside] at member

end Place

/-! ### Relinking -/

section Relink

variable (hash : Key → UInt64) (old : Array Chain)

/-- Relinking places the old entries one after another. -/
theorem relink_eq_foldl (capacity : Nat) :
    relink hash old capacity =
      old.toList.flatten.foldl (place hash) (Array.replicate capacity []) := by
  -- The old chains one by one, and each from its front: this is the order of all entries.
  rw [List.foldl_flatten, relink, ← Array.foldl_toList]

@[simp] theorem size_relink (capacity : Nat) : (relink hash old capacity).size = capacity := by
  rw [relink_eq_foldl, size_foldl_place, Array.size_replicate]

theorem flatten_relink {capacity : Nat} (nonempty : 0 < capacity) :
    (relink hash old capacity).toList.flatten.Perm old.toList.flatten := by
  have fresh : 0 < (Array.replicate capacity ([] : Chain)).size := by simpa using nonempty
  have all := flatten_foldl_place hash old.toList.flatten fresh
  rw [relink_eq_foldl]
  simpa using all

theorem placed_relink {capacity : Nat} (nonempty : 0 < capacity) :
    Placed hash (relink hash old capacity) := by
  rw [relink_eq_foldl]
  exact (placed_replicate capacity).foldl_place _ (by simpa using nonempty)

end Relink

end KeyPartitions.Table
