import KeyPartitions.Proofs.Reachable

/-!
# How a doubling splits chains

Relinking walks the old chains bucket after bucket, each from its front, and puts every entry at the
front of its new chain. So a new chain holds the entries of its bucket in the reverse order of the
walk. A hash modulo twice the capacity determines the hash modulo the capacity, so where the old
buckets are placed all entries of a new chain come from one old chain, and an old chain is split
between two new ones.
-/
namespace KeyPartitions

theorem bucketIndex_mod (hash : UInt64) (factor capacity : Nat) :
    bucketIndex hash (factor * capacity) % capacity = bucketIndex hash capacity :=
  Nat.mod_mul_left_mod _ _ _

/-- Among twice the buckets a hash keeps its bucket or goes as many buckets further as there
were. -/
theorem bucketIndex_double_eq (hash : UInt64) {capacity : Nat} (nonempty : 0 < capacity) :
    bucketIndex hash (2 * capacity) = bucketIndex hash capacity ∨
      bucketIndex hash (2 * capacity) = bucketIndex hash capacity + capacity := by
  have inside : bucketIndex hash (2 * capacity) < 2 * capacity := bucketIndex_lt hash (by omega)
  have rest := bucketIndex_mod hash 2 capacity
  rcases Nat.lt_or_ge (bucketIndex hash (2 * capacity)) capacity with low | high
  · rw [Nat.mod_eq_of_lt low] at rest
    exact Or.inl rest
  · -- One capacity less is a remainder.
    have below : bucketIndex hash (2 * capacity) - capacity < capacity := by omega
    rw [Nat.mod_eq_sub_mod high, Nat.mod_eq_of_lt below] at rest
    omega

namespace Table

section Walk

variable {hash : Key → UInt64} {buckets : Array Chain}

theorem getD_place (nonempty : 0 < buckets.size) (entry : Entry) (bucket : Nat) :
    (place hash buckets entry).getD bucket [] =
      if bucketIndex (hash entry.key) buckets.size = bucket then entry :: buckets.getD bucket []
      else buckets.getD bucket [] := by
  rw [place, getD_modify _ _ (bucketIndex_lt _ nonempty)]
  split
  next here => rw [here]
  next => rfl

/-- What the walk has done at any point: every chain has got the entries of its bucket among those
passed so far, the last one at its front, before what it held. -/
theorem getD_foldl_place (nonempty : 0 < buckets.size) (passed : List Entry) (bucket : Nat) :
    (passed.foldl (place hash) buckets).getD bucket [] =
      (passed.filter fun entry => bucketIndex (hash entry.key) buckets.size = bucket).reverse ++
        buckets.getD bucket [] := by
  induction passed generalizing buckets with
  | nil => rfl
  | cons entry rest ih =>
    have still : 0 < (place hash buckets entry).size := by simpa using nonempty
    rw [List.foldl_cons, ih still, size_place, getD_place nonempty]
    by_cases here : bucketIndex (hash entry.key) buckets.size = bucket
    · simp [here]
    · simp [here]

theorem getD_relink (old : Array Chain) {capacity : Nat} (nonempty : 0 < capacity) (bucket : Nat) :
    (relink hash old capacity).getD bucket [] =
      (old.toList.flatten.filter fun entry =>
        bucketIndex (hash entry.key) capacity = bucket).reverse := by
  have fresh : 0 < (Array.replicate capacity ([] : Chain)).size := by simpa using nonempty
  have nothing : (Array.replicate capacity ([] : Chain)).getD bucket [] = [] := by
    by_cases inside : bucket < capacity <;> simp [inside]
  rw [relink_eq_foldl, getD_foldl_place fresh, nothing, List.append_nil, Array.size_replicate]

theorem filter_flatten_eq_nil {chains : List Chain} {choose : Entry → Bool}
    (none : ∀ chain ∈ chains, ∀ entry ∈ chain, ¬ choose entry = true) :
    chains.flatten.filter choose = [] := by
  rw [List.filter_eq_nil_iff]
  intro entry member
  obtain ⟨chain, part, stands⟩ := List.mem_flatten.mp member
  exact none chain part entry stands

/-- Where all that is chosen belongs to one bucket, it is chosen from the chain of that bucket. -/
theorem Placed.filter_flatten (placed : Placed hash buckets) {choose : Entry → Bool} {bucket : Nat}
    (belongs : ∀ entry, choose entry = true →
      bucketIndex (hash entry.key) buckets.size = bucket) :
    buckets.toList.flatten.filter choose = (buckets.getD bucket []).filter choose := by
  have home : ∀ other (inside : other < buckets.toList.length), ∀ entry ∈ buckets.toList[other],
      choose entry = true → other = bucket := by
    intro other inside entry member chosen
    have size : other < buckets.size := by simpa using inside
    have stands : entry ∈ buckets.getD other [] := by simpa [size] using member
    exact (placed other entry stands).symm.trans (belongs entry chosen)
  by_cases inside : bucket < buckets.size
  · have position : bucket < buckets.toList.length := by simpa using inside
    -- Nothing is chosen from the chains before and behind.
    have before : (buckets.toList.take bucket).flatten.filter choose = [] := by
      refine filter_flatten_eq_nil fun chain part entry stands chosen => ?_
      obtain ⟨other, bound, rfl⟩ := List.mem_take_iff_getElem.mp part
      have same := home other (by omega) entry stands chosen
      omega
    have behind : (buckets.toList.drop (bucket + 1)).flatten.filter choose = [] := by
      refine filter_flatten_eq_nil fun chain part entry stands chosen => ?_
      obtain ⟨other, bound, rfl⟩ := List.mem_drop_iff_getElem.mp part
      have same := home (bucket + 1 + other) (by omega) entry stands chosen
      omega
    calc buckets.toList.flatten.filter choose
        = (buckets.toList.take bucket ++
            buckets.toList[bucket] :: buckets.toList.drop (bucket + 1)).flatten.filter choose := by
          rw [← List.drop_eq_getElem_cons position, List.take_append_drop]
      _ = buckets.toList[bucket].filter choose := by
          rw [List.flatten_append, List.flatten_cons, List.filter_append, List.filter_append,
            before, behind, List.nil_append, List.append_nil]
      _ = (buckets.getD bucket []).filter choose := by simp [inside]
  · -- There is no such bucket, and nothing is chosen at all.
    have nothing : buckets.toList.flatten.filter choose = [] := by
      refine filter_flatten_eq_nil fun chain part entry stands chosen => ?_
      obtain ⟨other, bound, rfl⟩ := List.mem_iff_getElem.mp part
      have same := home other bound entry stands chosen
      exact inside (by simpa [same] using bound)
    rw [nothing]
    simp [inside]

/-- A chain of twice the buckets is made from one old chain. -/
theorem Placed.getD_relink_double (placed : Placed hash buckets) {bucket : Nat}
    (inside : bucket < 2 * buckets.size) :
    (relink hash buckets (2 * buckets.size)).getD bucket [] =
      ((buckets.getD (bucket % buckets.size) []).filter fun entry =>
        bucketIndex (hash entry.key) (2 * buckets.size) = bucket).reverse := by
  rw [getD_relink buckets (by omega), placed.filter_flatten]
  intro entry chosen
  have goes : bucketIndex (hash entry.key) (2 * buckets.size) = bucket := by simpa using chosen
  rw [← bucketIndex_mod (hash entry.key) 2 buckets.size, goes]

/-- An old chain goes into two new ones and nowhere else. -/
theorem Placed.split_chain (placed : Placed hash buckets) {bucket : Nat}
    (inside : bucket < buckets.size) :
    ((relink hash buckets (2 * buckets.size)).getD bucket [] ++
      (relink hash buckets (2 * buckets.size)).getD (bucket + buckets.size) []).Perm
        (buckets.getD bucket []) := by
  have nonempty : 0 < buckets.size := by omega
  have kept : ∀ entry ∈ buckets.getD bucket [],
      decide (bucketIndex (hash entry.key) (2 * buckets.size) = bucket + buckets.size) =
        !decide (bucketIndex (hash entry.key) (2 * buckets.size) = bucket) := by
    intro entry member
    have home := placed bucket entry member
    rcases bucketIndex_double_eq (hash entry.key) nonempty with same | further
    · rw [same, home]
      simp only [decide_true, Bool.not_true, decide_eq_false_iff_not]
      omega
    · rw [further, home]
      simp only [decide_true, Bool.true_eq, Bool.not_eq_true', decide_eq_false_iff_not]
      omega
  rw [placed.getD_relink_double (by omega), placed.getD_relink_double (by omega),
    Nat.add_mod_right, Nat.mod_eq_of_lt inside, List.filter_congr kept]
  exact ((List.reverse_perm _).append (List.reverse_perm _)).trans (List.filter_append_perm _ _)

end Walk

variable {α : Type}

/-- A granted doubling makes each new chain from one old chain: from the entries that belong into
the new one, unchanged and in reverse order. An old chain is split between its bucket and the one
a capacity further, and no entry is lost or doubled. -/
theorem grow_splits_chains (memory : Memory) {table : Table α}
    (placed : Placed table.hash table.buckets) (granted : table.refusal? memory = none) :
    let grown := table.grow memory
    grown.capacity = 2 * table.capacity ∧
    (∀ bucket < 2 * table.capacity, grown.chainAt bucket =
      ((table.chainAt (bucket % table.capacity)).filter fun entry =>
        bucketIndex (table.hash entry.key) (2 * table.capacity) = bucket).reverse) ∧
    (∀ bucket < table.capacity,
      (grown.chainAt bucket ++ grown.chainAt (bucket + table.capacity)).Perm
        (table.chainAt bucket)) ∧
    grown.entries.Perm table.entries ∧
    grown.count = table.count := by
  intro grown
  have same : grown = table.doubled := grow_of_granted granted
  rw [same]
  refine ⟨capacity_doubled, fun bucket inside => placed.getD_relink_double inside,
    fun bucket inside => placed.split_chain inside, ?_, rfl⟩
  rcases Nat.eq_zero_or_pos table.capacity with none | nonempty
  · -- Without a bucket there is nothing to walk.
    have old : table.buckets = #[] := Array.eq_empty_of_size_eq_zero none
    simp [entries, doubled, relink, capacity, old]
  · exact entries_doubled nonempty

/-- Three buckets become six. The chain of four entries is split in two halves. -/
theorem grow_splits_chains_of_three :
    let memory := Memory.unbounded
    let table : Table Rat := (empty 3 5 fun key => key.toUInt64).extend memory
      [⟨1, 10⟩, ⟨4, 40⟩, ⟨7, 70⟩, ⟨2, 20⟩, ⟨10, 100⟩]
    let grown := table.grow memory
    Placed table.hash table.buckets ∧ table.refusal? memory = none ∧
      table.chainAt 1 = [⟨10, 100⟩, ⟨7, 70⟩, ⟨4, 40⟩, ⟨1, 10⟩] ∧
      grown.chainAt 1 = [⟨1, 10⟩, ⟨7, 70⟩] ∧ grown.chainAt 4 = [⟨4, 40⟩, ⟨10, 100⟩] ∧
      (grown.chainAt 1 ++ grown.chainAt 4).Perm (table.chainAt 1) := by
  intro memory table grown
  have wf : table.WellFormed := (wellFormed_empty (by decide) _ _).extend memory _
  have granted : table.refusal? memory = none := by decide +kernel
  have further : 1 + table.capacity = 4 := by decide +kernel
  obtain ⟨-, -, split, -, -⟩ := grow_splits_chains memory wf.placed granted
  have halves := split 1 (by decide +kernel)
  rw [further] at halves
  exact ⟨wf.placed, granted, by decide +kernel, by decide +kernel, by decide +kernel, halves⟩

end Table

end KeyPartitions
