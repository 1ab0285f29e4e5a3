import KeyPartitions.Proofs.Placement

/-!
# What one step can do

A put overwrites or prepends, and before it prepends it may double the buckets or be refused a
doubling. A removal unlinks and a lookup is counted, or they do nothing. For each operation one
lemma lists what it can do and when, and later proofs take it from there.
-/
namespace KeyPartitions.Table

variable {α : Type}

section Changes

variable {table : Table α}

/-- The table with twice the buckets. -/
def doubled (table : Table α) : Table α :=
  { table with
    buckets := relink table.hash table.buckets (2 * table.capacity)
    resizes := table.resizes + 1
    retryAt := 0 }

/-- The table after a refused doubling. -/
def refused (table : Table α) : Table α :=
  { table with
    failedResizes := table.failedResizes + 1
    retryAt := max (2 * table.count) (table.count + 1) }

/-- The table without a key that it has. -/
def unlinked (table : Table α) (key : Key) : Table α :=
  { table with
    buckets := table.buckets.modify (table.index key) (Chain.remove key)
    count := table.count - 1
    operations.removes := table.operations.removes + 1 }

@[simp] theorem capacity_overwrite {entry : Entry} :
    (table.overwrite entry).capacity = table.capacity :=
  Array.size_modify

@[simp] theorem capacity_prepend {entry : Entry} :
    (table.prepend entry).capacity = table.capacity :=
  size_place _ _ _

@[simp] theorem capacity_doubled : table.doubled.capacity = 2 * table.capacity :=
  size_relink _ _ _

@[simp] theorem capacity_unlinked {key : Key} :
    (table.unlinked key).capacity = table.capacity :=
  Array.size_modify

@[simp] theorem capacity_clear (table : Table α) : table.clear.capacity = table.capacity :=
  Array.size_replicate

end Changes

section Lookup

variable (table : Table α) (key : Key)

theorem get_cases :
    (table.find? key = none ∧ table.get key = (none, table)) ∨
    ∃ partition, table.find? key = some partition ∧
      table.get key = (some partition, table.countRead) := by
  unfold get
  cases table.find? key with
  | none => exact Or.inl ⟨rfl, rfl⟩
  | some partition => exact Or.inr ⟨partition, rfl, rfl⟩

theorem get_fst : (table.get key).1 = table.find? key := by
  rcases table.get_cases key with ⟨missing, answer⟩ | ⟨partition, found, answer⟩
  · rw [answer, missing]
  · rw [answer, found]

theorem get_snd_cases : (table.get key).2 = table ∨ (table.get key).2 = table.countRead := by
  rcases table.get_cases key with ⟨-, answer⟩ | ⟨partition, -, answer⟩
  · exact Or.inl (congrArg Prod.snd answer)
  · exact Or.inr (congrArg Prod.snd answer)

variable {table key} in
theorem remove_of_present (present : (table.find? key).isSome) :
    table.remove key = (true, table.unlinked key) :=
  if_pos present

variable {table key} in
theorem remove_of_absent (absent : table.find? key = none) : table.remove key = (false, table) := by
  simp [remove, absent]

theorem remove_cases :
    (table.find? key = none ∧ table.remove key = (false, table)) ∨
    ((table.find? key).isSome ∧ table.remove key = (true, table.unlinked key)) := by
  cases found : table.find? key with
  | none => exact Or.inl ⟨rfl, remove_of_absent found⟩
  | some partition => exact Or.inr ⟨rfl, remove_of_present (by rw [found]; rfl)⟩

theorem remove_fst : (table.remove key).1 = (table.find? key).isSome := by
  rcases table.remove_cases key with ⟨missing, answer⟩ | ⟨present, answer⟩
  · rw [answer, missing]; rfl
  · rw [answer, present]

theorem operations_get :
    (table.get key).2.operations =
      if (table.find? key).isSome then
        { table.operations with reads := table.operations.reads + 1 }
      else table.operations := by
  rcases table.get_cases key with ⟨missing, answer⟩ | ⟨partition, found, answer⟩
  · rw [answer, missing]; rfl
  · rw [answer, found]; rfl

theorem operations_remove :
    (table.remove key).2.operations =
      if (table.find? key).isSome then
        { table.operations with removes := table.operations.removes + 1 }
      else table.operations := by
  rcases table.remove_cases key with ⟨missing, answer⟩ | ⟨present, answer⟩
  · rw [answer, missing]; rfl
  · rw [answer, present]; rfl

end Lookup

section Growth

variable {memory : Memory} {table : Table α}

theorem grow_of_granted (granted : table.refusal? memory = none) :
    table.grow memory = table.doubled := by
  unfold grow
  rw [granted]
  rfl

theorem grow_of_refused {refusal : Refusal} (refused : table.refusal? memory = some refusal) :
    table.grow memory = table.refused := by
  unfold grow
  rw [refused]
  rfl

/-- Growth and its refusal have to do with buckets only. -/
@[simp] theorem operations_grow : (table.grow memory).operations = table.operations := by
  unfold grow
  split <;> rfl

variable [LoadScale α]

theorem makeRoom_cases (memory : Memory) (table : Table α) :
    (table.needsGrowth = false ∧ table.makeRoom memory = table) ∨
    (table.needsGrowth = true ∧ table.refusal? memory = none ∧
      table.makeRoom memory = table.doubled) ∨
    (table.needsGrowth = true ∧ (∃ refusal, table.refusal? memory = some refusal) ∧
      table.makeRoom memory = table.refused) := by
  unfold makeRoom
  cases needed : table.needsGrowth with
  | false => exact Or.inl ⟨rfl, if_neg Bool.false_ne_true⟩
  | true =>
    right
    rw [if_pos rfl]
    cases answer : table.refusal? memory with
    | none => exact Or.inl ⟨rfl, rfl, grow_of_granted answer⟩
    | some refusal => exact Or.inr ⟨rfl, ⟨refusal, rfl⟩, grow_of_refused answer⟩

@[simp] theorem count_makeRoom : (table.makeRoom memory).count = table.count := by
  rcases makeRoom_cases memory table with ⟨-, same⟩ | ⟨-, -, grown⟩ | ⟨-, -, kept⟩
  · rw [same]
  · rw [grown]; rfl
  · rw [kept]; rfl

@[simp] theorem operations_makeRoom :
    (table.makeRoom memory).operations = table.operations := by
  unfold makeRoom
  split
  next => exact operations_grow
  next => rfl

theorem put_of_present {entry : Entry} (present : (table.find? entry.key).isSome) :
    table.put memory entry = table.overwrite entry :=
  if_pos present

theorem put_of_absent {entry : Entry} (absent : table.find? entry.key = none) :
    table.put memory entry = (table.makeRoom memory).prepend entry := by
  simp [put, absent]

theorem count_put_of_absent {entry : Entry} (absent : table.find? entry.key = none) :
    (table.put memory entry).count = table.count + 1 := by
  rw [put_of_absent absent]
  exact congrArg Nat.succ count_makeRoom

theorem put_cases (memory : Memory) (table : Table α) (entry : Entry) :
    ((table.find? entry.key).isSome ∧ table.put memory entry = table.overwrite entry) ∨
    (table.find? entry.key = none ∧
      table.put memory entry = (table.makeRoom memory).prepend entry) := by
  cases found : table.find? entry.key with
  | none => exact Or.inr ⟨rfl, put_of_absent found⟩
  | some partition => exact Or.inl ⟨rfl, put_of_present (by rw [found]; rfl)⟩

/-- A put counts once, whether it overwrites or adds. -/
theorem operations_put {entry : Entry} :
    (table.put memory entry).operations =
      { table.operations with writes := table.operations.writes + 1 } := by
  rcases put_cases memory table entry with ⟨-, changed⟩ | ⟨-, added⟩
  · rw [changed]; rfl
  · rw [added, prepend, operations_makeRoom]

theorem operations_extend (entries : List Entry) :
    (table.extend memory entries).operations =
      { table.operations with writes := table.operations.writes + entries.length } := by
  induction entries generalizing table with
  | nil => rfl
  | cons entry rest ih =>
    have first :
        table.extend memory (entry :: rest) = (table.put memory entry).extend memory rest := rfl
    rw [first, ih, operations_put, List.length_cons, Nat.add_assoc, Nat.add_comm 1]

end Growth

end KeyPartitions.Table
