import KeyPartitions.Proofs.BackingOff

/-!
# The order of arrival

A key arrives with the put that finds it absent, and it stays until it is removed or the table is
cleared. The keys of a chain that arrived since the last doubling stand in front, the last one
first, and behind them those that were there when the buckets were doubled, in the order that was
left then. A step brings at most one key, to the front of its chain, and it keeps the order of those
that stay; a doubling begins the order anew. So the order is kept along every run.
-/
namespace KeyPartitions

theorem Operation.single_of_mem_steps {operations : List Operation} :
    ∀ step ∈ operations.flatMap Operation.steps, ∀ entries, step ≠ .extend entries := by
  rintro step member entries rfl
  obtain ⟨operation, -, part⟩ := List.mem_flatMap.mp member
  cases operation <;> simp [steps] at part

namespace Table

variable {α : Type}

/-- Whether the table has an entry of the key. -/
def has (table : Table α) (key : Key) : Bool := (table.find? key).isSome

def keysAt (table : Table α) (bucket : Nat) : List Key := (table.chainAt bucket).map Entry.key

/-! ### Chains along one change -/

section Chains

variable {table : Table α}

theorem WellFormed.has_of_mem_keysAt (wf : table.WellFormed) {key : Key} {bucket : Nat}
    (member : key ∈ table.keysAt bucket) : table.has key = true ∧ table.index key = bucket := by
  obtain ⟨entry, stands, rfl⟩ := List.mem_map.mp member
  have among : entry ∈ table.entries := mem_flatten_iff.mpr ⟨bucket, stands⟩
  exact ⟨wf.find?_isSome_iff.mpr ⟨entry, among, rfl⟩, wf.placed bucket entry stands⟩

/-- A doubling brings in no key. -/
theorem WellFormed.has_of_mem_keysAt_doubled (wf : table.WellFormed) {key : Key} {bucket : Nat}
    (member : key ∈ table.doubled.keysAt bucket) : table.has key = true := by
  obtain ⟨entry, stands, rfl⟩ := List.mem_map.mp member
  have among := (entries_doubled wf.nonempty).mem_iff.mp (mem_flatten_iff.mpr ⟨bucket, stands⟩)
  exact wf.find?_isSome_iff.mpr ⟨entry, among, rfl⟩

/-- A change of all chains that does nothing where there is no bucket. -/
theorem chainAt_of_buckets_eq_map {after : Table α} {everywhere : Chain → Chain}
    (changed : after.buckets = table.buckets.map everywhere) (nothing : everywhere [] = [])
    (bucket : Nat) : after.chainAt bucket = everywhere (table.chainAt bucket) := by
  by_cases inside : bucket < table.buckets.size <;> simp [chainAt, changed, inside, nothing]

theorem WellFormed.chainAt_overwrite (wf : table.WellFormed) (entry : Entry) (bucket : Nat) :
    (table.overwrite entry).chainAt bucket =
      (table.chainAt bucket).map (Chain.renew entry) :=
  chainAt_of_buckets_eq_map wf.buckets_overwrite rfl bucket

theorem WellFormed.chainAt_remove (wf : table.WellFormed) (key : Key) (bucket : Nat) :
    (table.remove key).2.chainAt bucket = Chain.without key (table.chainAt bucket) := by
  rcases table.remove_cases key with ⟨absent, same⟩ | ⟨-, unlinked⟩
  · have others := wf.find?_eq_none_iff.mp absent
    rw [same, Chain.without_of_absent]
    exact fun entry stands => others entry (mem_flatten_iff.mpr ⟨bucket, stands⟩)
  · rw [unlinked]
    exact chainAt_of_buckets_eq_map (wf.buckets_unlinked key) rfl bucket

theorem chainAt_clear (table : Table α) (bucket : Nat) : table.clear.chainAt bucket = [] := by
  by_cases inside : bucket < table.capacity <;> simp [chainAt, clear, inside]

theorem chainAt_get (table : Table α) (key : Key) (bucket : Nat) :
    (table.get key).2.chainAt bucket = table.chainAt bucket := by
  rcases table.get_snd_cases key with same | counted
  · rw [same]
  · rw [counted]; rfl

theorem has_get (table : Table α) (key other : Key) :
    (table.get key).2.has other = table.has other := by
  rcases table.get_snd_cases key with same | counted
  · rw [same]
  · rw [counted]; rfl

theorem WellFormed.has_remove (wf : table.WellFormed) (key other : Key) :
    (table.remove key).2.has other = (decide (other ≠ key) && table.has other) := by
  rw [has, wf.find?_remove, has]
  by_cases same : key = other <;> simp [same, Ne.symm]

@[simp] theorem has_clear (table : Table α) (key : Key) : table.clear.has key = false := by
  simp [has, find?, chainAt_clear]

theorem keysAt_prepend (nonempty : 0 < table.capacity) (entry : Entry) (bucket : Nat) :
    (table.prepend entry).keysAt bucket =
      ([entry.key].filter fun key => table.index key = bucket) ++ table.keysAt bucket := by
  rw [keysAt, chainAt_prepend table nonempty, keysAt]
  by_cases here : table.index entry.key = bucket <;> simp [here, Ne.symm]

/-- Where no key is lost none is left out. -/
theorem WellFormed.filter_keysAt (wf : table.WellFormed) {keep : Key → Bool}
    (stays : ∀ key, table.has key = true → keep key = true) (bucket : Nat) :
    (table.keysAt bucket).filter keep = table.keysAt bucket :=
  List.filter_eq_self.mpr fun key member => stays key (wf.has_of_mem_keysAt member).1

end Chains

/-! ### Chains along one step -/

section Step

variable {table : Table α}

/-- The key that arrives with a step. -/
def brings? (table : Table α) : Operation → Option Key
  | .put entry => if table.has entry.key then none else some entry.key
  | _ => none

theorem eq_put_of_brings? {step : Operation} {key : Key}
    (brought : table.brings? step = some key) : ∃ partition, step = .put ⟨key, partition⟩ := by
  cases step with
  | put entry =>
    obtain ⟨-, rfl⟩ : ¬ table.has entry.key = true ∧ entry.key = key := by
      simpa [brings?] using brought
    exact ⟨entry.partition, rfl⟩
  | _ => exact absurd brought (Option.some_ne_none key).symm

variable [LoadScale α] {memory : Memory}

theorem WellFormed.has_put (wf : table.WellFormed) (entry : Entry) (key : Key) :
    (table.put memory entry).has key = (decide (key = entry.key) || table.has key) := by
  rw [has, wf.find?_put, has]
  by_cases same : entry.key = key <;> simp [same, Ne.symm]

/-- What arrives with a single step is there behind it and was not there before. -/
theorem WellFormed.brings?_eq_some_iff (wf : table.WellFormed) {step : Operation}
    (single : ∀ entries, step ≠ .extend entries) {key : Key} :
    table.brings? step = some key ↔
      table.has key = false ∧ (table.perform memory step).2.has key = true := by
  cases step with
  | put entry =>
    change (if table.has entry.key then none else some entry.key) = some key ↔
      table.has key = false ∧ (table.put memory entry).has key = true
    rw [wf.has_put]
    by_cases same : key = entry.key
    · subst same
      cases table.has entry.key <;> simp
    · cases there : table.has entry.key <;> cases table.has key <;> simp [same, Ne.symm same]
  | extend entries => exact absurd rfl (single entries)
  | remove other =>
    change none = some key ↔ table.has key = false ∧ (table.remove other).2.has key = true
    rw [wf.has_remove]
    cases table.has key <;> simp
  | get other | getOrNotFound other | contains other =>
    change none = some key ↔ table.has key = false ∧ (table.get other).2.has key = true
    rw [has_get]
    cases table.has key <;> simp
  | clear =>
    change none = some key ↔ table.has key = false ∧ table.clear.has key = true
    simp

/-- A single step keeps the buckets as many as they are, or it puts an absent key behind a
doubling. -/
theorem perform_doubling_cases (memory : Memory) (table : Table α) {step : Operation}
    (single : ∀ entries, step ≠ .extend entries) :
    let after := (table.perform memory step).2
    (after.resizes = table.resizes ∧ after.capacity = table.capacity) ∨
    (after.resizes ≠ table.resizes ∧ ∃ entry, step = .put entry ∧ table.find? entry.key = none ∧
      table.makeRoom memory = table.doubled ∧ after = table.doubled.prepend entry) := by
  have looked (key : Key) : (table.get key).2.resizes = table.resizes ∧
      (table.get key).2.capacity = table.capacity := by
    rcases table.get_snd_cases key with same | counted
    · rw [same]; exact ⟨rfl, rfl⟩
    · rw [counted]; exact ⟨rfl, rfl⟩
  intro after
  cases step with
  | put entry =>
    have done : after = table.put memory entry := rfl
    rw [done]
    rcases put_cases memory table entry with ⟨-, changed⟩ | ⟨absent, added⟩
    · rw [changed]
      exact Or.inl ⟨rfl, capacity_overwrite⟩
    · rw [added, capacity_prepend]
      rcases makeRoom_cases memory table with ⟨-, same⟩ | ⟨-, -, grown⟩ | ⟨-, -, kept⟩
      · rw [same]; exact Or.inl ⟨rfl, rfl⟩
      · exact Or.inr ⟨by rw [grown]; exact Nat.succ_ne_self _, entry, rfl, absent, grown,
          by rw [grown]⟩
      · rw [kept]; exact Or.inl ⟨rfl, rfl⟩
  | extend entries => exact absurd rfl (single entries)
  | remove key =>
    left
    change (table.remove key).2.resizes = _ ∧ (table.remove key).2.capacity = _
    rcases table.remove_cases key with ⟨-, same⟩ | ⟨-, unlinked⟩
    · rw [same]; exact ⟨rfl, rfl⟩
    · rw [unlinked, capacity_unlinked]; exact ⟨rfl, rfl⟩
  | get key => exact Or.inl (looked key)
  | getOrNotFound key => exact Or.inl (looked key)
  | contains key => exact Or.inl (looked key)
  | clear => exact Or.inl ⟨rfl, capacity_clear table⟩

/-- Making room without a doubling does nothing to the chains. -/
theorem buckets_makeRoom (ungrown : (table.makeRoom memory).resizes = table.resizes) :
    (table.makeRoom memory).buckets = table.buckets := by
  rcases makeRoom_cases memory table with ⟨-, same⟩ | ⟨-, -, grown⟩ | ⟨-, -, kept⟩
  · rw [same]
  · rw [grown] at ungrown
    exact absurd ungrown (Nat.succ_ne_self _)
  · rw [kept]; rfl

theorem index_perform {step : Operation}
    (same : (table.perform memory step).2.capacity = table.capacity) (key : Key) :
    (table.perform memory step).2.index key = table.index key := by
  have hash : (table.perform memory step).2.hash = table.hash := (run_keeps_settings [step]).1
  rw [index, index, same, hash]

/-- A step without a doubling puts the key that it brings to the front of its chain, and of the keys
of every chain it keeps those that are still there, in their order. -/
theorem WellFormed.keysAt_perform (wf : table.WellFormed) {step : Operation}
    (single : ∀ entries, step ≠ .extend entries)
    (ungrown : (table.perform memory step).2.resizes = table.resizes) (bucket : Nat) :
    let after := (table.perform memory step).2
    after.keysAt bucket =
      ((table.brings? step).toList.filter fun key => table.index key = bucket) ++
        (table.keysAt bucket).filter after.has := by
  intro after
  cases step with
  | put entry =>
    have done : after = table.put memory entry := rfl
    have stays (key : Key) (there : table.has key = true) : after.has key = true := by
      rw [done, wf.has_put, there, Bool.or_true]
    rw [wf.filter_keysAt stays]
    rcases put_cases memory table entry with ⟨present, changed⟩ | ⟨absent, added⟩
    · have brought : table.brings? (.put entry) = none := if_pos present
      rw [done, changed, brought, keysAt, wf.chainAt_overwrite, Chain.map_key_renew]
      rfl
    · have brought : table.brings? (.put entry) = some entry.key := by simp [brings?, has, absent]
      -- The resizes tell that room was made without a doubling, if it was made at all.
      have room : (table.makeRoom memory).buckets = table.buckets := by
        refine buckets_makeRoom (Eq.trans ?_ ungrown)
        change _ = (table.put memory entry).resizes
        rw [added]
        rfl
      have index : (table.makeRoom memory).index = table.index := by
        funext key
        rw [index, index, capacity, room, (makeRoom_keeps_settings memory table).1, capacity]
      rw [done, added, brought, keysAt_prepend wf.makeRoom.nonempty, index, keysAt, chainAt, room]
      rfl
  | extend entries => exact absurd rfl (single entries)
  | remove key =>
    have done : after = (table.remove key).2 := rfl
    have others : (table.keysAt bucket).filter after.has =
        (table.keysAt bucket).filter fun other => other ≠ key := by
      refine List.filter_congr fun other member => ?_
      rw [done, wf.has_remove, (wf.has_of_mem_keysAt member).1, Bool.and_true]
    rw [others, done, keysAt, wf.chainAt_remove, Chain.without, keysAt, List.filter_map]
    rfl
  | get key | getOrNotFound key | contains key =>
    have done : after = (table.get key).2 := rfl
    have stays (other : Key) (there : table.has other = true) : after.has other = true := by
      rwa [done, has_get]
    rw [wf.filter_keysAt stays, done, keysAt, chainAt_get]
    rfl
  | clear =>
    have done : after = table.clear := rfl
    rw [done, keysAt, chainAt_clear]
    simp [brings?]

end Step

/-! ### Arrivals

A past is the list of the single steps so far, the last one first. The time of a step is the number
of the steps before it. -/

section Past

variable [LoadScale α] (memory : Memory) (start : Table α)

/-- The table behind a past. -/
def behind (past : List Operation) : Table α := start.run memory past.reverse

theorem behind_cons (step : Operation) (past : List Operation) :
    start.behind memory (step :: past) = ((start.behind memory past).perform memory step).2 := by
  rw [behind, List.reverse_cons, run_append]
  rfl

/-- Whether the last step doubled the buckets. -/
def Doubled (step : Operation) (past : List Operation) : Prop :=
  (start.behind memory (step :: past)).resizes ≠ (start.behind memory past).resizes

instance (step : Operation) (past : List Operation) : Decidable (Doubled memory start step past) :=
  inferInstanceAs (Decidable (_ ≠ _))

/-- The time since which a key has been there; nothing where it is not. -/
def arrival? (key : Key) : List Operation → Option Nat
  | [] => none
  | step :: past =>
    if (start.behind memory (step :: past)).has key then
      if (start.behind memory past).has key then arrival? key past else some past.length
    else none

/-- The time of the last doubling, or of the beginning. -/
def lastDoubling : List Operation → Nat
  | [] => 0
  | step :: past => if Doubled memory start step past then past.length else lastDoubling past

/-- The keys of a bucket as the last doubling left them, before its put went on. At the beginning
there are none. -/
def leftKeys (bucket : Nat) : List Operation → List Key
  | [] => []
  | step :: past =>
    if Doubled memory start step past then
      ((start.behind memory past).makeRoom memory).keysAt bucket
    else leftKeys bucket past

/-- Whether a key has been there since before the last doubling. -/
def survives (past : List Operation) (key : Key) : Bool :=
  (arrival? memory start key past).any (· < lastDoubling memory start past)

/-- The keys of a chain in the order of their arrival: in front those that arrived since the last
doubling, the last one first, and then the others as that doubling left them. -/
structure InOrder (past : List Operation) (bucket : Nat) (recent : List Key) : Prop where
  keys : (start.behind memory past).keysAt bucket =
    recent ++ (leftKeys memory start bucket past).filter (survives memory start past)
  newest : recent.Pairwise fun newer older => ∃ late early,
    arrival? memory start newer past = some late ∧ arrival? memory start older past = some early ∧
      early < late
  members : ∀ key, key ∈ recent ↔ (start.behind memory past).index key = bucket ∧
    ∃ time, arrival? memory start key past = some time ∧ lastDoubling memory start past ≤ time

variable {memory start} {past : List Operation} {key : Key}

theorem arrival?_lt {time : Nat} (came : arrival? memory start key past = some time) :
    time < past.length := by
  induction past with
  | nil => cases came
  | cons step past ih =>
    rw [List.length_cons]
    unfold arrival? at came
    split at came
    next =>
      split at came
      next => exact Nat.lt_succ_of_lt (ih came)
      next =>
        cases came
        exact Nat.lt_succ_self _
    next => cases came

theorem lastDoubling_le (past : List Operation) :
    lastDoubling memory start past ≤ past.length := by
  induction past with
  | nil => exact Nat.le_refl _
  | cons step past ih =>
    rw [List.length_cons]
    unfold lastDoubling
    split
    next => exact Nat.le_succ _
    next => exact Nat.le_succ_of_le ih

omit [LoadScale α] in
theorem has_empty (capacity : Nat) (loadLimit : α) (hash : Key → UInt64) (key : Key) :
    (empty capacity loadLimit hash).has key = false := by
  have nothing (bucket : Nat) : (empty capacity loadLimit hash).chainAt bucket = [] := by
    by_cases inside : bucket < capacity <;> simp [chainAt, empty, inside]
  rw [has, find?, nothing]
  rfl

theorem Made.has_eq_false (made : Made memory start) (key : Key) : start.has key = false := by
  rw [made.eq_empty.2]
  exact has_empty _ _ _ key

/-- A key has a time of arrival just while it is there. -/
theorem isSome_arrival? (empty : ∀ key, start.has key = false) (past : List Operation) (key : Key) :
    (arrival? memory start key past).isSome = (start.behind memory past).has key := by
  induction past with
  | nil => exact (empty key).symm
  | cons step past ih =>
    unfold arrival?
    cases (start.behind memory (step :: past)).has key with
    | false => rfl
    | true =>
      cases there : (start.behind memory past).has key with
      | false => rfl
      | true => exact ih.trans there

theorem has_of_arrival? (empty : ∀ key, start.has key = false) {time : Nat}
    (came : arrival? memory start key past = some time) :
    (start.behind memory past).has key = true := by
  rw [← isSome_arrival? empty, came]
  rfl

section Arrival

variable {step : Operation}

theorem arrival?_cons_of_gone (gone : (start.behind memory (step :: past)).has key = false) :
    arrival? memory start key (step :: past) = none := by
  simp [arrival?, gone]

theorem arrival?_cons_of_new (now : (start.behind memory (step :: past)).has key = true)
    (new : (start.behind memory past).has key = false) :
    arrival? memory start key (step :: past) = some past.length := by
  simp [arrival?, now, new]

theorem arrival?_cons_of_there (now : (start.behind memory (step :: past)).has key = true)
    (there : (start.behind memory past).has key = true) :
    arrival? memory start key (step :: past) = arrival? memory start key past := by
  simp [arrival?, now, there]

/-- Behind a step without a doubling those survive that did before and are still there. -/
theorem survives_cons (empty : ∀ key, start.has key = false)
    (kept : ¬ Doubled memory start step past) (key : Key) :
    survives memory start (step :: past) key =
      ((start.behind memory (step :: past)).has key && survives memory start past key) := by
  have last : lastDoubling memory start (step :: past) = lastDoubling memory start past :=
    if_neg kept
  unfold survives
  rw [last]
  cases now : (start.behind memory (step :: past)).has key with
  | false => rw [arrival?_cons_of_gone now]; rfl
  | true =>
    rw [Bool.true_and]
    cases there : (start.behind memory past).has key with
    | true => rw [arrival?_cons_of_there now there]
    | false =>
      -- What arrives now arrives behind the last doubling, and it was not there to survive.
      have none : arrival? memory start key past = none := by
        rw [← Option.not_isSome_iff_eq_none, isSome_arrival? empty, there]
        exact Bool.false_ne_true
      have late : lastDoubling memory start past ≤ past.length := lastDoubling_le past
      rw [arrival?_cons_of_new now there, none]
      simpa using late

end Arrival

/-! ### One more step -/

section Next

variable {step : Operation} {bucket : Nat}

theorem InOrder.next (wf : (start.behind memory past).WellFormed)
    (empty : ∀ key, start.has key = false) (single : ∀ entries, step ≠ .extend entries)
    (kept : ¬ Doubled memory start step past) {recent : List Key}
    (order : InOrder memory start past bucket recent) :
    InOrder memory start (step :: past) bucket
      ((((start.behind memory past).brings? step).toList.filter fun key =>
          (start.behind memory past).index key = bucket) ++
        recent.filter (start.behind memory (step :: past)).has) := by
  have done := start.behind_cons memory step past
  have ungrown : ((start.behind memory past).perform memory step).2.resizes =
      (start.behind memory past).resizes := done ▸ not_not.mp kept
  have last : lastDoubling memory start (step :: past) = lastDoubling memory start past :=
    if_neg kept
  have left : leftKeys memory start bucket (step :: past) = leftKeys memory start bucket past :=
    if_neg kept
  have brought (key : Key) : (start.behind memory past).brings? step = some key ↔
      (start.behind memory past).has key = false ∧
        (start.behind memory (step :: past)).has key = true := by
    rw [done]
    exact wf.brings?_eq_some_iff single
  have index (key : Key) : (start.behind memory (step :: past)).index key =
      (start.behind memory past).index key := by
    rw [done]
    rcases perform_doubling_cases memory (start.behind memory past) single with
      ⟨-, capacity⟩ | ⟨grown, -⟩
    · exact index_perform capacity key
    · exact absurd ungrown grown
  have there (key : Key) (member : key ∈ recent) : (start.behind memory past).has key = true := by
    obtain ⟨-, time, came, -⟩ := (order.members key).mp member
    exact has_of_arrival? empty came
  have added (key : Key) : key ∈ (((start.behind memory past).brings? step).toList.filter fun key =>
      (start.behind memory past).index key = bucket) ↔
      ((start.behind memory past).has key = false ∧
        (start.behind memory (step :: past)).has key = true) ∧
        (start.behind memory past).index key = bucket := by
    rw [List.mem_filter, Option.mem_toList, brought, decide_eq_true_iff]
  refine ⟨?keys, ?newest, ?members⟩
  case keys =>
    have chain := wf.keysAt_perform single ungrown bucket
    rw [← done] at chain
    rw [chain, order.keys, List.filter_append, List.filter_filter, left, List.append_assoc,
      funext (survives_cons empty kept)]
  case newest =>
    refine List.pairwise_append.mpr ⟨?_, ?_, ?_⟩
    · cases (start.behind memory past).brings? step with
      | none => exact List.Pairwise.nil
      | some key => exact (List.pairwise_singleton _ key).filter _
    · refine (order.newest.filter _).imp_of_mem fun newer older relation => ?_
      obtain ⟨newerIn, newerNow⟩ := List.mem_filter.mp newer
      obtain ⟨olderIn, olderNow⟩ := List.mem_filter.mp older
      rwa [arrival?_cons_of_there newerNow (there _ newerIn),
        arrival?_cons_of_there olderNow (there _ olderIn)]
    · -- What came before came at an earlier time.
      intro newer new older old
      obtain ⟨⟨absent, now⟩, -⟩ := (added newer).mp new
      obtain ⟨member, still⟩ := List.mem_filter.mp old
      obtain ⟨-, time, came, -⟩ := (order.members older).mp member
      refine ⟨past.length, time, arrival?_cons_of_new now absent, ?_, arrival?_lt came⟩
      rw [arrival?_cons_of_there still (there older member), came]
  case members =>
    intro key
    rw [List.mem_append, added, List.mem_filter, order.members, index, last]
    constructor
    · rintro (⟨⟨absent, now⟩, home⟩ | ⟨⟨home, time, came, since⟩, now⟩)
      · exact ⟨home, past.length, arrival?_cons_of_new now absent, lastDoubling_le past⟩
      · have stood : (start.behind memory past).has key = true := has_of_arrival? empty came
        exact ⟨home, time, (arrival?_cons_of_there now stood).trans came, since⟩
    · -- What is there came with this step, or it is there with its old time.
      rintro ⟨home, time, came, since⟩
      have now : (start.behind memory (step :: past)).has key = true := has_of_arrival? empty came
      cases stood : (start.behind memory past).has key with
      | false => exact Or.inl ⟨⟨rfl, now⟩, home⟩
      | true =>
        rw [arrival?_cons_of_there now stood] at came
        exact Or.inr ⟨⟨home, time, came, since⟩, now⟩

/-- A doubling begins the order anew. The key of its put is the only one that came since. -/
theorem inOrder_of_doubled (wf : (start.behind memory past).WellFormed)
    (empty : ∀ key, start.has key = false) (single : ∀ entries, step ≠ .extend entries)
    (grew : Doubled memory start step past) (bucket : Nat) :
    ∃ recent, InOrder memory start (step :: past) bucket recent := by
  have done := start.behind_cons memory step past
  have grown : ((start.behind memory past).perform memory step).2.resizes ≠
      (start.behind memory past).resizes := done ▸ grew
  obtain ⟨-, entry, rfl, absent, room, after⟩ :=
    (perform_doubling_cases memory (start.behind memory past) single).resolve_left
      fun same => grown same.1
  have has (key : Key) : (start.behind memory (.put entry :: past)).has key =
      (decide (key = entry.key) || (start.behind memory past).has key) := by
    rw [done]
    exact wf.has_put entry key
  rw [← done] at after
  have index (key : Key) : (start.behind memory (.put entry :: past)).index key =
      (start.behind memory past).doubled.index key := by
    rw [after, Table.index, Table.index, capacity_prepend]
    rfl
  have last : lastDoubling memory start (.put entry :: past) = past.length := if_pos grew
  have left : leftKeys memory start bucket (.put entry :: past) =
      (start.behind memory past).doubled.keysAt bucket := by
    rw [← room]
    exact if_pos grew
  have missing : (start.behind memory past).has entry.key = false := by
    rw [Table.has, absent]
    rfl
  refine ⟨[entry.key].filter fun key => (start.behind memory past).doubled.index key = bucket,
    ?keys, ?newest, ?members⟩
  case keys =>
    -- All that were there when the buckets were doubled survive the put.
    have all : (leftKeys memory start bucket (.put entry :: past)).filter
        (survives memory start (.put entry :: past)) =
          leftKeys memory start bucket (.put entry :: past) := by
      refine List.filter_eq_self.mpr fun key member => ?_
      rw [left] at member
      have stood : (start.behind memory past).has key = true :=
        wf.has_of_mem_keysAt_doubled member
      have now : (start.behind memory (.put entry :: past)).has key = true := by
        rw [has, stood, Bool.or_true]
      have came : (arrival? memory start key past).isSome := by
        rw [isSome_arrival? empty, stood]
      obtain ⟨time, came⟩ := Option.isSome_iff_exists.mp came
      rw [survives, last, arrival?_cons_of_there now stood, came]
      simpa using arrival?_lt came
    rw [all, left, after, keysAt_prepend wf.doubled.nonempty]
  case newest => exact (List.pairwise_singleton _ entry.key).filter _
  case members =>
    intro key
    rw [List.mem_filter, List.mem_singleton, decide_eq_true_iff, index, last]
    constructor
    · rintro ⟨rfl, home⟩
      have now : (start.behind memory (.put entry :: past)).has entry.key = true := by simp [has]
      exact ⟨home, past.length, arrival?_cons_of_new now missing, Nat.le_refl _⟩
    · rintro ⟨home, time, came, since⟩
      have now : (start.behind memory (.put entry :: past)).has key = true :=
        has_of_arrival? empty came
      cases stood : (start.behind memory past).has key with
      | false =>
        rw [has, stood, Bool.or_false, decide_eq_true_iff] at now
        exact ⟨now, home⟩
      | true =>
        -- What was there before came before the doubling.
        rw [arrival?_cons_of_there now stood] at came
        exact absurd (arrival?_lt came) (Nat.not_lt.mpr since)

end Next

theorem exists_inOrder (made : Made memory start)
    (single : ∀ step ∈ past, ∀ entries, step ≠ .extend entries) (bucket : Nat) :
    ∃ recent, InOrder memory start past bucket recent := by
  have empty := made.has_eq_false
  induction past with
  | nil =>
    have nothing : start.keysAt bucket = [] := by
      refine List.eq_nil_iff_forall_not_mem.mpr fun key member => ?_
      have there := (made.wellFormed.has_of_mem_keysAt member).1
      rw [empty] at there
      cases there
    exact ⟨[], nothing, .nil, by simp [arrival?]⟩
  | cons step past ih =>
    have wf : (start.behind memory past).WellFormed := made.wellFormed.run memory past.reverse
    have now := single step List.mem_cons_self
    obtain ⟨recent, order⟩ := ih fun other member => single other (List.mem_cons_of_mem step member)
    by_cases grew : Doubled memory start step past
    · exact inOrder_of_doubled wf empty now grew bucket
    · exact ⟨_, order.next wf empty now grew⟩

/-- What the time of a key's arrival says: there the key was put while it was absent, and it has
been there ever since. -/
structure Arrived (memory : Memory) (start : Table α) (steps : List Operation) (key : Key)
    (time : Nat) : Prop where
  put : ∃ partition, steps[time]? = some (.put ⟨key, partition⟩)
  absent : (start.run memory (steps.take time)).has key = false
  since : ∀ later, time < later → later ≤ steps.length →
    (start.run memory (steps.take later)).has key = true

theorem arrived_of_arrival? (made : Made memory start)
    (single : ∀ step ∈ past, ∀ entries, step ≠ .extend entries) {time : Nat}
    (came : arrival? memory start key past = some time) :
    Arrived memory start past.reverse key time := by
  induction past with
  | nil => cases came
  | cons step past ih =>
    have now : (start.behind memory (step :: past)).has key = true :=
      has_of_arrival? made.has_eq_false came
    -- The steps up to a time of the past are the same with one more behind them.
    have early {time : Nat} (within : time ≤ past.length) :
        (step :: past).reverse.take time = past.reverse.take time := by
      rw [List.reverse_cons, List.take_append_of_le_length (by simpa using within)]
    have all : (step :: past).reverse.take (past.length + 1) = (step :: past).reverse :=
      List.take_of_length_le (by simp)
    cases there : (start.behind memory past).has key with
    | false =>
      rw [arrival?_cons_of_new now there] at came
      cases came
      have wf : (start.behind memory past).WellFormed := made.wellFormed.run memory past.reverse
      have brought := (wf.brings?_eq_some_iff (single step List.mem_cons_self)).mpr
        ⟨there, start.behind_cons memory step past ▸ now⟩
      obtain ⟨partition, rfl⟩ := eq_put_of_brings? brought
      refine ⟨⟨partition, by simp⟩, ?_, fun later after within => ?_⟩
      · rw [early (Nat.le_refl _), List.take_of_length_le (by simp)]
        exact there
      · obtain rfl : later = past.length + 1 := by
          rw [List.length_reverse, List.length_cons] at within
          omega
        rw [all]
        exact now
    | true =>
      rw [arrival?_cons_of_there now there] at came
      have before := arrival?_lt came
      obtain ⟨⟨partition, put⟩, absent, since⟩ :=
        ih (fun other member => single other (List.mem_cons_of_mem step member)) came
      refine ⟨⟨partition, ?_⟩, ?_, fun later after within => ?_⟩
      · rw [List.reverse_cons, List.getElem?_append_left (by simpa using before), put]
      · rw [early before.le, absent]
      · rcases Nat.lt_or_ge past.length later with last | inside
        · obtain rfl : later = past.length + 1 := by
            rw [List.length_reverse, List.length_cons] at within
            omega
          rw [all]
          exact now
        · rw [early inside]
          exact since later after (by simpa using inside)

end Past

/-! ### What moves entries -/

/-- What the operations do to the order of the chains. -/
structure KeepsOrder [LoadScale α] (memory : Memory) (table : Table α) : Prop where
  /-- A put of a present key gives it a new partition where it stands. -/
  update : ∀ entry, table.has entry.key = true → ∀ bucket,
    (table.put memory entry).chainAt bucket = (table.chainAt bucket).map (Chain.renew entry)
  /-- A refused doubling moves nothing. -/
  refusal : table.refusal? memory ≠ none → ∀ bucket,
    (table.grow memory).chainAt bucket = table.chainAt bucket
  /-- A removal leaves the others in their order. -/
  removal : ∀ key bucket,
    (table.remove key).2.chainAt bucket = Chain.without key (table.chainAt bucket)
  /-- A put of an absent key makes room, and then it goes to the front of its chain. -/
  front : ∀ entry, table.has entry.key = false → ∀ bucket,
    (table.put memory entry).chainAt bucket =
      if bucket = (table.makeRoom memory).index entry.key then
        entry :: (table.makeRoom memory).chainAt bucket
      else (table.makeRoom memory).chainAt bucket
  /-- A key that is removed and put again stands in front. -/
  again : ∀ entry,
    let after := (table.remove entry.key).2.put memory entry
    (after.chainAt (after.index entry.key)).head? = some entry

section Order

variable [LoadScale α] {memory : Memory} {table : Table α}

theorem WellFormed.chainAt_put_of_absent (wf : table.WellFormed) {entry : Entry}
    (absent : table.find? entry.key = none) (bucket : Nat) :
    (table.put memory entry).chainAt bucket =
      if bucket = (table.makeRoom memory).index entry.key then
        entry :: (table.makeRoom memory).chainAt bucket
      else (table.makeRoom memory).chainAt bucket := by
  rw [put_of_absent absent, chainAt_prepend _ wf.makeRoom.nonempty]

theorem WellFormed.keepsOrder (wf : table.WellFormed) (memory : Memory) :
    table.KeepsOrder memory where
  update entry present := by
    rw [put_of_present present]
    exact wf.chainAt_overwrite entry
  refusal refused bucket := by
    obtain ⟨refusal, refused⟩ := Option.ne_none_iff_exists'.mp refused
    rw [grow_of_refused refused]
    rfl
  removal := wf.chainAt_remove
  front entry absent := by
    have missing : table.find? entry.key = none := by simpa [has] using absent
    exact wf.chainAt_put_of_absent missing
  again entry := by
    intro after
    have gone : (table.remove entry.key).2.find? entry.key = none := by
      rw [wf.find?_remove, if_pos rfl]
    have index : after.index entry.key =
        ((table.remove entry.key).2.makeRoom memory).index entry.key := by
      have added : after = ((table.remove entry.key).2.makeRoom memory).prepend entry :=
        put_of_absent gone
      rw [added, Table.index, capacity_prepend]
      rfl
    rw [(wf.remove entry.key).chainAt_put_of_absent gone, if_pos index]
    rfl

end Order

/-- Along every run each chain is in the order of arrival, and no operation moves an entry but a
doubling. -/
theorem chains_in_order_of_arrival [LoadScale α] {memory : Memory} {start : Table α}
    (made : Made memory start) (operations : List Operation) :
    let steps := operations.flatMap Operation.steps
    let table := start.run memory operations
    start.behind memory steps.reverse = table ∧
    (∀ bucket, ∃ recent, InOrder memory start steps.reverse bucket recent) ∧
    (∀ key time, arrival? memory start key steps.reverse = some time →
      Arrived memory start steps key time) ∧
    table.KeepsOrder memory := by
  intro steps table
  have single : ∀ step ∈ steps.reverse, ∀ entries, step ≠ .extend entries :=
    fun step member => Operation.single_of_mem_steps step (List.mem_reverse.mp member)
  refine ⟨?_, exists_inOrder made single, fun key time came => ?_, ?_⟩
  · rw [behind, List.reverse_reverse]
    exact run_steps memory start operations
  · have arrived := arrived_of_arrival? made single came
    rwa [List.reverse_reverse] at arrived
  · exact (made.wellFormed.run memory operations).keepsOrder memory

/-- The first doubling is granted and the second is refused. Of those behind the doubling the key 1
is removed, the key 5 is put again, and the key 3 gets a new partition. -/
theorem chains_in_order_of_arrival_of_refused :
    let memory : Memory := ⟨fun _ => true, fun attempt _ => attempt == 0⟩
    let start : Table Rat := { crowded 2 with hash := Int64.toUInt64 }
    let operations : List Operation :=
      [.extend [⟨1, 10⟩, ⟨3, 30⟩, ⟨5, 50⟩, ⟨7, 70⟩], .remove 1, .put ⟨9, 90⟩, .put ⟨3, 31⟩,
        .remove 5, .put ⟨5, 51⟩, .put ⟨11, 110⟩]
    let steps := operations.flatMap Operation.steps
    let table := start.run memory operations
    Made memory start ∧ table.KeepsOrder memory ∧
      InOrder memory start steps.reverse 1 [11, 5, 9, 7] ∧
      Arrived memory start steps 5 8 ∧ lastDoubling memory start steps.reverse = 2 ∧
      leftKeys memory start 1 steps.reverse = [1, 3] ∧ table.keysAt 1 = [11, 5, 9, 7, 3] ∧
      table.failedResizes = 1 := by
  intro memory start operations steps table
  have made : Made memory start := made_empty rfl one_pos two_pos _
  obtain ⟨reached, orders, arrived, kept⟩ := chains_in_order_of_arrival made operations
  obtain ⟨recent, order⟩ := orders 1
  have keys : table.keysAt 1 = [11, 5, 9, 7, 3] := by decide +kernel
  have old : (leftKeys memory start 1 steps.reverse).filter
      (survives memory start steps.reverse) = [3] := by decide +kernel
  have same : recent = [11, 5, 9, 7] := by
    have split := order.keys
    rw [reached, old] at split
    exact List.append_cancel_right (split.symm.trans keys)
  exact ⟨made, kept, same ▸ order, arrived 5 8 (by decide +kernel), by decide +kernel,
    by decide +kernel, keys, by decide +kernel⟩

end Table

end KeyPartitions
