import KeyPartitions.Proofs.Reachable
import Mathlib.Algebra.Order.Field.Rat
import Mathlib.Order.Bounds.Basic
import Mathlib.Tactic.GCongr
import Mathlib.Tactic.Linarith
import Mathlib.Tactic.Positivity

/-!
# The capacity law

Load is measured exactly here. A put doubles the buckets at most once, and it decides so before it
takes its entry. Still one doubling is always enough: the buckets fit the largest count so far, a
put that asks for more goes beyond that count by one, and twice the buckets fit twice the count.
Only the first entry needs a condition on the limit. So the number of doublings is the least that
fits the largest count, and removals and clearings leave it as it is.
-/
namespace KeyPartitions.Table

/-- The largest count along a run. An extension only adds entries, so its last count is its
largest. -/
def peak {α : Type} [LoadScale α] (memory : Memory) (table : Table α) : List Operation → Nat
  | [] => table.count
  | operation :: rest => max table.count (peak memory (table.perform memory operation).2 rest)

theorem count_le_peak {α : Type} [LoadScale α] (memory : Memory) (table : Table α)
    (operations : List Operation) : table.count ≤ peak memory table operations := by
  cases operations with
  | nil => exact Nat.le_refl _
  | cons operation rest => exact Nat.le_max_left _ _

/-- The peak is the largest of the counts that the run goes through. -/
theorem isGreatest_peak {α : Type} [LoadScale α] (memory : Memory) (table : Table α)
    (operations : List Operation) :
    IsGreatest {count | ∃ done, done <+: operations ∧ (table.run memory done).count = count}
      (peak memory table operations) := by
  induction operations generalizing table with
  | nil =>
    refine ⟨⟨[], List.nil_prefix, rfl⟩, ?_⟩
    rintro _ ⟨done, part, rfl⟩
    rw [List.prefix_nil.mp part]
    exact Nat.le_refl _
  | cons operation rest ih =>
    obtain ⟨⟨done, part, reached⟩, bound⟩ := ih (table.perform memory operation).2
    constructor
    · rcases Nat.le_total (peak memory (table.perform memory operation).2 rest) table.count with
        now | later
      · exact ⟨[], List.nil_prefix, (Nat.max_eq_left now).symm⟩
      · refine ⟨operation :: done, List.cons_prefix_cons.mpr ⟨rfl, part⟩, ?_⟩
        rw [run_cons, reached, peak, Nat.max_eq_right later]
    · rintro _ ⟨done, part, rfl⟩
      cases done with
      | nil => exact count_le_peak memory table (operation :: rest)
      | cons first others =>
        obtain ⟨rfl, shorter⟩ := List.cons_prefix_cons.mp part
        exact Nat.le_trans (bound ⟨others, shorter, rfl⟩) (Nat.le_max_right _ _)

/-! ### Doublings that are enough -/

/-- The limit admits so many entries in the buckets after so many doublings. -/
def Enough (capacity : Nat) (limit : Rat) (entries doublings : Nat) : Prop :=
  (entries : Rat) / (capacity * 2 ^ doublings : Nat) ≤ limit

section Enough

variable {capacity : Nat} {limit : Rat} {entries doublings : Nat}

theorem Enough.mono (enough : Enough capacity limit entries doublings)
    (positive : 0 < capacity) {fewer more : Nat} (entriesLe : fewer ≤ entries)
    (doublingsLe : doublings ≤ more) : Enough capacity limit fewer more := by
  have buckets : 0 < capacity * 2 ^ doublings := Nat.mul_pos positive (Nat.two_pow_pos _)
  have wider : capacity * 2 ^ doublings ≤ capacity * 2 ^ more :=
    Nat.mul_le_mul_left capacity (Nat.pow_le_pow_right Nat.two_pos doublingsLe)
  -- Fewer entries over more buckets.
  refine le_trans ?_ enough
  have bucketsRat : (0 : Rat) < (capacity * 2 ^ doublings : Nat) := by exact_mod_cast buckets
  have entriesRat : (fewer : Rat) ≤ entries := by exact_mod_cast entriesLe
  have widerRat : ((capacity * 2 ^ doublings : Nat) : Rat) ≤ (capacity * 2 ^ more : Nat) := by
    exact_mod_cast wider
  gcongr

/-- One more doubling admits one more entry. The limit is asked only about the first one. -/
theorem enough_succ (positive : 0 < capacity) (first : Enough capacity limit 1 1)
    (least : IsLeast {doublings | Enough capacity limit entries doublings} doublings) :
    Enough capacity limit (entries + 1) (doublings + 1) := by
  cases entries with
  | zero =>
    -- Without an entry no doubling is asked for.
    have nonneg : 0 ≤ limit := le_trans (by positivity) first
    have none : Enough capacity limit 0 0 := by simpa [Enough] using nonneg
    have zero : doublings = 0 := Nat.le_zero.mp (least.2 none)
    rw [zero]
    exact first
  | succ others =>
    -- There was an entry before, so one more makes at most twice as many, over twice the buckets.
    have fits : ((others + 1 : Nat) : Rat) / (capacity * 2 ^ doublings : Nat) ≤ limit := least.1
    have buckets : (0 : Rat) < (capacity * 2 ^ doublings : Nat) := by
      exact_mod_cast Nat.mul_pos positive (Nat.two_pow_pos _)
    calc ((others + 1 + 1 : Nat) : Rat) / (capacity * 2 ^ (doublings + 1) : Nat)
        ≤ (2 * (others + 1 : Nat) : Rat) / (2 * (capacity * 2 ^ doublings : Nat)) := by
          have twice : ((capacity * 2 ^ (doublings + 1) : Nat) : Rat) =
              2 * (capacity * 2 ^ doublings : Nat) := by push_cast; ring
          rw [twice]
          gcongr
          push_cast
          linarith [(Nat.cast_nonneg others : (0 : Rat) ≤ others)]
      _ = ((others + 1 : Nat) : Rat) / (capacity * 2 ^ doublings : Nat) := by
          rw [mul_div_mul_left _ _ two_ne_zero]
      _ ≤ limit := fits

theorem isLeast_succ (positive : 0 < capacity) (first : Enough capacity limit 1 1)
    (least : IsLeast {doublings | Enough capacity limit entries doublings} doublings)
    (beyond : ¬ Enough capacity limit (entries + 1) doublings) :
    IsLeast {doublings | Enough capacity limit (entries + 1) doublings} (doublings + 1) := by
  refine ⟨enough_succ positive first least, fun other enough => ?_⟩
  by_contra short
  -- With no more doublings than before the additional entry would have fitted.
  exact beyond (enough.mono positive (Nat.le_refl _) (by omega))

theorem isLeast_of_enough (positive : 0 < capacity) {more : Nat}
    (least : IsLeast {doublings | Enough capacity limit entries doublings} doublings)
    (entriesLe : entries ≤ more) (enough : Enough capacity limit more doublings) :
    IsLeast {doublings | Enough capacity limit more doublings} doublings :=
  ⟨enough, fun _ other => least.2 (other.mono positive entriesLe (Nat.le_refl _))⟩

end Enough

/-! ### What growth preserves -/

section Monotone

variable {α : Type} [LoadScale α] (memory : Memory) (table : Table α)

theorem count_le_put (entry : Entry) : table.count ≤ (table.put memory entry).count := by
  rcases put_cases memory table entry with ⟨-, changed⟩ | ⟨absent, -⟩
  · rw [changed]
    exact Nat.le_refl _
  · rw [count_put_of_absent absent]
    exact Nat.le_succ _

theorem count_le_extend (entries : List Entry) :
    table.count ≤ (table.extend memory entries).count :=
  extend_preserves (motive := fun after => table.count ≤ after.count)
    (fun after entry le => Nat.le_trans le (after.count_le_put memory entry))
    (Nat.le_refl _) entries

theorem failedResizes_le_put (entry : Entry) :
    table.failedResizes ≤ (table.put memory entry).failedResizes := by
  rcases put_cases memory table entry with ⟨-, changed⟩ | ⟨-, added⟩
  · rw [changed]
    exact Nat.le_refl _
  · rw [added]
    rcases makeRoom_cases memory table with ⟨-, same⟩ | ⟨-, -, grown⟩ | ⟨-, -, kept⟩
    · rw [same]; exact Nat.le_refl _
    · rw [grown]; exact Nat.le_refl _
    · rw [kept]; exact Nat.le_succ _

theorem failedResizes_le_extend (entries : List Entry) :
    table.failedResizes ≤ (table.extend memory entries).failedResizes :=
  extend_preserves (motive := fun after => table.failedResizes ≤ after.failedResizes)
    (fun after entry le => Nat.le_trans le (after.failedResizes_le_put memory entry))
    (Nat.le_refl _) entries

end Monotone

/-- A table that has reached its retry mark grows just if one more entry is over the limit. -/
theorem needsGrowth_iff {table : Table Rat} (ready : table.retryAt ≤ table.count) :
    table.needsGrowth = true ↔
      table.loadLimit < ((table.count + 1 : Nat) : Rat) / (table.capacity : Nat) := by
  simp [needsGrowth, ready, LoadScale.exceeded, LoadScale.ratio, LoadScale.less,
    LoadScale.quotient, LoadScale.ofCount]

/-- The buckets of a table that no doubling was refused are the least that fit the peak. -/
structure Fits (start table : Table Rat) (peak : Nat) : Prop where
  limit : table.loadLimit = start.loadLimit
  capacity : table.capacity = start.capacity * 2 ^ table.resizes
  granted : table.failedResizes = 0
  eager : table.retryAt = 0
  size : table.count ≤ peak
  least : IsLeast {doublings | Enough start.capacity start.loadLimit peak doublings} table.resizes

namespace Fits

variable {start table : Table Rat} {peak : Nat} (fits : Fits start table peak) {memory : Memory}

include fits

/-- The peak may be taken to include the count. -/
theorem max_count : Fits start table (max peak table.count) := by
  rwa [Nat.max_eq_left fits.size]

theorem ready : table.retryAt ≤ table.count := by
  rw [fits.eager]
  exact Nat.zero_le _

theorem enough_of_settled (settled : table.needsGrowth = false) :
    Enough start.capacity start.loadLimit (table.count + 1) table.resizes := by
  have within : ¬ table.needsGrowth = true := by simp [settled]
  rw [needsGrowth_iff fits.ready, fits.limit, fits.capacity] at within
  exact not_lt.mp within

theorem not_enough_of_needsGrowth (needed : table.needsGrowth = true) :
    ¬ Enough start.capacity start.loadLimit (table.count + 1) table.resizes := by
  rw [needsGrowth_iff fits.ready, fits.limit, fits.capacity] at needed
  exact not_le.mpr needed

/-- Room for one more entry: the buckets then fit one more than the count, too. -/
theorem makeRoom (positive : 0 < start.capacity)
    (first : Enough start.capacity start.loadLimit 1 1)
    (granted : (table.makeRoom memory).failedResizes = 0) :
    Fits start (table.makeRoom memory) (max peak (table.count + 1)) := by
  rcases makeRoom_cases memory table with ⟨settled, same⟩ | ⟨needed, -, grown⟩ | ⟨-, -, kept⟩
  · rw [same]
    have enough : Enough start.capacity start.loadLimit (max peak (table.count + 1))
        table.resizes := by
      rcases Nat.le_total peak (table.count + 1) with below | above
      · rw [Nat.max_eq_right below]; exact fits.enough_of_settled settled
      · rw [Nat.max_eq_left above]; exact fits.least.1
    exact { fits with
      size := Nat.le_trans fits.size (Nat.le_max_left _ _)
      least := isLeast_of_enough positive fits.least (Nat.le_max_left _ _) enough }
  · rw [grown]
    have beyond := fits.not_enough_of_needsGrowth needed
    -- Growth is asked for only by a count beyond the peak, so it exceeds it by one.
    have reached : table.count = peak := by
      by_contra apart
      have size := fits.size
      exact beyond (fits.least.1.mono positive (by omega) (Nat.le_refl _))
    rw [reached] at beyond ⊢
    rw [Nat.max_eq_right (Nat.le_succ peak)]
    exact {
      limit := fits.limit
      capacity := by
        have twice : table.doubled.resizes = table.resizes + 1 := rfl
        rw [capacity_doubled, fits.capacity, twice, Nat.pow_succ]
        ring
      granted := fits.granted
      eager := rfl
      size := Nat.le_trans (Nat.le_of_eq reached) (Nat.le_succ peak)
      least := isLeast_succ positive first fits.least beyond }
  · -- A refusal would be on record.
    rw [kept] at granted
    exact absurd granted (Nat.succ_ne_zero _)

theorem put (positive : 0 < start.capacity) (first : Enough start.capacity start.loadLimit 1 1)
    (entry : Entry) (granted : (table.put memory entry).failedResizes = 0) :
    Fits start (table.put memory entry) (max peak (table.put memory entry).count) := by
  rcases put_cases memory table entry with ⟨-, changed⟩ | ⟨absent, added⟩
  · rw [changed]
    exact { fits.max_count with capacity := by rw [capacity_overwrite]; exact fits.capacity }
  · have count : (table.put memory entry).count = table.count + 1 := count_put_of_absent absent
    rw [added] at granted count ⊢
    have room := fits.makeRoom positive first granted
    rw [count]
    exact { room with
      capacity := by rw [capacity_prepend]; exact room.capacity
      size := by rw [count]; exact Nat.le_max_right _ _ }

theorem extend (positive : 0 < start.capacity) (first : Enough start.capacity start.loadLimit 1 1)
    (entries : List Entry) (granted : (table.extend memory entries).failedResizes = 0) :
    Fits start (table.extend memory entries)
      (max peak (table.extend memory entries).count) := by
  induction entries generalizing table peak with
  | nil => exact fits.max_count
  | cons entry rest ih =>
    have later := failedResizes_le_extend memory (table.put memory entry) rest
    have putGranted : (table.put memory entry).failedResizes = 0 :=
      Nat.le_zero.mp (granted ▸ later)
    have after := ih (fits.put positive first entry putGranted) granted
    -- The counts on the way are no larger than the last one.
    have counts := count_le_extend memory (table.put memory entry) rest
    rwa [Nat.max_assoc, Nat.max_eq_right counts] at after

theorem remove (key : Key) :
    Fits start (table.remove key).2 (max peak (table.remove key).2.count) := by
  rcases table.remove_cases key with ⟨-, same⟩ | ⟨-, unlinked⟩
  · rw [same]
    exact fits.max_count
  · have fewer : (table.unlinked key).count ≤ peak :=
      Nat.le_trans (Nat.sub_le table.count 1) fits.size
    rw [unlinked, Nat.max_eq_left fewer]
    exact { fits with
      capacity := by rw [capacity_unlinked]; exact fits.capacity
      size := fewer }

theorem clear : Fits start table.clear (max peak table.clear.count) := by
  have none : table.clear.count ≤ peak := Nat.zero_le peak
  rw [Nat.max_eq_left none]
  exact { fits with
    capacity := by rw [capacity_clear]; exact fits.capacity
    eager := rfl
    size := none }

theorem get (key : Key) : Fits start (table.get key).2 (max peak (table.get key).2.count) := by
  rcases table.get_snd_cases key with same | counted
  · rw [same]; exact fits.max_count
  · rw [counted]; exact { fits.max_count with }

theorem perform (positive : 0 < start.capacity)
    (first : Enough start.capacity start.loadLimit 1 1) (operation : Operation)
    (granted : (table.perform memory operation).2.failedResizes = 0) :
    Fits start (table.perform memory operation).2
      (max peak (table.perform memory operation).2.count) := by
  cases operation with
  | put entry => exact fits.put positive first entry granted
  | extend entries => exact fits.extend positive first entries granted
  | remove key => exact fits.remove key
  | get key => exact fits.get key
  | getOrNotFound key => exact fits.get key
  | contains key => exact fits.get key
  | clear => exact fits.clear

end Fits

section Run

variable (memory : Memory)

theorem failedResizes_le_run {α : Type} [LoadScale α] (table : Table α)
    (operations : List Operation) :
    table.failedResizes ≤ (table.run memory operations).failedResizes := by
  apply run_preserves (motive := fun after => table.failedResizes ≤ after.failedResizes)
  case put => exact fun after entry le => Nat.le_trans le (after.failedResizes_le_put memory entry)
  case unlink => exact fun _ _ _ le => le
  case read => exact fun _ le => le
  case clear => exact fun _ le => le
  case holds => exact Nat.le_refl _

theorem capacity_le_run {α : Type} [LoadScale α] (table : Table α)
    (operations : List Operation) :
    table.capacity ≤ (table.run memory operations).capacity := by
  apply run_preserves (motive := fun after => table.capacity ≤ after.capacity)
  case put => exact fun after entry le => le.trans (after.capacity_le_put memory entry)
  case unlink =>
    intro after key _ le
    rwa [capacity_unlinked]
  case read => exact fun _ le => le
  case clear =>
    intro after le
    rwa [capacity_clear]
  case holds => exact Nat.le_refl _

theorem Fits.run {start table : Table Rat} {peak : Nat} (fits : Fits start table peak)
    (positive : 0 < start.capacity) (first : Enough start.capacity start.loadLimit 1 1)
    (operations : List Operation) (granted : (table.run memory operations).failedResizes = 0) :
    Fits start (table.run memory operations)
      (max peak (table.peak memory operations)) := by
  induction operations generalizing table peak with
  | nil => exact fits.max_count
  | cons operation rest ih =>
    -- A refusal stays on record, so this operation had none.
    have later := failedResizes_le_run memory (table.perform memory operation).2 rest
    have stepGranted : (table.perform memory operation).2.failedResizes = 0 :=
      Nat.le_zero.mp (granted ▸ later)
    have after := ih (fits.perform positive first operation stepGranted) granted
    have counts := count_le_peak memory (table.perform memory operation).2 rest
    have size := fits.size
    rw [Nat.max_assoc, Nat.max_eq_right counts] at after
    rwa [Table.peak, ← Nat.max_assoc, Nat.max_eq_left size]

end Run

/-! ### The order of puts -/

section Order

variable {α : Type} [LoadScale α] {table : Table α}

theorem WellFormed.mem_keys_put (wf : table.WellFormed) (memory : Memory) (entry : Entry)
    (key : Key) :
    key ∈ (table.put memory entry).entries.map Entry.key ↔
      key = entry.key ∨ key ∈ table.entries.map Entry.key := by
  rw [((wf.entries_put memory entry).map Entry.key).mem_iff, List.map_cons, List.mem_cons]
  by_cases same : key = entry.key
  · simp [same]
  · simp only [same, false_or, List.mem_map, Chain.mem_without]
    constructor
    · rintro ⟨other, ⟨member, -⟩, rfl⟩
      exact ⟨other, member, rfl⟩
    · rintro ⟨other, member, rfl⟩
      exact ⟨other, ⟨member, same⟩, rfl⟩

theorem WellFormed.mem_keys_extend (wf : table.WellFormed) (memory : Memory)
    (entries : List Entry) (key : Key) :
    key ∈ (table.extend memory entries).entries.map Entry.key ↔
      key ∈ entries.map Entry.key ∨ key ∈ table.entries.map Entry.key := by
  induction entries generalizing table with
  | nil => simp [Table.extend]
  | cons entry rest ih =>
    have after := ih (wf.put memory entry)
    rw [wf.mem_keys_put memory entry key, or_left_comm, ← or_assoc] at after
    rw [List.map_cons, List.mem_cons]
    exact after

/-- Extensions by the same keys have the same count. -/
theorem WellFormed.count_extend_perm (wf : table.WellFormed) (memory : Memory)
    {first second : List Entry} (keys : (first.map Entry.key).Perm (second.map Entry.key)) :
    (table.extend memory first).count = (table.extend memory second).count := by
  have left := wf.extend memory first
  have right := wf.extend memory second
  have same : ((table.extend memory first).entries.map Entry.key).Perm
      ((table.extend memory second).entries.map Entry.key) := by
    apply (List.perm_ext_iff_of_nodup left.distinct right.distinct).mpr
    intro key
    rw [wf.mem_keys_extend, wf.mem_keys_extend, keys.mem_iff]
  -- Well-formed tables with the same keys have the same count.
  have lengths := same.length_eq
  rw [List.length_map, List.length_map] at lengths
  rw [left.counted, right.counted, lengths]

end Order

/-! ### The law -/

theorem Made.fits {memory : Memory} {start : Table Rat} (made : Made memory start)
    (first : Enough start.capacity start.loadLimit 1 1) : Fits start start 0 := by
  have nonneg : 0 ≤ start.loadLimit := le_trans (by positivity) first
  have fresh := made.eq_empty.2
  exact {
    limit := rfl
    capacity := by rw [fresh]; simp [empty, capacity]
    granted := by rw [fresh]; rfl
    eager := by rw [fresh]; rfl
    size := by rw [fresh]; exact Nat.le_refl 0
    least := by
      have none : Enough start.capacity start.loadLimit 0 0 := by simpa [Enough] using nonneg
      have resizes : start.resizes = 0 := by rw [fresh]; rfl
      rw [resizes]
      exact ⟨none, fun _ _ => Nat.zero_le _⟩ }

theorem Fits.isLeast_capacity {start table : Table Rat} {peak : Nat}
    (fits : Fits start table peak) :
    IsLeast {capacity : Nat | ∃ doublings, capacity = start.capacity * 2 ^ doublings ∧
      (peak : Rat) / capacity ≤ start.loadLimit} table.capacity := by
  constructor
  · refine ⟨table.resizes, fits.capacity, ?_⟩
    rw [fits.capacity]
    exact fits.least.1
  · rintro _ ⟨doublings, rfl, enough⟩
    rw [fits.capacity]
    exact Nat.mul_le_mul_left _ (Nat.pow_le_pow_right Nat.two_pos (fits.least.2 enough))

theorem Fits.loadFactor_le {start table : Table Rat} {peak : Nat} (fits : Fits start table peak)
    (positive : 0 < start.capacity) : table.loadFactor ≤ start.loadLimit := by
  have enough : Enough start.capacity start.loadLimit table.count table.resizes :=
    fits.least.1.mono positive fits.size (Nat.le_refl _)
  rw [Enough, ← fits.capacity] at enough
  exact enough

/-- Where no doubling is refused the capacity is the least that fits the largest count so far, so
that it never shrinks and the order of puts does not matter. -/
theorem capacity_law (memory : Memory) {start : Table Rat} (made : Made memory start)
    (roomy : 1 / (2 * (start.capacity : Rat)) ≤ start.loadLimit) (operations : List Operation)
    (granted : (start.run memory operations).failedResizes = 0) :
    let table := start.run memory operations
    table.capacity = start.capacity * 2 ^ table.resizes ∧
    IsLeast {capacity : Nat | ∃ doublings, capacity = start.capacity * 2 ^ doublings ∧
      (peak memory start operations : Rat) / capacity ≤ start.loadLimit} table.capacity ∧
    table.loadFactor ≤ start.loadLimit ∧
    (∀ later, table.capacity ≤ (table.run memory later).capacity) ∧
    ∀ first second : List Entry, (first.map Entry.key).Perm (second.map Entry.key) →
      (table.extend memory first).failedResizes = 0 →
      (table.extend memory second).failedResizes = 0 →
        (table.extend memory first).capacity = (table.extend memory second).capacity := by
  intro table
  have positive : 0 < start.capacity := made.eq_empty.1
  have one : Enough start.capacity start.loadLimit 1 1 := by
    rw [Enough, pow_one, mul_comm]
    push_cast
    exact roomy
  have fits : Fits start table (peak memory start operations) := by
    have reached := (made.fits one).run memory positive one operations granted
    rwa [Nat.zero_max] at reached
  refine ⟨fits.capacity, fits.isLeast_capacity, fits.loadFactor_le positive,
    capacity_le_run memory table, ?_⟩
  intro first second keys firstGranted secondGranted
  have wf : table.WellFormed := made.wellFormed.run memory operations
  -- Both extensions are the least that fit the same peak.
  have left := (fits.extend positive one first firstGranted).isLeast_capacity
  have right := (fits.extend positive one second secondGranted).isLeast_capacity
  rw [wf.count_extend_perm memory keys] at left
  exact left.unique right

/-- Three entries ask for four buckets, and those stay when one entry is left. -/
theorem capacity_law_of_crowded :
    let memory : Memory := ⟨fun _ => true, fun _ _ => true⟩
    let operations : List Operation :=
      [.extend [⟨1, 10⟩, ⟨2, 20⟩, ⟨3, 30⟩], .remove 2, .put ⟨3, 31⟩, .clear, .put ⟨4, 40⟩]
    let table := (crowded 1).run memory operations
    let more : List Entry := [⟨5, 50⟩, ⟨4, 41⟩, ⟨6, 60⟩, ⟨7, 70⟩, ⟨8, 80⟩]
    Made memory (crowded 1) ∧
      IsLeast {capacity : Nat | ∃ doublings, capacity = (crowded 1).capacity * 2 ^ doublings ∧
        (peak memory (crowded 1) operations : Rat) / capacity ≤ (crowded 1).loadLimit}
        table.capacity ∧
      peak memory (crowded 1) operations = 3 ∧ table.capacity = 4 ∧ table.count = 1 ∧
      (table.extend memory more).capacity = (table.extend memory more.reverse).capacity ∧
      (table.extend memory more).capacity = 8 := by
  intro memory operations table more
  have made : Made memory (crowded 1) := made_crowded rfl one_pos
  have roomy : 1 / (2 * ((crowded 1).capacity : Rat)) ≤ (crowded 1).loadLimit := by
    norm_num [crowded, empty, capacity]
  obtain ⟨-, least, -, -, order⟩ :=
    capacity_law memory made roomy operations (by decide +kernel)
  have keys : (more.map Entry.key).Perm (more.reverse.map Entry.key) :=
    more.reverse_perm.symm.map Entry.key
  exact ⟨made, least, by decide +kernel, by decide +kernel, by decide +kernel,
    order more more.reverse keys (by decide +kernel) (by decide +kernel), by decide +kernel⟩

end KeyPartitions.Table
