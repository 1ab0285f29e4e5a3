import KeyPartitions.Proofs.CapacityLaw
import KeyPartitions.Proofs.LoadOrder

/-!
# Catching up with the limit

A put doubles the buckets at most once, so under a small limit a table can be over it. But then
every insertion doubles the buckets and brings only one entry, so the load factor comes down to the
limit after a few of them. Once the limit admits the entries of the table it goes on doing so,
because twice the buckets admit one entry more. All that is asked of the measure is that load grows
with the entries and is the same for twice the entries in twice the buckets, so the law holds of
rounded quotients as of exact ones.
-/
namespace KeyPartitions.Table

open LoadScale (Ordered Within ratio)

variable {α : Type}

/-- A doubling is granted only to a 64-bit number of buckets. -/
theorem doubled_lt_of_granted {memory : Memory} {table : Table α}
    (granted : table.refusal? memory = none) : 2 * table.capacity < UInt64.size := by
  by_contra large
  simp [refusal?, not_lt.mp large] at granted

variable [LoadScale α]

/-- The limit admits the entries, or one where there is none. -/
def Settled (table : Table α) : Prop :=
  Within table.loadLimit (ratio (max 1 table.count) table.capacity)

/-- The scale can measure the table, and twice the table. -/
structure Measured [Ordered α] (table : Table α) : Prop where
  entries : Ordered.Measures α (2 * max 1 table.count)
  buckets : Ordered.Measures α (2 * table.capacity)

/-- An insertion that meets no refusal goes into the buckets as they are, or into twice as many. -/
theorem put_absent_granted_cases {memory : Memory} {table : Table α} {entry : Entry}
    (absent : table.find? entry.key = none)
    (granted : (table.put memory entry).failedResizes = table.failedResizes) :
    (table.needsGrowth = false ∧ table.put memory entry = table.prepend entry) ∨
      2 * table.capacity < UInt64.size ∧ table.put memory entry = table.doubled.prepend entry := by
  have added : table.put memory entry = (table.makeRoom memory).prepend entry :=
    put_of_absent absent
  rcases makeRoom_cases memory table with ⟨enough, same⟩ | ⟨-, allowed, grown⟩ | ⟨-, -, kept⟩
  · rw [added, same]
    exact Or.inl ⟨enough, rfl⟩
  · rw [added, grown]
    exact Or.inr ⟨doubled_lt_of_granted allowed, rfl⟩
  · -- A refusal would be counted.
    rw [added, kept] at granted
    exact absurd granted (Nat.succ_ne_self _)

section Settled

variable {memory : Memory} {table after : Table α} {entry : Entry}

theorem within_of_needsGrowth (ready : table.retryAt ≤ table.count)
    (enough : table.needsGrowth = false) :
    Within table.loadLimit (ratio (table.count + 1) table.capacity) := by
  rw [← LoadScale.exceeded_eq_false_iff]
  simpa [needsGrowth, ready] using enough

theorem settled_of_within (inhabited : 0 < table.count)
    (within : Within table.loadLimit table.loadFactor) : table.Settled := by
  rw [Settled, Nat.max_eq_right inhabited]
  exact within

variable [Ordered α]

namespace Measured

variable (measured : table.Measured)

include measured

theorem someEntries : Ordered.Measures α (max 1 table.count) :=
  Ordered.measures_of_le (Nat.le_mul_of_pos_left _ Nat.two_pos) measured.entries

theorem capacity : Ordered.Measures α table.capacity :=
  Ordered.measures_of_le (Nat.le_mul_of_pos_left _ Nat.two_pos) measured.buckets

end Measured

namespace Settled

variable (settled : table.Settled) (measured : table.Measured) (nonempty : 0 < table.capacity)

include settled measured nonempty

theorem within : Within table.loadLimit table.loadFactor :=
  Ordered.within_of_le (Nat.le_max_right 1 table.count) nonempty measured.someEntries
    measured.capacity settled

/-- A table stays settled with fewer entries in its buckets. -/
theorem of_count_le (limit : after.loadLimit = table.loadLimit)
    (capacity : after.capacity = table.capacity) (count : after.count ≤ table.count) :
    after.Settled := by
  rw [Settled, limit, capacity]
  exact Ordered.within_of_le (by omega) nonempty measured.someEntries measured.capacity settled

/-- Of at least one entry, one more makes at most twice as many. -/
theorem within_doubled :
    Within table.loadLimit (ratio (max 1 (table.count + 1)) (2 * table.capacity)) := by
  have same : (ratio (2 * max 1 table.count) (2 * table.capacity) : α) =
      ratio (max 1 table.count) table.capacity :=
    Ordered.ratio_double nonempty measured.entries measured.buckets
  have few : max 1 (table.count + 1) ≤ 2 * max 1 table.count := by omega
  refine Ordered.within_of_le few (by omega) measured.entries measured.buckets ?_
  rw [same]
  exact settled

end Settled

/-- An insertion that meets no refusal settles the table, or the table was not settled and has twice
the buckets now. -/
theorem put_absent_settles_or_doubles (measured : table.Measured) (nonempty : 0 < table.capacity)
    (ready : table.retryAt ≤ table.count) (absent : table.find? entry.key = none)
    (granted : (table.put memory entry).failedResizes = table.failedResizes) :
    (table.put memory entry).Settled ∨
      ¬ table.Settled ∧ (table.put memory entry).capacity = 2 * table.capacity := by
  have count : (table.put memory entry).count = table.count + 1 := count_put_of_absent absent
  have limit : (table.put memory entry).loadLimit = table.loadLimit :=
    (put_keeps_settings memory table entry).2
  rcases put_absent_granted_cases absent granted with ⟨enough, kept⟩ | ⟨-, grown⟩
  · left
    rw [Settled, count, limit, kept, capacity_prepend, Nat.max_eq_right (Nat.le_add_left 1 _)]
    exact within_of_needsGrowth ready enough
  · have twice : (table.put memory entry).capacity = 2 * table.capacity := by
      rw [grown, capacity_prepend, capacity_doubled]
    by_cases settled : table.Settled
    · left
      rw [Settled, count, limit, twice]
      exact settled.within_doubled measured nonempty
    · exact Or.inr ⟨settled, twice⟩

end Settled

/-! ### Insertions -/

/-- The number of keys that a run inserts: each operation as many as the count grows by. -/
def insertions (memory : Memory) (table : Table α) : List Operation → Nat
  | [] => 0
  | operation :: rest =>
    let after := (table.perform memory operation).2
    (after.count - table.count) + insertions memory after rest

/-- A table reached from `start` with no doubling refused on the way. It is settled, or `start` was
not and every insertion since has doubled the buckets. -/
structure CatchesUp (start table : Table α) (inserted : Nat) : Prop where
  wellFormed : table.WellFormed
  limit : table.loadLimit = start.loadLimit
  granted : table.failedResizes = start.failedResizes
  eager : table.retryAt = 0
  size : table.count ≤ start.count + inserted
  bounded : table.capacity ≤ max start.capacity UInt64.size
  caught : table.Settled ∨ ¬ start.Settled ∧ table.capacity = start.capacity * 2 ^ inserted

theorem catchesUp_refl {table : Table α} (wf : table.WellFormed) (eager : table.retryAt = 0) :
    CatchesUp table table 0 := by
  refine ⟨wf, rfl, rfl, eager, Nat.le_refl _, Nat.le_max_left _ _, ?_⟩
  by_cases settled : table.Settled
  · exact Or.inl settled
  · exact Or.inr ⟨settled, by simp⟩

namespace CatchesUp

variable {start table : Table α} {inserted : Nat} (catching : CatchesUp start table inserted)
  {memory : Memory}

include catching

theorem nonempty : 0 < table.capacity := catching.wellFormed.nonempty

theorem ready : table.retryAt ≤ table.count := by
  rw [catching.eager]
  exact Nat.zero_le _

variable [Ordered α] (sized : Ordered.Measures α (2 * max start.capacity UInt64.size))

include sized

/-- Neither entries nor buckets come to more than the scale can measure. -/
theorem measured : table.Measured := by
  have count := catching.wellFormed.count_le
  have capacity := catching.bounded
  have some : 1 ≤ UInt64.size := by decide
  exact ⟨Ordered.measures_of_le (by omega) sized, Ordered.measures_of_le (by omega) sized⟩

/-- What inserts nothing and leaves the buckets as many as they are. -/
theorem of_count_le {after : Table α} (wf : after.WellFormed)
    (limit : after.loadLimit = table.loadLimit)
    (granted : after.failedResizes = table.failedResizes) (eager : after.retryAt = 0)
    (capacity : after.capacity = table.capacity) (count : after.count ≤ table.count) :
    CatchesUp start after (inserted + (after.count - table.count)) := by
  rw [Nat.sub_eq_zero_of_le count, Nat.add_zero]
  refine ⟨wf, limit.trans catching.limit, granted.trans catching.granted, eager,
    count.trans catching.size, capacity.trans_le catching.bounded, ?_⟩
  rcases catching.caught with settled | ⟨unsettled, doubled⟩
  · exact Or.inl (settled.of_count_le (catching.measured sized) catching.nonempty limit capacity
      count)
  · exact Or.inr ⟨unsettled, capacity.trans doubled⟩

theorem insert {entry : Entry} (absent : table.find? entry.key = none)
    (granted : (table.put memory entry).failedResizes = table.failedResizes) :
    CatchesUp start (table.put memory entry) (inserted + 1) := by
  have count : (table.put memory entry).count = table.count + 1 := count_put_of_absent absent
  have size := catching.size
  refine ⟨catching.wellFormed.put memory entry,
    (put_keeps_settings memory table entry).2.trans catching.limit,
    granted.trans catching.granted, ?eager, by omega, ?bounded, ?caught⟩
  case eager =>
    -- A granted doubling takes the mark back.
    rcases put_absent_granted_cases absent granted with ⟨-, kept⟩ | ⟨-, grown⟩
    · rw [kept]; exact catching.eager
    · rw [grown]; rfl
  case bounded =>
    rcases put_absent_granted_cases absent granted with ⟨-, kept⟩ | ⟨small, grown⟩
    · rw [kept, capacity_prepend]; exact catching.bounded
    · rw [grown, capacity_prepend, capacity_doubled]; exact small.le.trans (Nat.le_max_right _ _)
  case caught =>
    rcases put_absent_settles_or_doubles (catching.measured sized) catching.nonempty
      catching.ready absent granted with settled | ⟨unsettled, twice⟩
    · exact Or.inl settled
    · obtain ⟨behind, before⟩ := catching.caught.resolve_left unsettled
      refine Or.inr ⟨behind, ?_⟩
      rw [twice, before, pow_succ]
      ring

theorem put (entry : Entry)
    (granted : (table.put memory entry).failedResizes = table.failedResizes) :
    CatchesUp start (table.put memory entry)
      (inserted + ((table.put memory entry).count - table.count)) := by
  rcases put_cases memory table entry with ⟨-, changed⟩ | ⟨absent, -⟩
  · have wf := catching.wellFormed.put memory entry
    rw [changed] at wf ⊢
    exact catching.of_count_le sized wf rfl rfl catching.eager capacity_overwrite (Nat.le_refl _)
  · rw [count_put_of_absent absent, Nat.add_sub_cancel_left]
    exact catching.insert sized absent granted

theorem extend (entries : List Entry)
    (granted : (table.extend memory entries).failedResizes = table.failedResizes) :
    CatchesUp start (table.extend memory entries)
      (inserted + ((table.extend memory entries).count - table.count)) := by
  induction entries generalizing table inserted with
  | nil =>
    exact catching.of_count_le sized catching.wellFormed rfl rfl catching.eager rfl (Nat.le_refl _)
  | cons entry rest ih =>
    -- A refusal stays on record, so this put had none.
    have first := table.failedResizes_le_put memory entry
    have later := failedResizes_le_extend memory (table.put memory entry) rest
    have putGranted : (table.put memory entry).failedResizes = table.failedResizes :=
      Nat.le_antisymm (granted ▸ later) first
    have after := ih (catching.put sized entry putGranted) (granted.trans putGranted.symm)
    -- The counts only grow on the way, so the insertions add up.
    have grows := table.count_le_put memory entry
    have goesOn := count_le_extend memory (table.put memory entry) rest
    rw [Nat.add_assoc, Nat.add_comm (_ - _), Nat.sub_add_sub_cancel goesOn grows] at after
    exact after

theorem remove (key : Key) :
    CatchesUp start (table.remove key).2
      (inserted + ((table.remove key).2.count - table.count)) := by
  have wf := catching.wellFormed.remove key
  rcases table.remove_cases key with ⟨-, same⟩ | ⟨-, unlinked⟩
  · rw [same] at wf ⊢
    exact catching.of_count_le sized wf rfl rfl catching.eager rfl (Nat.le_refl _)
  · rw [unlinked] at wf ⊢
    exact catching.of_count_le sized wf rfl rfl catching.eager capacity_unlinked (Nat.sub_le _ 1)

theorem get (key : Key) :
    CatchesUp start (table.get key).2 (inserted + ((table.get key).2.count - table.count)) := by
  rcases table.get_snd_cases key with same | counted
  · rw [same]
    exact catching.of_count_le sized catching.wellFormed rfl rfl catching.eager rfl (Nat.le_refl _)
  · rw [counted]
    exact catching.of_count_le sized catching.wellFormed.countRead rfl rfl catching.eager rfl
      (Nat.le_refl _)

theorem clear :
    CatchesUp start table.clear (inserted + (table.clear.count - table.count)) :=
  catching.of_count_le sized catching.wellFormed.clear rfl rfl rfl (capacity_clear table)
    (Nat.zero_le _)

theorem perform (operation : Operation)
    (granted : (table.perform memory operation).2.failedResizes = table.failedResizes) :
    CatchesUp start (table.perform memory operation).2
      (inserted + ((table.perform memory operation).2.count - table.count)) := by
  cases operation with
  | put entry => exact catching.put sized entry granted
  | extend entries => exact catching.extend sized entries granted
  | remove key => exact catching.remove sized key
  | get key => exact catching.get sized key
  | getOrNotFound key => exact catching.get sized key
  | contains key => exact catching.get sized key
  | clear => exact catching.clear sized

theorem run (operations : List Operation)
    (granted : (table.run memory operations).failedResizes = table.failedResizes) :
    CatchesUp start (table.run memory operations)
      (inserted + insertions memory table operations) := by
  induction operations generalizing table inserted with
  | nil => exact catching
  | cons operation rest ih =>
    have first : table.failedResizes ≤ (table.perform memory operation).2.failedResizes :=
      failedResizes_le_run memory table [operation]
    have later := failedResizes_le_run memory (table.perform memory operation).2 rest
    have stepGranted : (table.perform memory operation).2.failedResizes = table.failedResizes :=
      Nat.le_antisymm (granted ▸ later) first
    have after := ih (catching.perform sized operation stepGranted)
      (granted.trans stepGranted.symm)
    rwa [Nat.add_assoc] at after

theorem within_or_doubled :
    Within start.loadLimit table.loadFactor ∨
      ¬ start.Settled ∧ table.capacity = start.capacity * 2 ^ inserted := by
  rcases catching.caught with settled | doubled
  · left
    rw [← catching.limit]
    exact settled.within (catching.measured sized) catching.nonempty
  · exact Or.inr doubled

/-- From a settled table on the limit is kept. -/
theorem within_of_settled (settled : start.Settled) : Within start.loadLimit table.loadFactor :=
  (catching.within_or_doubled sized).resolve_right fun behind => behind.1 settled

/-- The limit is kept once it admits as many entries as were inserted, in buckets doubled for each
of them. -/
theorem within_of_enough (positive : 0 < start.capacity) (none : start.count = 0)
    (enough : table.capacity = start.capacity * 2 ^ inserted →
      Within start.loadLimit (ratio inserted (start.capacity * 2 ^ inserted))) :
    Within start.loadLimit table.loadFactor := by
  rcases catching.within_or_doubled sized with within | ⟨-, doubled⟩
  · exact within
  · -- What is there was inserted, and every insertion has brought a doubling.
    have size : table.count ≤ inserted := by
      have size := catching.size
      rwa [none, Nat.zero_add] at size
    have few : inserted ≤ table.capacity := by
      rw [doubled]
      exact Nat.lt_two_pow_self.le.trans (Nat.le_mul_of_pos_left _ positive)
    have capacity := (catching.measured sized).capacity
    have within := enough doubled
    rw [← doubled] at within
    exact Ordered.within_of_le size catching.nonempty (Ordered.measures_of_le few capacity) capacity
      within

end CatchesUp

/-! ### The guarantee -/

section Guarantee

variable [Ordered α] {memory : Memory} {start : Table α} (made : Made memory start)

include made

theorem Made.catchesUp (sized : Ordered.Measures α (2 * max start.capacity UInt64.size))
    {operations : List Operation} (granted : (start.run memory operations).failedResizes = 0) :
    start.count = 0 ∧
      CatchesUp start (start.run memory operations) (insertions memory start operations) := by
  obtain ⟨-, fresh⟩ := made.eq_empty
  have eager : start.retryAt = 0 := by rw [fresh]; rfl
  have unrefused : start.failedResizes = 0 := by rw [fresh]; rfl
  have reached := (catchesUp_refl made.wellFormed eager).run sized operations
    (granted.trans unrefused.symm)
  rw [Nat.zero_add] at reached
  exact ⟨by rw [fresh]; rfl, reached⟩

/-- The first entry of a table whose limit is too small for it is over the limit, though the buckets
may be doubled for it. -/
theorem Made.not_within_put (sized : Ordered.Measures α (2 * start.capacity))
    (narrow : ¬ Within start.loadLimit (ratio 1 (2 * start.capacity))) (entry : Entry) :
    ¬ Within start.loadLimit (start.put memory entry).loadFactor := by
  obtain ⟨nonempty, fresh⟩ := made.eq_empty
  have absent : start.find? entry.key = none := by
    rw [made.wellFormed.find?_eq_none_iff, fresh]
    simp [entries, empty]
  have count : (start.put memory entry).count = 1 := by
    rw [count_put_of_absent absent, fresh]
    rfl
  rw [loadFactor, count]
  rcases put_growth_cases memory start entry with ⟨same, -⟩ | ⟨-, twice, -⟩
  · -- In the old buckets the entry is as much load as two in the doubled ones.
    rw [same]
    intro within
    have two : Ordered.Measures α (2 * 1) := Ordered.measures_of_le (by omega) sized
    rw [← Ordered.ratio_double nonempty two sized] at within
    exact narrow (Ordered.within_of_le (Nat.le_succ 1) (by omega) two sized within)
  · rw [twice]
    exact narrow

end Guarantee

/-- Where the limit admits the first entry in twice the buckets, it admits the entries of any number
of insertions in buckets doubled as often. -/
theorem within_of_roomy [Ordered α] {limit : α} {capacity inserted : Nat}
    (positive : 0 < capacity) (sized : Ordered.Measures α (2 * (capacity * 2 ^ inserted)))
    (roomy : Within limit (ratio 1 (2 * capacity))) :
    Within limit (ratio inserted (capacity * 2 ^ inserted)) := by
  have measures {count : Nat} (few : count ≤ 2 * (capacity * 2 ^ inserted)) :
      Ordered.Measures α count := Ordered.measures_of_le few sized
  have wider : capacity ≤ capacity * 2 ^ inserted :=
    Nat.le_mul_of_pos_right capacity (Nat.two_pow_pos inserted)
  have more : 2 ^ inserted ≤ capacity * 2 ^ inserted := Nat.le_mul_of_pos_left _ positive
  cases inserted with
  | zero =>
    -- Without an entry there is less load than with one.
    have none : (ratio (2 * 0) (2 * capacity) : α) = ratio 0 capacity :=
      Ordered.ratio_double positive (measures (Nat.zero_le _)) (measures (by omega))
    rw [Nat.pow_zero, Nat.mul_one, ← none]
    exact Ordered.within_of_le (Nat.zero_le 1) (by omega) (measures (by omega))
      (measures (by omega)) roomy
  | succ others =>
    have buckets : capacity * 2 ^ (others + 1) = 2 * capacity * 2 ^ others := by ring
    have double : 2 ^ (others + 1) = 2 * 2 ^ others := Nat.pow_succ'
    rw [buckets] at measures more ⊢
    have same : (ratio (1 * 2 ^ others) (2 * capacity * 2 ^ others) : α) = ratio 1 (2 * capacity) :=
      LoadScale.ratio_mul_two_pow (by omega) others (measures (by omega)) (measures (by omega))
    have short : others + 1 ≤ 1 * 2 ^ others := by
      rw [Nat.one_mul]
      exact Nat.lt_two_pow_self
    rw [← same] at roomy
    exact Ordered.within_of_le short (by omega) (measures (by omega)) (measures (by omega)) roomy

/-- Where no doubling is refused the load factor is within the limit, or every insertion so far has
doubled the buckets. It comes within the limit after a few insertions and stays there while there is
an entry. Under a limit that admits the first entry in twice the buckets it is never over, and under
a smaller one it is over right after the first put. -/
theorem loadFactor_catches_up [Ordered α] (memory : Memory) {start : Table α}
    (made : Made memory start)
    (sized : Ordered.Measures α (2 * max start.capacity UInt64.size))
    (operations : List Operation) (granted : (start.run memory operations).failedResizes = 0) :
    let table := start.run memory operations
    let inserted := insertions memory start operations
    (Within start.loadLimit table.loadFactor ∨
      table.capacity = start.capacity * 2 ^ inserted) ∧
    (Within start.loadLimit (ratio inserted (start.capacity * 2 ^ inserted)) →
      Within start.loadLimit table.loadFactor) ∧
    (0 < table.count → Within start.loadLimit table.loadFactor → ∀ later,
      (table.run memory later).failedResizes = 0 →
        Within start.loadLimit (table.run memory later).loadFactor) ∧
    (Within start.loadLimit (ratio 1 (2 * start.capacity)) →
      Within start.loadLimit table.loadFactor) ∧
    (¬ Within start.loadLimit (ratio 1 (2 * start.capacity)) → ∀ entry,
      ¬ Within start.loadLimit (start.put memory entry).loadFactor) := by
  intro table inserted
  obtain ⟨none, catching⟩ := made.catchesUp sized granted
  have nonempty : 0 < start.capacity := made.wellFormed.nonempty
  refine ⟨(catching.within_or_doubled sized).imp_right And.right,
    fun enough => catching.within_of_enough sized nonempty none fun _ => enough, ?stays,
    fun roomy => catching.within_of_enough sized nonempty none ?roomy,
    made.not_within_put (Ordered.measures_of_le (by omega) sized)⟩
  case stays =>
    intro inhabited within later laterGranted
    -- The law is taken once more, from the table reached.
    have bounded : table.capacity ≤ max start.capacity UInt64.size := catching.bounded
    have tableSized : Ordered.Measures α (2 * max table.capacity UInt64.size) :=
      Ordered.measures_of_le (by omega) sized
    have settled : table.Settled := by
      apply settled_of_within inhabited
      rwa [catching.limit]
    have goesOn := (catchesUp_refl catching.wellFormed catching.eager).run tableSized later
      (laterGranted.trans granted.symm)
    rw [← catching.limit]
    exact goesOn.within_of_settled tableSized settled
  case roomy =>
    intro doubled
    have buckets := (catching.measured sized).buckets
    rw [doubled] at buckets
    exact within_of_roomy nonempty buckets roomy

/-- One bucket and a limit of an eighth: the first entry is over the limit, and the sixth is not. -/
theorem loadFactor_catches_up_of_eighth :
    let memory := Memory.unbounded
    let operations : List Operation :=
      [.extend [⟨1, 10⟩, ⟨2, 20⟩, ⟨3, 30⟩], .remove 2, .put ⟨3, 31⟩,
        .extend [⟨4, 40⟩, ⟨5, 50⟩, ⟨6, 60⟩]]
    let plain := crowded (1 / 8)
    let rounded : Table Float := empty 1 0.125 HashFunction.mix64.hash
    (Made memory plain ∧ (plain.run memory operations).capacity = 64 ∧
      Within plain.loadLimit (plain.run memory operations).loadFactor ∧
      ¬ Within plain.loadLimit (plain.put memory ⟨1, 10⟩).loadFactor) ∧
    Made memory rounded ∧ (rounded.run memory operations).capacity = 64 ∧
      Within rounded.loadLimit (rounded.run memory operations).loadFactor ∧
      Within rounded.loadLimit
        ((rounded.run memory operations).run memory [.put ⟨7, 70⟩]).loadFactor ∧
      ¬ Within rounded.loadLimit (rounded.put memory ⟨1, 10⟩).loadFactor := by
  intro memory operations plain rounded
  constructor
  · have made : Made memory plain := made_crowded rfl (by norm_num)
    have granted : (plain.run memory operations).failedResizes = 0 := by decide +kernel
    obtain ⟨-, soon, -, -, narrow⟩ :=
      loadFactor_catches_up memory made trivial operations granted
    exact ⟨made, by decide +kernel, soon (by decide +kernel), narrow (by decide +kernel) ⟨1, 10⟩⟩
  · have valid : Settings.Valid (⟨1, 0.125, .mix64⟩ : Settings Float) :=
      ⟨Nat.one_pos, by decide +kernel⟩
    have made : Made memory rounded := .ofSettings (ofSettings_eq_ok_iff.mpr ⟨valid, rfl, rfl⟩)
    have sized : Ordered.Measures Float (2 * max rounded.capacity UInt64.size) :=
      LoadScale.measures_of_word (by decide)
    have granted : (rounded.run memory operations).failedResizes = 0 := by decide +kernel
    obtain ⟨-, soon, stays, -, narrow⟩ :=
      loadFactor_catches_up memory made sized operations granted
    have within : Within rounded.loadLimit (rounded.run memory operations).loadFactor :=
      soon (by decide +kernel)
    exact ⟨made, by decide +kernel, within,
      stays (by decide +kernel) within [.put ⟨7, 70⟩] (by decide +kernel),
      narrow (by decide +kernel) ⟨1, 10⟩⟩

/-- A limit of a quarter is valid for one bucket, and the first entry is over it: measured exactly,
and measured as a running table does. -/
theorem lt_loadFactor_of_quarter :
    let memory := Memory.unbounded
    let exact : Settings Rat := ⟨1, 1 / 4, .mix64⟩
    let rounded : Settings Float := ⟨1, 0.25, .mix64⟩
    (∃ start, ofSettings memory exact = .ok start ∧
      (start.put memory ⟨1, 10⟩).failedResizes = 0 ∧
      ¬ (start.put memory ⟨1, 10⟩).loadFactor ≤ exact.loadLimit) ∧
    ∃ start, ofSettings memory rounded = .ok start ∧
      (start.put memory ⟨1, 10⟩).failedResizes = 0 ∧
      LoadScale.less rounded.loadLimit (start.put memory ⟨1, 10⟩).loadFactor = true := by
  intro memory exact rounded
  constructor
  · refine ⟨_, ofSettings_eq_ok_iff.mpr ⟨⟨by decide, ?_⟩, rfl, rfl⟩, by decide +kernel,
      by decide +kernel⟩
    decide +kernel
  · refine ⟨_, ofSettings_eq_ok_iff.mpr ⟨⟨by decide, ?_⟩, rfl, rfl⟩, by decide +kernel,
      by decide +kernel⟩
    decide +kernel

end KeyPartitions.Table
