import KeyPartitions.Proofs.CatchingUp

/-!
# Recovery

Load is measured exactly here. Refusals can leave a table far over its limit and with a mark ahead
of its count. When memory grants doublings again, new entries first bring the count up to the mark
and ask for nothing. From there on each of them doubles the buckets until the limit admits the
entries, and then the load factor stays within the limit.
-/
namespace KeyPartitions.Table

/-- The entries are put one after another, each under a key that is absent then. -/
def Inserts {α : Type} [LoadScale α] (memory : Memory) (table : Table α) : List Entry → Prop
  | [] => True
  | entry :: rest => table.find? entry.key = none ∧ Inserts memory (table.put memory entry) rest

section Inserts

variable {α : Type} [LoadScale α] {memory : Memory} {table : Table α}

theorem extend_cons (entry : Entry) (rest : List Entry) :
    table.extend memory (entry :: rest) = (table.put memory entry).extend memory rest :=
  rfl

theorem extend_append (first second : List Entry) :
    table.extend memory (first ++ second) = (table.extend memory first).extend memory second :=
  List.foldl_append

theorem inserts_append (first second : List Entry) :
    Inserts memory table (first ++ second) ↔
      Inserts memory table first ∧ Inserts memory (table.extend memory first) second := by
  induction first generalizing table with
  | nil => simp [Inserts, extend]
  | cons entry rest ih =>
    rw [List.cons_append, Inserts, Inserts, ih, extend_cons, and_assoc]

theorem Inserts.count_extend {entries : List Entry} (inserts : Inserts memory table entries) :
    (table.extend memory entries).count = table.count + entries.length := by
  induction entries generalizing table with
  | nil => rfl
  | cons entry rest ih =>
    rw [extend_cons, ih inserts.2, count_put_of_absent inserts.1, List.length_cons]
    omega

/-- An extension that meets no refusal meets none in its first part and none in its second. -/
theorem granted_append (first second : List Entry)
    (granted : (table.extend memory (first ++ second)).failedResizes = table.failedResizes) :
    (table.extend memory first).failedResizes = table.failedResizes ∧
      ((table.extend memory first).extend memory second).failedResizes =
        (table.extend memory first).failedResizes := by
  rw [extend_append] at granted
  have before := failedResizes_le_extend memory table first
  have behind := failedResizes_le_extend memory (table.extend memory first) second
  omega

variable (memory table) in
theorem loadLimit_extend (entries : List Entry) :
    (table.extend memory entries).loadLimit = table.loadLimit := by
  rw [extend_eq_run]
  exact (run_keeps_settings _).2

variable (memory table) in
theorem capacity_le_extend (entries : List Entry) :
    table.capacity ≤ (table.extend memory entries).capacity := by
  rw [extend_eq_run]
  exact capacity_le_run memory table _

/-! ### Before the mark -/

/-- Short of its mark a table takes a new entry into the buckets that it has. -/
theorem put_of_waiting {entry : Entry} (waiting : table.count < table.retryAt)
    (absent : table.find? entry.key = none) : table.put memory entry = table.prepend entry := by
  have idle : table.needsGrowth = false := by simp [needsGrowth, waiting]
  rw [put_of_absent absent, makeRoom, idle, if_neg Bool.false_ne_true]

/-- Entries that do not pass the mark leave the table as it is, but for its chains and counts. -/
theorem Inserts.waits {entries : List Entry} (inserts : Inserts memory table entries)
    (short : entries ≠ [] → table.count + entries.length ≤ table.retryAt) :
    let after := table.extend memory entries
    after.attempts = table.attempts ∧ after.capacity = table.capacity ∧
      after.retryAt = table.retryAt ∧ after.loadLimit = table.loadLimit := by
  induction entries generalizing table with
  | nil => exact ⟨rfl, rfl, rfl, rfl⟩
  | cons entry rest ih =>
    have room := short (List.cons_ne_nil entry rest)
    rw [List.length_cons] at room
    have added : table.put memory entry = table.prepend entry :=
      put_of_waiting (by omega) inserts.1
    have count : (table.prepend entry).count = table.count + 1 := rfl
    have mark : (table.prepend entry).retryAt = table.retryAt := rfl
    have others := inserts.2
    rw [added] at others
    obtain ⟨attempts, capacity, retryAt, limit⟩ := ih others fun _ => by omega
    rw [extend_cons, added]
    exact ⟨attempts, capacity.trans capacity_prepend, retryAt, limit⟩

/-- Entries that reach the mark no sooner than with the last of them do not pass it. -/
theorem Inserts.count_add_length_le {entries : List Entry} (inserts : Inserts memory table entries)
    (first : ∀ shorter, shorter <+: entries → shorter ≠ entries →
      (table.extend memory shorter).count < table.retryAt)
    (some : entries ≠ []) : table.count + entries.length ≤ table.retryAt := by
  obtain ⟨shorter, last, rfl⟩ := (List.eq_nil_or_concat' entries).resolve_left some
  have below := first shorter (List.prefix_append _ _) (by simp)
  rw [((inserts_append shorter [last]).mp inserts).1.count_extend] at below
  rw [List.length_append, List.length_singleton]
  omega

end Inserts

/-! ### From the mark on -/

section Ready

variable {memory : Memory} {table : Table Rat}

/-- Exact measures reach any count. -/
theorem measured (table : Table Rat) : table.Measured := ⟨trivial, trivial⟩

/-- A grant takes the mark back, and without one the count goes on from the mark. -/
theorem ready_put {entry : Entry} (ready : table.retryAt ≤ table.count)
    (absent : table.find? entry.key = none)
    (granted : (table.put memory entry).failedResizes = table.failedResizes) :
    (table.put memory entry).retryAt ≤ (table.put memory entry).count := by
  rcases put_absent_granted_cases absent granted with ⟨-, kept⟩ | ⟨-, grown⟩
  · rw [kept]
    exact Nat.le_succ_of_le ready
  · rw [grown]
    exact Nat.zero_le _

theorem Inserts.ready_extend {entries : List Entry} (inserts : Inserts memory table entries)
    (ready : table.retryAt ≤ table.count)
    (granted : (table.extend memory entries).failedResizes = table.failedResizes) :
    (table.extend memory entries).retryAt ≤ (table.extend memory entries).count := by
  induction entries generalizing table with
  | nil => exact ready
  | cons entry rest ih =>
    obtain ⟨first, later⟩ := granted_append [entry] rest granted
    exact ih inserts.2 (ready_put ready inserts.1 first) later

/-- Insertions that meet no refusal settle the table, or it was not settled and each of them has
doubled the buckets. -/
theorem Inserts.settles_or_doubles {entries : List Entry} (inserts : Inserts memory table entries)
    (nonempty : 0 < table.capacity) (ready : table.retryAt ≤ table.count)
    (granted : (table.extend memory entries).failedResizes = table.failedResizes) :
    (table.extend memory entries).Settled ∨
      ¬ table.Settled ∧
        (table.extend memory entries).capacity = table.capacity * 2 ^ entries.length := by
  induction entries generalizing table with
  | nil =>
    by_cases settled : table.Settled
    · exact Or.inl settled
    · exact Or.inr ⟨settled, (Nat.mul_one _).symm⟩
  | cons entry rest ih =>
    obtain ⟨absent, others⟩ := inserts
    obtain ⟨first, later⟩ := granted_append [entry] rest granted
    have wider := nonempty.trans_le (table.capacity_le_put memory entry)
    rcases ih others wider (ready_put ready absent first) later with settled | ⟨behind, doubled⟩
    · exact Or.inl settled
    · -- The first put did not settle the table, so it doubled the buckets as well.
      have first := put_absent_settles_or_doubles table.measured nonempty ready absent first
      obtain ⟨unsettled, twice⟩ := first.resolve_left behind
      refine Or.inr ⟨unsettled, ?_⟩
      rw [extend_cons, doubled, twice, List.length_cons, pow_succ]
      ring

theorem Inserts.loadFactor_le_or_doubled {entries : List Entry}
    (inserts : Inserts memory table entries) (nonempty : 0 < table.capacity)
    (ready : table.retryAt ≤ table.count)
    (granted : (table.extend memory entries).failedResizes = table.failedResizes) :
    (table.extend memory entries).loadFactor ≤ table.loadLimit ∨
      ¬ table.Settled ∧
        (table.extend memory entries).capacity = table.capacity * 2 ^ entries.length := by
  rcases inserts.settles_or_doubles nonempty ready granted with settled | doubled
  · left
    rw [← loadLimit_extend memory table entries]
    have wider := nonempty.trans_le (capacity_le_extend memory table entries)
    exact LoadScale.within_iff_le.mp (settled.within (measured _) wider)
  · exact Or.inr doubled

/-- The limit is kept once it admits the entries in buckets doubled for each insertion. -/
theorem Inserts.loadFactor_le {entries : List Entry} (inserts : Inserts memory table entries)
    (nonempty : 0 < table.capacity) (ready : table.retryAt ≤ table.count)
    (granted : (table.extend memory entries).failedResizes = table.failedResizes)
    (few : ((table.count + entries.length : Nat) : Rat) ≤
      table.loadLimit * (table.capacity * 2 ^ entries.length : Nat)) :
    (table.extend memory entries).loadFactor ≤ table.loadLimit := by
  rcases inserts.loadFactor_le_or_doubled nonempty ready granted with within | ⟨-, doubled⟩
  · exact within
  · have wider := nonempty.trans_le (capacity_le_extend memory table entries)
    have buckets : (0 : Rat) < (table.extend memory entries).capacity := by exact_mod_cast wider
    rw [← doubled, ← inserts.count_extend] at few
    exact (div_le_iff₀ buckets).mpr few

/-- Within the limit with an entry, the table stays within it. -/
theorem Inserts.stays_within {entries : List Entry} (inserts : Inserts memory table entries)
    (nonempty : 0 < table.capacity) (ready : table.retryAt ≤ table.count)
    (granted : (table.extend memory entries).failedResizes = table.failedResizes)
    (inhabited : 0 < table.count) (within : table.loadFactor ≤ table.loadLimit) :
    (table.extend memory entries).loadFactor ≤ table.loadLimit :=
  (inserts.loadFactor_le_or_doubled nonempty ready granted).resolve_right fun behind =>
    behind.1 (settled_of_within inhabited (LoadScale.within_iff_le.mpr within))

end Ready

/-! ### The law -/

/-- New entries put while memory grants every doubling. Short of the mark nothing is asked for. From
the first count at the mark on, the load factor is within the limit or every entry has doubled the
buckets. So it comes within the limit after a few entries, and it stays there. -/
theorem load_recovers (memory : Memory) {start : Table Rat} (made : Made memory start)
    (history : List Operation) (entries : List Entry)
    (inserts : Inserts memory (start.run memory history) entries)
    (granted : ((start.run memory history).extend memory entries).failedResizes =
      (start.run memory history).failedResizes) :
    let table := start.run memory history
    (∀ done entry, done ++ [entry] <+: entries →
      (table.extend memory done).count < table.retryAt →
        (table.extend memory (done ++ [entry])).attempts = table.attempts) ∧
    ∀ waited, waited <+: entries → table.retryAt ≤ (table.extend memory waited).count →
      (∀ shorter, shorter <+: waited → shorter ≠ waited →
        (table.extend memory shorter).count < table.retryAt) →
      let ready := table.extend memory waited
      ready.capacity = table.capacity ∧
      ∀ further, waited ++ further <+: entries →
        let after := ready.extend memory further
        (after.loadFactor ≤ table.loadLimit ∨
          after.capacity = table.capacity * 2 ^ further.length) ∧
        (((ready.count + further.length : Nat) : Rat) ≤
            table.loadLimit * (table.capacity * 2 ^ further.length : Nat) →
          after.loadFactor ≤ table.loadLimit) ∧
        (0 < after.count → after.loadFactor ≤ table.loadLimit →
          ∀ later, waited ++ further ++ later <+: entries →
            (after.extend memory later).loadFactor ≤ table.loadLimit) := by
  intro table
  have nonempty : 0 < table.capacity := (made.wellFormed.run memory history).nonempty
  -- Any part of the entries from the start on inserts and meets no refusal.
  have part {some : List Entry} (within : some <+: entries) :
      Inserts memory table some ∧
        (table.extend memory some).failedResizes = table.failedResizes := by
    obtain ⟨rest, rfl⟩ := within
    exact ⟨((inserts_append some rest).mp inserts).1, (granted_append some rest granted).1⟩
  refine ⟨fun done entry within below => ?idle, fun waited within reached first => ?recovers⟩
  case idle =>
    have all := (part within).1
    have before := ((inserts_append done [entry]).mp all).1
    rw [before.count_extend] at below
    refine (all.waits fun _ => ?_).1
    rw [List.length_append, List.length_singleton]
    omega
  case recovers =>
    have insertsWaited := (part within).1
    obtain ⟨-, capacity, mark, limit⟩ :=
      insertsWaited.waits (insertsWaited.count_add_length_le first)
    intro ready
    have nonemptyReady : 0 < ready.capacity := capacity ▸ nonempty
    have atMark : ready.retryAt ≤ ready.count := mark.trans_le reached
    have beyond {more : List Entry} (inside : waited ++ more <+: entries) :
        Inserts memory ready more ∧
          (ready.extend memory more).failedResizes = ready.failedResizes := by
      obtain ⟨insertsBoth, grantedBoth⟩ := part inside
      exact ⟨((inserts_append waited more).mp insertsBoth).2,
        (granted_append waited more grantedBoth).2⟩
    refine ⟨capacity, fun further inside => ?_⟩
    intro after
    obtain ⟨insertsFurther, grantedFurther⟩ := beyond inside
    rw [← limit, ← capacity]
    refine ⟨(insertsFurther.loadFactor_le_or_doubled nonemptyReady atMark grantedFurther).imp_right
      And.right, insertsFurther.loadFactor_le nonemptyReady atMark grantedFurther, ?stays⟩
    case stays =>
      intro inhabited settles later whole
      rw [List.append_assoc] at whole
      obtain ⟨insertsBoth, grantedBoth⟩ := beyond whole
      have insertsLater : Inserts memory after later :=
        ((inserts_append further later).mp insertsBoth).2
      have grantedLater := (granted_append further later grantedBoth).2
      have nonemptyAfter := nonemptyReady.trans_le (capacity_le_extend memory ready further)
      have readyAfter := insertsFurther.ready_extend atMark grantedFurther
      have limitAfter : after.loadLimit = ready.loadLimit := loadLimit_extend memory ready further
      rw [← limitAfter] at settles ⊢
      exact insertsLater.stays_within nonemptyAfter readyAfter grantedLater inhabited settles

/-- Four refusals leave five entries in one bucket and a mark at eight. Three more entries reach the
mark, and the fifth one after that is within the limit. -/
theorem load_recovers_of_outage :
    let memory : Memory := ⟨fun _ => true, fun attempt _ => 4 ≤ attempt⟩
    let start := crowded (1 / 2)
    let history : List Operation :=
      [.extend [⟨1, 10⟩, ⟨2, 20⟩, ⟨3, 30⟩, ⟨4, 40⟩, ⟨5, 50⟩], .put ⟨1, 11⟩]
    let table := start.run memory history
    let waited : List Entry := [⟨6, 60⟩, ⟨7, 70⟩, ⟨8, 80⟩]
    let further : List Entry := [⟨9, 90⟩, ⟨10, 100⟩, ⟨11, 110⟩, ⟨12, 120⟩, ⟨13, 130⟩]
    let ready := table.extend memory waited
    let after := ready.extend memory further
    Made memory start ∧ table.count = 5 ∧ table.failedResizes = 4 ∧ table.retryAt = 8 ∧
      Inserts memory table (waited ++ further) ∧
      (table.extend memory (waited ++ further)).failedResizes = table.failedResizes ∧
      ready.count = 8 ∧ ready.capacity = 1 ∧ ready.attempts = 4 ∧
      after.capacity = 32 ∧ after.loadFactor ≤ table.loadLimit := by
  intro memory start history table waited further ready after
  have made : Made memory start := made_crowded rfl (by norm_num)
  have inserts : Inserts memory table (waited ++ further) := by
    simp only [waited, further, List.cons_append, List.nil_append, Inserts, and_true]
    decide +kernel
  have granted : (table.extend memory (waited ++ further)).failedResizes = table.failedResizes := by
    decide +kernel
  obtain ⟨idle, recovers⟩ := load_recovers memory made history (waited ++ further) inserts granted
  have attempts : ready.attempts = 4 := by
    have same := idle [⟨6, 60⟩, ⟨7, 70⟩] ⟨8, 80⟩ (by decide) (by decide +kernel)
    exact same.trans (by decide +kernel)
  have first : ∀ shorter, shorter <+: waited → shorter ≠ waited →
      (table.extend memory shorter).count < table.retryAt := by
    have parts : ∀ shorter ∈ waited.inits, shorter ≠ waited →
        (table.extend memory shorter).count < table.retryAt := by decide +kernel
    exact fun shorter part => parts shorter ((List.mem_inits shorter waited).mpr part)
  obtain ⟨capacity, catchesUp⟩ := recovers waited (List.prefix_append _ _) (by decide +kernel) first
  obtain ⟨-, soon, -⟩ := catchesUp further List.prefix_rfl
  exact ⟨made, by decide +kernel, by decide +kernel, by decide +kernel, inserts, granted,
    by decide +kernel, capacity.trans (by decide +kernel), attempts, by decide +kernel,
    soon (by decide +kernel)⟩

end KeyPartitions.Table
