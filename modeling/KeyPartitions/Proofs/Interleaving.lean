import KeyPartitions.Proofs.Reachable
import Mathlib.Algebra.BigOperators.Ring.Finset
import Mathlib.Data.Fintype.Basic
import Mathlib.Order.CompletePartialOrder

/-!
# Interleaved clients

Several clients share one table. Each call is atomic, so what happens is a run of the table over an
interleaving of their programs. Where every client keeps to keys of its own, the table stays abreast
of each client's table as it would be with that client alone: the two look its keys up alike, and
what they count goes up and down together. The calls of the others are outside these keys and leave
them. The main statement is `interleaving_undisturbed`.
-/
namespace KeyPartitions

section Schedules

variable {ι β : Type} [DecidableEq ι]

/-- A client's part of a list whose items belong to clients, in order. -/
def part (client : ι) (items : List (ι × β)) : List β :=
  (items.filter (·.1 = client)).map Prod.snd

@[simp] theorem part_nil (client : ι) : part client ([] : List (ι × β)) = [] := rfl

@[simp] theorem part_cons_self (client : ι) (item : β) (rest : List (ι × β)) :
    part client ((client, item) :: rest) = item :: part client rest := by
  simp [part]

theorem part_cons_of_ne {client other : ι} (differs : client ≠ other) (item : β)
    (rest : List (ι × β)) : part other ((client, item) :: rest) = part other rest := by
  simp [part, differs]

theorem mem_part {client : ι} {item : β} {items : List (ι × β)} :
    item ∈ part client items ↔ (client, item) ∈ items := by
  simp [part]

end Schedules

/-- All keys of an operation are among these. Clearing has to do with every key. -/
def Operation.Within (keys : Set Key) : Operation → Prop
  | .put entry => entry.key ∈ keys
  | .extend entries => ∀ entry ∈ entries, entry.key ∈ keys
  | .remove key => key ∈ keys
  | .get key => key ∈ keys
  | .getOrNotFound key => key ∈ keys
  | .contains key => key ∈ keys
  | .clear => False

/-- How many entries an operation puts. -/
def Operation.puts : Operation → Nat
  | .put _ => 1
  | .extend entries => entries.length
  | _ => 0

/-- A schedule interleaves programs when each client makes the calls of its program in order. -/
def Interleaves {ι : Type} [DecidableEq ι] (schedule : List (ι × Operation))
    (programs : ι → List Operation) : Prop :=
  ∀ client, part client schedule = programs client

theorem Interleaves.within {ι : Type} [DecidableEq ι] {schedule : List (ι × Operation)}
    {programs : ι → List Operation} (interleaves : Interleaves schedule programs)
    {keys : ι → Set Key}
    (within : ∀ client, ∀ operation ∈ programs client, operation.Within (keys client)) :
    ∀ call ∈ schedule, call.2.Within (keys call.1) := by
  rintro ⟨client, operation⟩ member
  apply within client
  rw [← interleaves client]
  exact mem_part.mpr member

namespace Table

variable {α : Type}

/-! ### Gauges -/

/-- What a table counts of its entries and changes. -/
inductive Gauge
  | size
  | writes
  | removes

namespace Gauge

def read (table : Table α) : Gauge → Nat
  | .size => table.count
  | .writes => table.operations.writes
  | .removes => table.operations.removes

/-- How far a gauge goes up from one table to another. -/
def advance (gauge : Gauge) (before after : Table α) : ℤ := gauge.read after - gauge.read before

@[simp] theorem advance_self (gauge : Gauge) (table : Table α) : gauge.advance table table = 0 :=
  sub_self _

theorem advance_add_advance (gauge : Gauge) (first second third : Table α) :
    gauge.advance first second + gauge.advance second third = gauge.advance first third := by
  simp only [advance]
  omega

/-- The advance that a put makes, by whether its key is present. -/
def ofPut (present : Bool) : Gauge → ℤ
  | .size => if present then 0 else 1
  | .writes => 1
  | .removes => 0

/-- The advance that a removal makes, by whether its key is present. -/
def ofRemove (present : Bool) : Gauge → ℤ
  | .size => if present then -1 else 0
  | .writes => 0
  | .removes => if present then 1 else 0

theorem read_makeRoom [LoadScale α] (gauge : Gauge) (memory : Memory) (table : Table α) :
    gauge.read (table.makeRoom memory) = gauge.read table := by
  cases gauge <;> simp [read]

theorem advance_put [LoadScale α] (gauge : Gauge) (memory : Memory) (table : Table α)
    (entry : Entry) :
    gauge.advance table (table.put memory entry) =
      gauge.ofPut (table.find? entry.key).isSome := by
  rcases put_cases memory table entry with ⟨present, changed⟩ | ⟨absent, added⟩
  · rw [changed, present]
    cases gauge <;> simp [advance, read, ofPut, overwrite]
  · rw [added, absent, advance, ← read_makeRoom gauge memory table]
    cases gauge <;> simp [read, ofPut, prepend]

theorem advance_get (gauge : Gauge) (table : Table α) (key : Key) :
    gauge.advance table (table.get key).2 = 0 := by
  rcases table.get_snd_cases key with same | counted
  · rw [same, advance_self]
  · rw [counted]; cases gauge <;> exact sub_self _

theorem advance_remove {table : Table α} (wf : table.WellFormed) (gauge : Gauge) (key : Key) :
    gauge.advance table (table.remove key).2 = gauge.ofRemove (table.find? key).isSome := by
  rcases table.remove_cases key with ⟨absent, same⟩ | ⟨present, unlinked⟩
  · rw [same, absent]
    cases gauge <;> simp [ofRemove]
  · -- The entry that goes was counted.
    obtain ⟨entry, member, -⟩ := wf.find?_isSome_iff.mp present
    have counted : 0 < table.count := wf.counted ▸ List.length_pos_of_mem member
    rw [unlinked, present]
    cases gauge <;> simp [advance, read, ofRemove, Table.unlinked]
    omega

end Gauge

/-! ### Two tables abreast -/

theorem find?_get (table : Table α) (key other : Key) :
    (table.get key).2.find? other = table.find? other := by
  rcases table.get_snd_cases key with same | counted
  · rw [same]
  · rw [counted]; rfl

theorem WellFormed.get {table : Table α} (wf : table.WellFormed) (key : Key) :
    (table.get key).2.WellFormed :=
  get_preserves (fun _ wf => wf.countRead) wf key

/-- Two tables look some keys up alike and their gauges are a fixed distance apart. -/
structure Abreast (keys : Set Key) (apart : Gauge → ℤ) (first second : Table α) : Prop where
  left : first.WellFormed
  right : second.WellFormed
  find : ∀ key ∈ keys, first.find? key = second.find? key
  gauges : ∀ gauge, gauge.advance second first = apart gauge

namespace Abreast

variable {keys : Set Key} {apart : Gauge → ℤ} {first second : Table α}
  (abreast : Abreast keys apart first second)

include abreast

/-- Gauges that advance alike stay as far apart as they are. -/
theorem keeps_apart {nextFirst nextSecond : Table α} {gauge : Gauge}
    (alike : gauge.advance first nextFirst = gauge.advance second nextSecond) :
    gauge.advance nextSecond nextFirst = apart gauge := by
  rw [← abreast.gauges]
  simp only [Gauge.advance] at alike ⊢
  omega

theorem get {key : Key} (inside : key ∈ keys) :
    (first.get key).1 = (second.get key).1 ∧
      Abreast keys apart (first.get key).2 (second.get key).2 := by
  refine ⟨by rw [get_fst, get_fst, abreast.find key inside], abreast.left.get key,
    abreast.right.get key, fun other member => ?_, fun gauge => ?_⟩
  · rw [find?_get, find?_get, abreast.find other member]
  · apply abreast.keeps_apart
    rw [Gauge.advance_get, Gauge.advance_get]

theorem remove {key : Key} (inside : key ∈ keys) :
    (first.remove key).1 = (second.remove key).1 ∧
      Abreast keys apart (first.remove key).2 (second.remove key).2 := by
  have found := abreast.find key inside
  refine ⟨by rw [remove_fst, remove_fst, found], abreast.left.remove key,
    abreast.right.remove key, fun other member => ?_, fun gauge => ?_⟩
  · rw [abreast.left.find?_remove, abreast.right.find?_remove, abreast.find other member]
  · apply abreast.keeps_apart
    rw [Gauge.advance_remove abreast.left, Gauge.advance_remove abreast.right, found]

variable [LoadScale α] (memory alone : Memory)

theorem put {entry : Entry} (inside : entry.key ∈ keys) :
    Abreast keys apart (first.put memory entry) (second.put alone entry) where
  left := abreast.left.put memory entry
  right := abreast.right.put alone entry
  find key member := by
    rw [abreast.left.find?_put, abreast.right.find?_put, abreast.find key member]
  gauges gauge := by
    apply abreast.keeps_apart
    rw [Gauge.advance_put, Gauge.advance_put, abreast.find _ inside]

theorem extend {entries : List Entry} (inside : ∀ entry ∈ entries, entry.key ∈ keys) :
    Abreast keys apart (first.extend memory entries) (second.extend alone entries) := by
  induction entries generalizing first second with
  | nil => exact abreast
  | cons entry rest ih =>
    obtain ⟨own, others⟩ := List.forall_mem_cons.mp inside
    exact ih (abreast.put memory alone own) others

/-- Tables abreast on the keys of an operation answer it alike, and stay abreast. -/
theorem perform {operation : Operation} (within : operation.Within keys) :
    (first.perform memory operation).1 = (second.perform alone operation).1 ∧
      Abreast keys apart (first.perform memory operation).2
        (second.perform alone operation).2 := by
  cases operation with
  | put entry => exact ⟨rfl, abreast.put memory alone within⟩
  | extend entries => exact ⟨rfl, abreast.extend memory alone within⟩
  | remove key =>
    obtain ⟨answer, after⟩ := abreast.remove within
    exact ⟨congrArg Answer.flag answer, after⟩
  | get key =>
    obtain ⟨answer, after⟩ := abreast.get within
    exact ⟨congrArg Answer.lookup answer, after⟩
  | getOrNotFound key =>
    obtain ⟨answer, after⟩ := abreast.get within
    have value : (first.get key).1.getD notFound = (second.get key).1.getD notFound := by
      rw [answer]
    exact ⟨congrArg Answer.partition value, after⟩
  | contains key =>
    obtain ⟨answer, after⟩ := abreast.get within
    have present : (first.get key).1.isSome = (second.get key).1.isSome := by rw [answer]
    exact ⟨congrArg Answer.flag present, after⟩
  | clear => exact within.elim

end Abreast

/-! ### What an operation leaves -/

section Frame

variable [LoadScale α] {memory : Memory} {table : Table α} {keys : Set Key}

theorem WellFormed.perform (wf : table.WellFormed) (memory : Memory) (operation : Operation) :
    (table.perform memory operation).2.WellFormed :=
  wf.run memory [operation]

theorem WellFormed.find?_extend_of_ne (wf : table.WellFormed) {entries : List Entry} {key : Key}
    (others : ∀ entry ∈ entries, entry.key ≠ key) :
    (table.extend memory entries).find? key = table.find? key := by
  induction entries generalizing table with
  | nil => rfl
  | cons entry rest ih =>
    obtain ⟨differs, behind⟩ := List.forall_mem_cons.mp others
    exact (ih (wf.put memory entry) behind).trans (by rw [wf.find?_put, if_neg differs])

/-- An operation leaves the keys that are not its own. -/
theorem WellFormed.find?_perform (wf : table.WellFormed) {operation : Operation}
    (within : operation.Within keys) {key : Key} (outside : key ∉ keys) :
    (table.perform memory operation).2.find? key = table.find? key := by
  -- A key of the operation is not this one.
  have differs {own : Key} (inside : own ∈ keys) : own ≠ key := by
    rintro rfl
    exact outside inside
  cases operation with
  | put entry => exact (wf.find?_put memory entry key).trans (if_neg (differs within))
  | extend entries =>
    exact wf.find?_extend_of_ne fun entry member => differs (within entry member)
  | remove own => exact (wf.find?_remove own key).trans (if_neg (differs within))
  | get own => exact find?_get table own key
  | getOrNotFound own => exact find?_get table own key
  | contains own => exact find?_get table own key
  | clear => exact within.elim

end Frame

/-! ### The shared table and the tables of its clients -/

variable {ι : Type} [DecidableEq ι]

section Replies

variable [LoadScale α]

/-- The answers to a list of operations. -/
def answers (memory : Memory) (table : Table α) (operations : List Operation) : List Answer :=
  (table.trace memory operations).map Prod.fst

theorem answers_cons (memory : Memory) (table : Table α) (operation : Operation)
    (rest : List Operation) :
    table.answers memory (operation :: rest) =
      (table.perform memory operation).1 ::
        (table.perform memory operation).2.answers memory rest := rfl

/-- The table after the calls of a schedule. -/
def serve (memory : Memory) (table : Table α) (schedule : List (ι × Operation)) : Table α :=
  table.run memory (schedule.map Prod.snd)

/-- The answers to the calls of a schedule, each with the client that hears it. -/
def replies (memory : Memory) (table : Table α) (schedule : List (ι × Operation)) :
    List (ι × Answer) :=
  (schedule.map Prod.fst).zip (table.answers memory (schedule.map Prod.snd))

omit [DecidableEq ι] in
theorem replies_cons (memory : Memory) (table : Table α) (client : ι) (operation : Operation)
    (rest : List (ι × Operation)) :
    table.replies memory ((client, operation) :: rest) =
      (client, (table.perform memory operation).1) ::
        (table.perform memory operation).2.replies memory rest := rfl

omit [DecidableEq ι] in
theorem serve_cons (memory : Memory) (table : Table α) (client : ι) (operation : Operation)
    (rest : List (ι × Operation)) :
    table.serve memory ((client, operation) :: rest) =
      (table.perform memory operation).2.serve memory rest := rfl

end Replies

variable [Fintype ι]

/-- A shared table against the tables that its clients have made of `start`, each on its own: it
looks the keys of a client up as the client's table does, and the other keys as the start. -/
structure Merges (keys : ι → Set Key) (start : Table α) (alone : ι → Table α)
    (shared : Table α) : Prop where
  wellFormed : shared.WellFormed
  separate : ∀ client, (alone client).WellFormed
  own : ∀ client, ∀ key ∈ keys client, shared.find? key = (alone client).find? key
  untouched : ∀ key, (∀ client, key ∉ keys client) → shared.find? key = start.find? key
  advance : ∀ gauge : Gauge,
    gauge.advance start shared = ∑ client, gauge.advance start (alone client)

namespace Merges

variable {keys : ι → Set Key} {start : Table α} {alone : ι → Table α} {shared : Table α}

omit [DecidableEq ι] in
theorem refl (keys : ι → Set Key) (wf : start.WellFormed) :
    Merges keys start (fun _ => start) start where
  wellFormed := wf
  separate _ := wf
  own _ _ _ := rfl
  untouched _ _ := rfl
  advance gauge := by simp

variable (merges : Merges keys start alone shared)

include merges

omit [DecidableEq ι] in
theorem abreast (client : ι) :
    Abreast (keys client) (fun gauge => gauge.advance (alone client) shared) shared
      (alone client) where
  left := merges.wellFormed
  right := merges.separate client
  find := merges.own client
  gauges _ := rfl

/-- One client's table goes on by as much as the shared one. -/
theorem advance_update {client : ι} {next own : Table α} {gauge : Gauge}
    (alike : gauge.advance shared next = gauge.advance (alone client) own) :
    gauge.advance start next =
      ∑ other, gauge.advance start (Function.update alone client own other) := by
  -- Only the summand of this client changes.
  have others : ∀ other ∈ Finset.univ.erase client,
      gauge.advance start (Function.update alone client own other) =
        gauge.advance start (alone other) := by
    intro other member
    rw [Function.update_of_ne (Finset.ne_of_mem_erase member)]
  calc gauge.advance start next
      = ∑ other, gauge.advance start (alone other) + gauge.advance (alone client) own := by
        rw [← alike, ← merges.advance, gauge.advance_add_advance]
    _ = gauge.advance start own +
          ∑ other ∈ Finset.univ.erase client, gauge.advance start (alone other) := by
        rw [← Finset.add_sum_erase _ _ (Finset.mem_univ client),
          ← gauge.advance_add_advance start (alone client) own]
        ring
    _ = ∑ other, gauge.advance start (Function.update alone client own other) := by
        rw [← Finset.add_sum_erase _ _ (Finset.mem_univ client), Function.update_self,
          Finset.sum_congr rfl others]

variable [LoadScale α] (disjoint : Pairwise fun one other => Disjoint (keys one) (keys other))

include disjoint

/-- A call goes to the shared table and to its client's own one with the same answer. The other
clients' tables stay as they are. -/
theorem perform (memory own : Memory) {client : ι} {operation : Operation}
    (within : operation.Within (keys client)) :
    (shared.perform memory operation).1 = ((alone client).perform own operation).1 ∧
      Merges keys start
        (Function.update alone client ((alone client).perform own operation).2)
        (shared.perform memory operation).2 := by
  obtain ⟨answer, after⟩ := (merges.abreast client).perform memory own within
  refine ⟨answer, after.left, fun other => ?separate, fun other key inside => ?own,
    fun key outside => ?untouched, fun gauge => ?advance⟩
  case separate =>
    rcases eq_or_ne other client with rfl | differs
    · rw [Function.update_self]; exact after.right
    · rw [Function.update_of_ne differs]; exact merges.separate other
  case own =>
    rcases eq_or_ne other client with rfl | differs
    · rw [Function.update_self]; exact after.find key inside
    · -- The key is another client's, so the call leaves it.
      have outside : key ∉ keys client := (disjoint differs).notMem_of_mem_left inside
      rw [Function.update_of_ne differs, merges.wellFormed.find?_perform within outside]
      exact merges.own other key inside
  case untouched =>
    rw [merges.wellFormed.find?_perform within (outside client)]
    exact merges.untouched key outside
  case advance =>
    -- Two gauges that are as far apart as before have gone on alike.
    apply merges.advance_update
    have same := after.gauges gauge
    simp only [Gauge.advance] at same ⊢
    omega

/-- A schedule gives each client the answers that it would get alone. -/
theorem run (memory : Memory) (memories : ι → Memory) {schedule : List (ι × Operation)}
    (within : ∀ call ∈ schedule, call.2.Within (keys call.1)) :
    (∀ client, part client (shared.replies memory schedule) =
      (alone client).answers (memories client) (part client schedule)) ∧
    Merges keys start
      (fun client => (alone client).run (memories client) (part client schedule))
      (shared.serve memory schedule) := by
  -- The first call moves its client's own table on, and leaves the others where they are.
  induction schedule generalizing alone shared with
  | nil => exact ⟨fun _ => rfl, merges⟩
  | cons call rest ih =>
    obtain ⟨client, operation⟩ := call
    obtain ⟨now, later⟩ := List.forall_mem_cons.mp within
    obtain ⟨answer, after⟩ := merges.perform disjoint memory (memories client) now
    obtain ⟨heard, final⟩ := ih after later
    constructor
    · intro other
      rw [replies_cons]
      rcases eq_or_ne client other with rfl | differs
      · rw [part_cons_self, part_cons_self, answers_cons, answer, heard client,
          Function.update_self]
      · rw [part_cons_of_ne differs, part_cons_of_ne differs, heard other,
          Function.update_of_ne differs.symm]
    · rw [serve_cons]
      convert final using 2 with other
      rcases eq_or_ne client other with rfl | differs
      · rw [part_cons_self, run_cons, Function.update_self]
      · rw [part_cons_of_ne differs, Function.update_of_ne differs.symm]

omit [DecidableEq ι] [LoadScale α] disjoint in
/-- The entries of a shared table are those of its clients' keys, from each client's own table, and
the untouched ones. -/
theorem mem_entries (wf : start.WellFormed) {entry : Entry} :
    entry ∈ shared.entries ↔
      ((∀ client, entry.key ∉ keys client) ∧ entry ∈ start.entries) ∨
        ∃ client, entry.key ∈ keys client ∧ entry ∈ (alone client).entries := by
  rw [← merges.wellFormed.find?_eq_some_iff]
  by_cases untouched : ∀ client, entry.key ∉ keys client
  · rw [merges.untouched entry.key untouched, wf.find?_eq_some_iff]
    simp [untouched]
  · obtain ⟨client, inside⟩ := not_forall_not.mp untouched
    constructor
    · intro found
      rw [merges.own client _ inside, (merges.separate client).find?_eq_some_iff] at found
      exact .inr ⟨client, inside, found⟩
    · rintro (⟨outside, -⟩ | ⟨other, inside, stands⟩)
      · exact absurd outside untouched
      · rwa [merges.own other _ inside, (merges.separate other).find?_eq_some_iff]

omit [DecidableEq ι] [LoadScale α] disjoint in
/-- The clients' own tables settle the entries and the gauges of the shared one. -/
theorem unique (wf : start.WellFormed) {other : Table α}
    (again : Merges keys start alone other) :
    other.entries.Perm shared.entries ∧ ∀ gauge : Gauge, gauge.read other = gauge.read shared := by
  constructor
  · -- No entry stands twice, so it is enough that both tables have the same ones.
    have nodup {table : Table α} (formed : table.WellFormed) : table.entries.Nodup :=
      formed.distinct.of_map Entry.key
    apply (List.perm_ext_iff_of_nodup (nodup again.wellFormed) (nodup merges.wellFormed)).mpr
    intro entry
    rw [again.mem_entries wf, merges.mem_entries wf]
  · intro gauge
    have same := (again.advance gauge).trans (merges.advance gauge).symm
    simp only [Gauge.advance] at same
    omega

end Merges

/-! ### Clients with keys of their own -/

section Writes

variable [LoadScale α] {memory : Memory} {table : Table α}

theorem writes_extend (entries : List Entry) :
    Gauge.writes.advance table (table.extend memory entries) = entries.length := by
  induction entries generalizing table with
  | nil => exact Gauge.advance_self _ _
  | cons entry rest ih =>
    change Gauge.writes.advance table ((table.put memory entry).extend memory rest) = _
    rw [← Gauge.advance_add_advance _ _ (table.put memory entry), ih, Gauge.advance_put]
    simp [Gauge.ofPut, add_comm]

theorem writes_perform (wf : table.WellFormed) (operation : Operation) :
    Gauge.writes.advance table (table.perform memory operation).2 = operation.puts := by
  cases operation with
  | put entry => exact Gauge.advance_put .writes memory table entry
  | extend entries => exact writes_extend entries
  | remove key => exact Gauge.advance_remove wf .writes key
  | get key => exact Gauge.advance_get .writes table key
  | getOrNotFound key => exact Gauge.advance_get .writes table key
  | contains key => exact Gauge.advance_get .writes table key
  | clear => exact sub_self _

/-- Every put is counted, and once. -/
theorem writes_run (wf : table.WellFormed) (operations : List Operation) :
    Gauge.writes.advance table (table.run memory operations) =
      (operations.map Operation.puts).sum := by
  induction operations generalizing table with
  | nil => exact Gauge.advance_self _ _
  | cons operation rest ih =>
    rw [run_cons, ← Gauge.advance_add_advance _ _ (table.perform memory operation).2,
      ih (wf.perform memory operation), writes_perform wf]
    simp

end Writes

variable [LoadScale α]

/-- What a schedule comes to for clients with programs and keys. Each client is set against a run
of its own program from the same start, with growth granted or refused in any other way. -/
structure Undisturbed (keys : ι → Set Key) (programs : ι → List Operation)
    (memories : ι → Memory) (start : Table α) (memory : Memory)
    (schedule : List (ι × Operation)) : Prop where
  answers : ∀ client, part client (start.replies memory schedule) =
    start.answers (memories client) (programs client)
  member : ∀ entry, entry ∈ (start.serve memory schedule).entries ↔
    ((∀ client, entry.key ∉ keys client) ∧ entry ∈ start.entries) ∨
      ∃ client, entry.key ∈ keys client ∧
        entry ∈ (start.run (memories client) (programs client)).entries
  distinct : Chain.Distinct (start.serve memory schedule).entries
  counted : (start.serve memory schedule).count = (start.serve memory schedule).entries.length
  advance : ∀ gauge : Gauge, gauge.advance start (start.serve memory schedule) =
    ∑ client, gauge.advance start (start.run (memories client) (programs client))
  written : Gauge.writes.advance start (start.serve memory schedule) =
    ∑ client, ((programs client).map Operation.puts).sum
  /-- Another interleaving, whichever doublings it is granted, comes to the same. -/
  same : ∀ (otherMemory : Memory) (other : List (ι × Operation)), Interleaves other programs →
    (start.serve otherMemory other).entries.Perm (start.serve memory schedule).entries ∧
      ∀ gauge : Gauge,
        gauge.read (start.serve otherMemory other) = gauge.read (start.serve memory schedule)

/-- Clients that keep to keys of their own do not disturb each other, however their calls are
interleaved and whichever doublings memory grants. -/
theorem interleaving_undisturbed {start : Table α} (wf : start.WellFormed) {keys : ι → Set Key}
    (disjoint : Pairwise fun one other => Disjoint (keys one) (keys other))
    {programs : ι → List Operation}
    (within : ∀ client, ∀ operation ∈ programs client, operation.Within (keys client))
    (memory : Memory) (memories : ι → Memory) {schedule : List (ι × Operation)}
    (interleaves : Interleaves schedule programs) :
    Undisturbed keys programs memories start memory schedule := by
  -- Every interleaving ends with the same tables of the clients.
  have merged (memory : Memory) {schedule : List (ι × Operation)}
      (interleaves : Interleaves schedule programs) :
      Merges keys start (fun client => start.run (memories client) (programs client))
        (start.serve memory schedule) := by
    simpa only [interleaves _] using
      ((Merges.refl keys wf).run disjoint memory memories (interleaves.within within)).2
  have merges := merged memory interleaves
  refine
    { answers := fun client => ?answers
      member := fun _ => merges.mem_entries wf
      distinct := merges.wellFormed.distinct
      counted := merges.wellFormed.counted
      advance := merges.advance
      written := ?written
      same := fun otherMemory _ again => merges.unique wf (merged otherMemory again) }
  case answers =>
    obtain ⟨heard, -⟩ :=
      (Merges.refl keys wf).run disjoint memory memories (interleaves.within within)
    rw [heard client, interleaves client]
  case written =>
    rw [merges.advance, Nat.cast_sum]
    exact Finset.sum_congr rfl fun client _ => writes_run wf (programs client)

/-- The start holds three entries in one bucket after two refusals. The shared table is doubled
halfway through the schedule, and no client alone gets that far. -/
theorem interleaving_undisturbed_of_crowded :
    let memory : Memory := ⟨fun _ => true, fun attempt _ => attempt == 2⟩
    let memories : Bool → Memory := fun client => ⟨fun _ => true, fun _ _ => client⟩
    let start := (crowded 1).run memory [.extend [⟨1, 10⟩, ⟨2, 20⟩, ⟨3, 30⟩]]
    let keys : Bool → Set Key := fun client => if client then {1, 4} else {2, 5}
    let programs : Bool → List Operation := fun client =>
      if client then [.put ⟨4, 40⟩, .get 4, .remove 1]
      else [.put ⟨2, 21⟩, .remove 5, .extend [⟨5, 50⟩, ⟨2, 22⟩], .contains 5]
    let schedule : List (Bool × Operation) :=
      [(false, .put ⟨2, 21⟩), (true, .put ⟨4, 40⟩), (false, .remove 5),
        (false, .extend [⟨5, 50⟩, ⟨2, 22⟩]), (true, .get 4), (true, .remove 1),
        (false, .contains 5)]
    Undisturbed keys programs memories start memory schedule ∧
      (start.serve memory schedule).entries = [⟨5, 50⟩, ⟨2, 22⟩, ⟨3, 30⟩, ⟨4, 40⟩] ∧
      (start.serve memory schedule).resizes = 1 ∧
      (∀ client, (start.run (memories client) (programs client)).resizes = 0) ∧
      part true (start.replies memory schedule) = [.done, .lookup (some 40), .flag true] ∧
      part false (start.replies memory schedule) = [.done, .flag false, .done, .flag true] := by
  intro memory memories start keys programs schedule
  have wf : start.WellFormed := by
    have made : Made memory (crowded 1) := made_crowded rfl one_pos
    exact made.wellFormed.run memory _
  have disjoint : Pairwise fun one other => Disjoint (keys one) (keys other) := by
    intro one other differs
    cases one <;> cases other <;> first | exact absurd rfl differs | simp [keys]
  have within : ∀ client, ∀ operation ∈ programs client, operation.Within (keys client) := by
    intro client
    cases client <;> simp [programs, keys, Operation.Within]
  have interleaves : Interleaves schedule programs := by
    intro client
    cases client <;> rfl
  exact ⟨interleaving_undisturbed wf disjoint within memory memories interleaves,
    by decide +kernel, by decide +kernel, by decide +kernel, by decide +kernel,
    by decide +kernel⟩

end Table

end KeyPartitions
