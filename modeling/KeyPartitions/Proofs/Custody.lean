import KeyPartitions.Proofs.AssignmentRefinement
import KeyPartitions.Proofs.Handles
import KeyPartitions.Proofs.Ledger
import KeyPartitions.Table.Diagnostics

/-!
# Who has a table

A table has one holder at a time: an owner, a lock that clients share, the handles of a frozen table
or an assignment. It goes from one to another as it is, and it is written and looked up through
whoever has it. A ledger is kept along, begun anew where an assignment makes a new table. Whatever
the uses and whatever memory refuses, the table shows what is in the ledger: `counters_balance`.
-/
namespace KeyPartitions

/-! ### Holders -/

/-- Who has the table. An assignment may have none. -/
inductive Holder
  | owner (table : Table Float)
  | lock (table : Table Float)
  | handles (frozen : Frozen Float)
  | loader (assignment : Assignment)

/-- How a table goes from an owner, a lock or an assignment to another holder. -/
inductive Passing
  | share
  | unshare
  | freeze

/-- What a client reads of a table as a whole. -/
inductive Reading
  | iterate
  | diagnose

/-- What a reading gives. -/
inductive Shown
  | entries (entries : List Entry)
  | diagnostics (diagnostics : Diagnostics Float)

inductive Use
  | operate (operation : Operation)
  | ask (call : Call)
  | handle (handle : Handle) (act : Frozen.Act)
  | pass (passing : Passing)
  | read (reading : Reading)

/-- A lookup in an assignment. Whether a key is present is asked of its table. -/
def Assignment.look? (assignment : Assignment) : Operation → Option Assignment
  | .get key => some (assignment.query key).2
  | .getOrNotFound key => some (assignment.queryOrNotFound key).2
  | .contains key =>
    some { assignment with
      table := assignment.table.map fun table => (table.contains key).2 }
  | .put _ | .extend _ | .remove _ | .clear => none

/-- An iteration goes as far as the cursor says that there are entries. -/
def Table.shown (table : Table Float) : Reading → Shown
  | .iterate => .entries (table.cursor.take table.cursor.remaining).1
  | .diagnose => .diagnostics table.diagnostics

/-- The table that a use of a handle gives back. -/
def Frozen.Outcome.recovered? {α : Type} : Frozen.Outcome α → Option (Table α)
  | .thawed table => some table
  | .issued _ | .dropped | .answered _ | .returned _ => none

namespace Holder

def table? : Holder → Option (Table Float)
  | .owner table | .lock table => some table
  | .handles frozen => some frozen.table
  | .loader assignment => assignment.table

/-- The counts of the table. Where there is none, nothing is counted. -/
def operations (holder : Holder) : Operations := (holder.table?.map Table.operations).getD {}

/-- The holder behind an operation on its table. A frozen table takes none. -/
def operate? (memory : Memory) : Holder → Operation → Option Holder
  | .owner table, operation => some (.owner (table.perform memory operation).2)
  | .lock table, operation => some (.lock (table.perform memory operation).2)
  | .loader assignment, operation => (assignment.look? operation).map .loader
  | .handles _, _ => none

def ask? (memory : Memory) : Holder → Call → Option Holder
  | .loader assignment, call => some (.loader (assignment.perform memory call).2)
  | _, _ => none

/-- The holder behind a use of a handle. A table that is given back has an owner again. -/
def through? : Holder → Handle → Frozen.Act → Option Holder
  | .handles frozen, handle, act =>
    (frozen.use? handle act).map fun (outcome, after) =>
      outcome.recovered?.elim (.handles after) .owner
  | _, _, _ => none

def pass? : Holder → Passing → Option Holder
  | .owner table, .share => some (.lock table)
  | .lock table, .unshare => some (.owner table)
  | .owner table, .freeze | .lock table, .freeze => some (.handles table.freeze)
  | .loader assignment, .freeze => assignment.intoFrozen.toOption.map .handles
  | _, _ => none

/-- What a use shows, which is nothing unless it reads the table, and the holder behind it. -/
def step? (memory : Memory) (holder : Holder) : Use → Option (Option Shown × Holder)
  | .operate operation => (holder.operate? memory operation).map (none, ·)
  | .ask call => (holder.ask? memory call).map (none, ·)
  | .handle handle act => (holder.through? handle act).map (none, ·)
  | .pass passing => (holder.pass? passing).map (none, ·)
  | .read reading => holder.table?.map fun table => (some (table.shown reading), holder)

/-- Holders that have just come by their table, or have yet to. -/
inductive Fresh : Holder → Prop
  | owner {memory : Memory} {table : Table Float} : Table.Made memory table → Fresh (.owner table)
  | loader (settings : Settings Float) : Fresh (.loader { settings })

end Holder

/-! ### The ledger of a holder -/

/-- A load stands for as many operations as the lines of its source have items. -/
def Call.weight : Call → Nat
  | .loadFile _ (.ok source) | .load source => source.judged.length
  | .loadEntries entries => entries.length
  | .query _ => 1
  | .loadFile _ (.error _) | .cleanup => 0

/-- How many single operations a use stands for. -/
def Use.weight : Use → Nat
  | .operate operation => operation.weight
  | .ask call => call.weight
  | .handle _ (.look _) => 1
  | .handle _ _ | .pass _ | .read _ => 0

namespace Ledger

/-- The ledger behind a load, which puts all of its records unless there is a fault. -/
def take (ledger : Ledger) (records : Except Fault (List Entry)) : Ledger :=
  match records with
  | .ok entries => ledger.record (.extend entries)
  -- The table is discarded, and the ledger with it.
  | .error _ => {}

/-- The ledger that a load begins with, by whether there is a table. With a new table it is new. -/
def opened (held : Bool) (ledger : Ledger) : Ledger := if held then ledger else {}

/-- The ledger behind a load that leaves a table alone. -/
def takeOnce (held : Bool) (ledger : Ledger) (records : Except Fault (List Entry)) : Ledger :=
  if held then ledger else take {} records

/-- The ledger behind a use, by whether there is a table. -/
def after (held : Bool) (ledger : Ledger) : Use → Ledger
  | .operate operation => ledger.record operation
  | .ask (.query key) => ledger.record (.get key)
  | .ask (.loadEntries entries) => (ledger.opened held).take (.ok entries)
  | .ask (.loadFile _ (.ok source)) | .ask (.load source) => ledger.takeOnce held source.recorded
  | .ask .cleanup => {}
  | .handle _ (.look lookup) => ledger.record (.get lookup.key)
  | .ask (.loadFile _ (.error _)) | .handle _ _ | .pass _ | .read _ => ledger

end Ledger

/-- A holder, with the ledger of its table. -/
structure Audit where
  holder : Holder
  ledger : Ledger := {}

namespace Audit

def step? (audit : Audit) (memory : Memory) (use : Use) : Option Audit :=
  (audit.holder.step? memory use).map fun (_, holder) =>
    ⟨holder, audit.ledger.after audit.holder.table?.isSome use⟩

/-- A run is open to every use at its time. Memory can change from use to use. -/
def run? (audit : Audit) : List (Memory × Use) → Option Audit
  | [] => some audit
  | (memory, use) :: rest => (audit.step? memory use).bind (·.run? rest)

end Audit

/-! ### What a use does to the table -/

namespace Holder

variable {memory : Memory} {holder after : Holder}

/-- A table goes from holder to holder as it is. -/
theorem table?_pass {passing : Passing} (passed : holder.pass? passing = some after) :
    after.table? = holder.table? := by
  cases holder with
  | owner | lock => cases passing <;> cases passed <;> rfl
  | handles frozen => cases passing <;> cases passed
  | loader assignment =>
    -- Without a table there is nothing to freeze.
    obtain ⟨settings, _ | table⟩ := assignment <;> cases passing <;> cases passed
    rfl

theorem table?_operate {operation : Operation}
    (done : holder.operate? memory operation = some after) :
    after.table? = holder.table?.map fun table => (table.perform memory operation).2 := by
  cases holder with
  | owner table | lock table =>
    cases done
    rfl
  | handles frozen => cases done
  | loader assignment =>
    obtain ⟨settings, _ | table⟩ := assignment <;> cases operation <;> cases done <;> rfl

section Handle

variable {handle : Handle}

theorem through?_eq_some {act : Frozen.Act} (used : holder.through? handle act = some after) :
    ∃ frozen outcome left, holder = .handles frozen ∧
      frozen.use? handle act = some (outcome, left) ∧
      after = outcome.recovered?.elim (.handles left) .owner := by
  cases holder with
  | owner | lock | loader => cases used
  | handles frozen =>
    obtain ⟨⟨outcome, left⟩, answer, rfl⟩ := Option.map_eq_some_iff.mp used
    exact ⟨frozen, outcome, left, rfl, answer, rfl⟩

/-- All lookups through handles come to the one table. -/
theorem table?_look {lookup : Frozen.Lookup}
    (used : holder.through? handle (.look lookup) = some after) :
    after.table? = holder.table?.map fun table => (table.get lookup.key).2 := by
  obtain ⟨frozen, outcome, left, rfl, answer, rfl⟩ := through?_eq_some used
  obtain ⟨-, ⟨looked, -⟩ | ⟨looked, -⟩ | ⟨other, looked, rfl, rfl⟩ | ⟨looked, -⟩ |
    ⟨looked, -⟩⟩ := Frozen.use?_cases answer
  case inr.inr.inl =>
    cases looked
    rfl
  all_goals cases looked

/-- What else is done with a handle leaves the table as it is, and a thaw gives it back so. -/
theorem table?_through {act : Frozen.Act} (used : holder.through? handle act = some after)
    (other : ∀ lookup, act ≠ .look lookup) : after.table? = holder.table? := by
  obtain ⟨frozen, outcome, left, rfl, answer, rfl⟩ := through?_eq_some used
  obtain ⟨-, ⟨-, rfl, rfl⟩ | ⟨-, rfl, rfl⟩ | ⟨lookup, looked, -⟩ | ⟨-, -, rfl, rfl⟩ |
    ⟨-, -, rfl, rfl⟩⟩ := Frozen.use?_cases answer
  case inr.inr.inl => exact absurd looked (other lookup)
  all_goals rfl

end Handle

end Holder

/-! ### What a call does to the table -/

namespace Assignment

open Records (records)

variable {memory : Memory} {assignment : Assignment}

/-- The table that a load opens is the one there is or, if there is none, a new one. -/
theorem openTable_cases {table : Table Float} (opened : assignment.openTable memory = .ok table) :
    assignment.table = some table ∨ (assignment.table = none ∧ Table.Made memory table) := by
  unfold openTable at opened
  cases found : assignment.table with
  | none =>
    rw [found] at opened
    exact Or.inr ⟨rfl, .ofSettings opened⟩
  | some held =>
    rw [found] at opened
    cases opened
    exact Or.inl rfl

theorem table_of_openTable_error {fault : Fault}
    (faulty : assignment.openTable memory = .error fault) : assignment.table = none := by
  unfold openTable at faulty
  cases found : assignment.table with
  | none => rfl
  | some held =>
    rw [found] at faulty
    cases faulty

/-- A load leaves no table, or it is through and has put all of its items. -/
theorem insert_cases (wf : ∀ table, assignment.table = some table → table.WellFormed)
    (items : List Records.Item) :
    ((assignment.insert memory items).assignment.table = none ∧
      ∃ fault, (assignment.insert memory items).result = .error fault) ∨
    ∃ table entries, assignment.openTable memory = .ok table ∧ records items = .ok entries ∧
      (assignment.insert memory items).assignment.table = some (table.extend memory entries) ∧
      ∃ distinct, (assignment.insert memory items).result =
        .ok ⟨entries.length, distinct, false⟩ := by
  cases opened : assignment.openTable memory with
  | error fault =>
    -- Only where there is no table can it be that none is made.
    have unchanged : assignment.insert memory items = ⟨assignment, .error fault, []⟩ := by
      rw [insert, opened]
    rw [unchanged]
    exact Or.inl ⟨table_of_openTable_error opened, fault, rfl⟩
  | ok table =>
    -- In a well-formed table every put is read back, so only an item can be a fault.
    have sound : table.WellFormed := by
      rcases openTable_cases opened with held | ⟨-, made⟩
      · exact wf table held
      · exact made.wellFormed
    have taken := insert_extends memory opened sound items
    cases all : records items with
    | error fault =>
      rw [all] at taken
      exact Or.inl ⟨by rw [taken.2], fault, taken.1⟩
    | ok entries =>
      rw [all] at taken
      exact Or.inr ⟨table, entries, rfl, rfl, by rw [taken.2], _, taken.1⟩

section Tallied

variable {ledger : Ledger} (tallied : ∀ table, assignment.table = some table → table.Tallies ledger)

include tallied

theorem tallies_openTable {table : Table Float}
    (opened : assignment.openTable memory = .ok table) :
    table.Tallies (ledger.opened assignment.isPopulated) := by
  rcases openTable_cases opened with held | ⟨nothing, made⟩
  · rw [isPopulated, held]
    exact tallied table held
  · rw [isPopulated, nothing]
    exact made.tallies

theorem tallies_insert {items : List Records.Item} {after : Table Float}
    (left : (assignment.insert memory items).assignment.table = some after) :
    after.Tallies ((ledger.opened assignment.isPopulated).take (records items)) := by
  rcases insert_cases (fun table held => (tallied table held).wellFormed) items with
    ⟨nothing, -⟩ | ⟨table, entries, opened, all, extended, -⟩
  · rw [nothing] at left
    cases left
  · rw [extended] at left
    cases left
    rw [all]
    exact (tallies_openTable tallied opened).extend memory entries

/-- What is loaded once is put in an empty table or not at all. -/
theorem tallies_loadOnce {path : Option String} {source : Records.Source} {after : Table Float}
    (left : (if assignment.isPopulated then assignment.keep path
      else assignment.insertReporting memory path source.items).assignment.table = some after) :
    after.Tallies (ledger.takeOnce assignment.isPopulated source.recorded) := by
  split at left
  next populated =>
    rw [Ledger.takeOnce, if_pos populated]
    exact tallied after left
  next unpopulated =>
    rw [insertReporting_eq.2, source.items_eq_judged] at left
    have tallies := tallies_insert tallied left
    rw [Ledger.opened, if_neg unpopulated] at tallies
    rwa [Ledger.takeOnce, if_neg unpopulated]

theorem tallies_perform {call : Call} {after : Table Float}
    (left : (assignment.perform memory call).2.table = some after) :
    after.Tallies (ledger.after assignment.isPopulated (.ask call)) := by
  cases call with
  | query key =>
    cases held : assignment.table with
    | none => simp [perform, query, held] at left
    | some table =>
      obtain rfl : (table.get key).2 = after := by simpa [perform, query, held] using left
      exact (tallied table held).get key
  | cleanup => cases left
  | loadEntries entries =>
    have tallies := tallies_insert tallied left
    rwa [Records.records_map_ok] at tallies
  | load source => exact tallies_loadOnce tallied left
  | loadFile path opened =>
    cases opened with
    | ok source => exact tallies_loadOnce tallied left
    | error failure =>
      -- Without its file a load is over before it opens a table.
      have unchanged : (assignment.loadFile memory path (.error failure)).assignment =
          assignment := by
        unfold loadFile
        split <;> rfl
      exact tallied after (unchanged ▸ left)

end Tallied

/-- What a load that is through adds to the counts: a put for each of its records. A key that is
read back is not counted. -/
theorem operations_insert (wf : ∀ table, assignment.table = some table → table.WellFormed)
    {items : List Records.Item} {summary : LoadSummary}
    (loaded : (assignment.insert memory items).result = .ok summary) :
    (Holder.loader (assignment.insert memory items).assignment).operations =
      { (Holder.loader assignment).operations with
        writes := (Holder.loader assignment).operations.writes + summary.records } := by
  rcases insert_cases wf items with
    ⟨-, fault, failed⟩ | ⟨table, entries, opened, -, after, _, result⟩
  · rw [failed] at loaded
    cases loaded
  · rw [result] at loaded
    cases loaded
    -- A new table has counted nothing, as if there were none.
    have before : (Holder.loader assignment).operations = table.operations := by
      rcases openTable_cases opened with held | ⟨nothing, made⟩
      · simp [Holder.operations, Holder.table?, held]
      · simp only [Holder.operations, Holder.table?, nothing]
        rw [made.eq_empty.2]
        rfl
    simp only [Holder.operations, Holder.table?, after, Option.map_some, Option.getD_some,
      Table.operations_extend] at before ⊢
    rw [before]

theorem operations_loadOnce (wf : ∀ table, assignment.table = some table → table.WellFormed)
    {path : Option String} {items : List Records.Item} {summary : LoadSummary}
    (loaded : (if assignment.isPopulated then assignment.keep path
      else assignment.insertReporting memory path items).result = .ok summary) :
    (Holder.loader (if assignment.isPopulated then assignment.keep path
        else assignment.insertReporting memory path items).assignment).operations =
      { (Holder.loader assignment).operations with
        writes := (Holder.loader assignment).operations.writes + summary.records } := by
  split at loaded
  next populated =>
    -- Nothing is put and no record is reported.
    cases loaded
    simp [populated, keep]
  next unpopulated =>
    rw [insertReporting_eq.1] at loaded
    rw [if_neg unpopulated, insertReporting_eq.2]
    exact operations_insert wf loaded

theorem operations_perform (wf : ∀ table, assignment.table = some table → table.WellFormed)
    {call : Call} {summary : LoadSummary}
    (loaded : (assignment.perform memory call).1 = .loading (.ok summary)) :
    (Holder.loader (assignment.perform memory call).2).operations =
      { (Holder.loader assignment).operations with
        writes := (Holder.loader assignment).operations.writes + summary.records } := by
  cases call with
  | query | cleanup => cases loaded
  | loadEntries => exact operations_insert wf (Reply.loading.inj loaded)
  | load => exact operations_loadOnce wf (Reply.loading.inj loaded)
  | loadFile path opened =>
    cases opened with
    | ok source => exact operations_loadOnce wf (Reply.loading.inj loaded)
    | error failure =>
      have faulty := Reply.loading.inj loaded
      unfold loadFile at faulty
      split at faulty
      next populated =>
        cases faulty
        simp [perform, loadFile, populated, keep]
      next => cases faulty

end Assignment

/-! ### Audits -/

namespace Ledger

section Balanced

variable {ledger : Ledger} (balanced : ledger.Balanced)

include balanced

theorem Balanced.take (records : Except Fault (List Entry)) : (ledger.take records).Balanced := by
  cases records with
  | ok entries => exact balanced.extend entries
  | error fault => exact balanced_empty

theorem Balanced.opened (held : Bool) : (ledger.opened held).Balanced := by
  cases held with
  | true => exact balanced
  | false => exact balanced_empty

theorem Balanced.takeOnce (held : Bool) (records : Except Fault (List Entry)) :
    (ledger.takeOnce held records).Balanced := by
  cases held with
  | true => exact balanced
  | false => exact balanced_empty.take records

theorem Balanced.after (held : Bool) (use : Use) : (ledger.after held use).Balanced := by
  cases use with
  | operate operation => exact balanced.record operation
  | pass | read => exact balanced
  | handle handle act =>
    cases act with
    | look lookup => exact balanced.record (.get lookup.key)
    | clone | drop | thaw => exact balanced
  | ask call =>
    cases call with
    | query key => exact balanced.record (.get key)
    | cleanup => exact balanced_empty
    | loadEntries entries => exact (balanced.opened held).take _
    | load source => exact balanced.takeOnce held source.recorded
    | loadFile path opened =>
      cases opened with
      | ok source => exact balanced.takeOnce held source.recorded
      | error failure => exact balanced

end Balanced

section Counted

variable (ledger : Ledger)

theorem counted_take_records_le (items : List Records.Item) :
    (ledger.take (Records.records items)).counted ≤ ledger.counted + items.length := by
  cases taken : Records.records items with
  | ok entries =>
    rw [← Records.length_records taken]
    exact counted_record_le (.extend entries)
  | error fault => exact Nat.zero_le _

theorem counted_opened_le (held : Bool) : (ledger.opened held).counted ≤ ledger.counted := by
  cases held with
  | true => exact Nat.le_refl _
  | false => exact Nat.zero_le _

theorem counted_takeOnce_le (held : Bool) (source : Records.Source) :
    (ledger.takeOnce held source.recorded).counted ≤ ledger.counted + source.judged.length := by
  cases held with
  | true => exact Nat.le_add_right _ _
  | false =>
    have bound := counted_take_records_le {} source.judged
    exact bound.trans (Nat.add_le_add_right (Nat.zero_le _) _)

theorem counted_after_le (held : Bool) (use : Use) :
    (ledger.after held use).counted ≤ ledger.counted + use.weight := by
  cases use with
  | operate operation => exact counted_record_le operation
  | pass | read => exact Nat.le_refl _
  | handle handle act =>
    cases act with
    | look lookup => exact counted_record_le (.get lookup.key)
    | clone | drop | thaw => exact Nat.le_refl _
  | ask call =>
    cases call with
    | query key => exact counted_record_le (.get key)
    | cleanup => exact Nat.zero_le _
    | loadEntries entries =>
      have bound : ((ledger.opened held).record (.extend entries)).counted ≤
          (ledger.opened held).counted + entries.length := counted_record_le (.extend entries)
      exact bound.trans (Nat.add_le_add_right (ledger.counted_opened_le held) _)
    | load source => exact ledger.counted_takeOnce_le held source
    | loadFile path opened =>
      cases opened with
      | ok source => exact ledger.counted_takeOnce_le held source
      | error failure => exact Nat.le_refl _

end Counted

end Ledger

namespace Audit

/-- What every use keeps of an audit that has come a number of operations far. -/
structure Sound (audit : Audit) (steps : Nat) : Prop where
  balanced : audit.ledger.Balanced
  bounded : audit.ledger.counted ≤ steps
  tallied : ∀ table, audit.holder.table? = some table → table.Tallies audit.ledger

theorem Sound.step? {audit next : Audit} {steps : Nat} (sound : audit.Sound steps)
    {memory : Memory} {use : Use} (stepped : audit.step? memory use = some next) :
    next.Sound (steps + use.weight) := by
  obtain ⟨⟨shown, after⟩, moved, rfl⟩ := Option.map_eq_some_iff.mp stepped
  refine ⟨sound.balanced.after _ use, ?bounded, ?tallied⟩
  case bounded =>
    have bound := audit.ledger.counted_after_le audit.holder.table?.isSome use
    have before := sound.bounded
    dsimp only
    omega
  case tallied =>
    intro table held
    cases use with
    | operate operation =>
      obtain ⟨_, done, same⟩ := Option.map_eq_some_iff.mp moved
      cases same
      rw [Holder.table?_operate done] at held
      obtain ⟨before, had, rfl⟩ := Option.map_eq_some_iff.mp held
      exact (sound.tallied before had).perform memory operation
    | handle handle act =>
      obtain ⟨_, used, same⟩ := Option.map_eq_some_iff.mp moved
      cases same
      cases act with
      | look lookup =>
        rw [Holder.table?_look used] at held
        obtain ⟨before, had, rfl⟩ := Option.map_eq_some_iff.mp held
        exact (sound.tallied before had).get lookup.key
      | clone | drop | thaw =>
        exact sound.tallied table (Holder.table?_through used (by simp) ▸ held)
    | pass passing =>
      obtain ⟨_, passed, same⟩ := Option.map_eq_some_iff.mp moved
      cases same
      exact sound.tallied table (Holder.table?_pass passed ▸ held)
    | read reading =>
      obtain ⟨_, -, same⟩ := Option.map_eq_some_iff.mp moved
      cases same
      exact sound.tallied table held
    | ask call =>
      -- Only an assignment takes calls.
      obtain ⟨holder, ledger⟩ := audit
      cases holder with
      | owner | lock | handles => cases moved
      | loader assignment =>
        cases moved
        exact Assignment.tallies_perform sound.tallied held

theorem Sound.run? {audit reached : Audit} {steps : Nat} (sound : audit.Sound steps)
    {uses : List (Memory × Use)} (run : audit.run? uses = some reached) :
    reached.Sound (steps + (uses.map fun use => use.2.weight).sum) := by
  -- What is sound so far goes through the uses still to come, and their operations are added.
  induction uses generalizing audit steps with
  | nil =>
    cases run
    exact sound
  | cons use rest ih =>
    obtain ⟨next, stepped, later⟩ := Option.bind_eq_some_iff.mp run
    have behind := ih (sound.step? stepped) later
    rwa [Nat.add_assoc] at behind

theorem Sound.start {holder : Holder} (fresh : holder.Fresh) : Sound ⟨holder, {}⟩ 0 where
  balanced := Ledger.balanced_empty
  bounded := Nat.le_refl 0
  tallied table held := by
    cases fresh with
    | owner made =>
      cases held
      exact made.tallies
    | loader settings => cases held

end Audit

/-! ### The counters -/

/-- What a table shows of itself, against the ledger that was kept of it. -/
structure Diagnostics.Shows {α : Type} (shown : Diagnostics α) (ledger : Ledger) : Prop where
  reads : shown.operations.reads = ledger.hits
  writes : shown.operations.writes = ledger.puts
  removes : shown.operations.removes = ledger.removals
  entries : shown.entries = ledger.contents.size
  balance : shown.operations.writes =
    shown.entries + shown.operations.removes + ledger.updates + ledger.discarded
  /-- No count has gone beyond 64 bits, nor has their sum. -/
  total : shown.operations.total = ledger.hits + ledger.puts + ledger.removals

theorem Table.Tallies.shows {α : Type} [LoadScale α] {table : Table α} {ledger : Ledger}
    (tallies : table.Tallies ledger) (balanced : ledger.Balanced)
    (small : ledger.counted < UInt64.size) : table.diagnostics.Shows ledger := by
  have counts : table.diagnostics.operations = ledger.operations := tallies.operations
  have size : table.diagnostics.entries = ledger.contents.size := tallies.count_eq_size
  constructor
  case balance =>
    rw [counts, size]
    exact balanced
  case total =>
    -- The sum is taken modulo 2 ^ 64, and it is smaller.
    rw [counts]
    exact Nat.mod_eq_of_lt small
  all_goals simp only [counts, size, Ledger.operations]

/-- What a reading gives, against the ledger: an iteration gives the entries that the ledger holds,
each key once. -/
def Shown.Tells (ledger : Ledger) : Shown → Prop
  | .entries listed => listed.Perm ledger.contents.entries ∧ (listed.map Entry.key).Nodup
  | .diagnostics shown => shown.Shows ledger

theorem Table.Tallies.tells {table : Table Float} {ledger : Ledger} (tallies : table.Tallies ledger)
    (balanced : ledger.Balanced) (small : ledger.counted < UInt64.size) (reading : Reading) :
    (table.shown reading).Tells ledger := by
  cases reading with
  | iterate =>
    -- The cursor says as many entries as the table has.
    have all : (table.cursor.take table.cursor.remaining).1 = table.entries :=
      tallies.wellFormed.take_cursor (Nat.le_refl table.count)
    rw [Table.shown, all]
    exact ⟨tallies.entries_perm, tallies.wellFormed.distinct⟩
  | diagnose => exact tallies.shows balanced small

/-- What has no part in the counters of a table, and what a load has. -/
structure Holder.Steady (holder : Holder) (ledger : Ledger) : Prop where
  growth : ∀ memory table, holder.table? = some table →
    (table.grow memory).operations = table.operations
  clearing : ∀ memory shown after,
    holder.step? memory (.operate .clear) = some (shown, after) →
      after.operations = holder.operations
  /-- The table goes on as it is, and so it does where handles come and go or give it back. -/
  passing : ∀ memory passing shown after,
    holder.step? memory (.pass passing) = some (shown, after) → after.table? = holder.table?
  handling : ∀ memory handle act shown after, (∀ lookup, act ≠ .look lookup) →
    holder.step? memory (.handle handle act) = some (shown, after) → after.table? = holder.table?
  /-- An iteration or a diagnosis shows what is in the ledger. -/
  reading : ∀ memory reading shown after,
    holder.step? memory (.read reading) = some (shown, after) →
      after = holder ∧ ∃ told, shown = some told ∧ told.Tells ledger
  /-- A load counts a put for each of its records and does not count that it reads them back. -/
  loading : ∀ memory assignment call summary, holder = .loader assignment →
    (assignment.perform memory call).1 = .loading (.ok summary) →
      (Holder.loader (assignment.perform memory call).2).operations =
        { holder.operations with writes := holder.operations.writes + summary.records }

theorem Audit.Sound.steady {audit : Audit} {steps : Nat} (sound : audit.Sound steps)
    (small : audit.ledger.counted < UInt64.size) : audit.holder.Steady audit.ledger where
  growth _ _ _ := Table.operations_grow
  clearing memory shown after cleared := by
    obtain ⟨_, done, same⟩ := Option.map_eq_some_iff.mp cleared
    cases same
    rw [Holder.operations, Holder.table?_operate done, Option.map_map]
    rfl
  passing memory passing shown after moved := by
    obtain ⟨_, passed, same⟩ := Option.map_eq_some_iff.mp moved
    cases same
    exact Holder.table?_pass passed
  handling memory handle act shown after other moved := by
    obtain ⟨_, used, same⟩ := Option.map_eq_some_iff.mp moved
    cases same
    exact Holder.table?_through used other
  reading memory reading shown after read := by
    obtain ⟨table, held, same⟩ := Option.map_eq_some_iff.mp read
    cases same
    exact ⟨rfl, _, rfl, (sound.tallied table held).tells sound.balanced small reading⟩
  loading memory assignment call summary same loaded := by
    have wf : ∀ table, assignment.table = some table → table.WellFormed := by
      intro table held
      exact (sound.tallied table (by rw [same]; exact held)).wellFormed
    rw [same]
    exact Assignment.operations_perform wf loaded

/-- In every run of fewer than 2 ^ 64 operations, through whichever holders and with whichever
doublings refused, a table shows the lookups that found their key, the puts, and the removals that
found their key, and its puts are its entries, its removals, its updates and what was cleared. -/
theorem Audit.counters_balance {start : Holder} (fresh : start.Fresh) {uses : List (Memory × Use)}
    (few : (uses.map fun use => use.2.weight).sum < UInt64.size) {reached : Audit}
    (run : Audit.run? ⟨start, {}⟩ uses = some reached) :
    (∀ table, reached.holder.table? = some table → table.diagnostics.Shows reached.ledger) ∧
      reached.holder.Steady reached.ledger := by
  have sound := (Sound.start fresh).run? run
  rw [Nat.zero_add] at sound
  -- The ledger starts with nothing, so it has counted no more than the operations of the run.
  have small := sound.bounded.trans_lt few
  exact ⟨fun table held => (sound.tallied table held).shows sound.balanced small,
    sound.steady small⟩

/-- A load under one hash for all keys, a lookup through a second handle, and writes behind a lock
with a refused doubling. -/
theorem Audit.counters_balance_of_loaded :
    let start : Holder := .loader { settings := ⟨1, 1, .aHash fun _ => 5⟩ }
    let grants : Memory := ⟨fun _ => true, fun _ _ => true⟩
    let refuses : Memory := ⟨fun _ => true, fun _ _ => false⟩
    let uses : List (Memory × Use) :=
      [(grants, .ask (.loadEntries [⟨1, 10⟩, ⟨2, 20⟩, ⟨1, 11⟩])), (grants, .ask (.query 2)),
        (grants, .pass .freeze), (grants, .handle 0 .clone), (grants, .handle 1 (.look (.get 1))),
        (grants, .handle 0 (.look (.contains 3))), (grants, .handle 0 .drop),
        (grants, .handle 1 .thaw), (grants, .pass .share),
        -- There are as many entries as buckets, so the first of these asks for more.
        (refuses, .operate (.extend [⟨3, 30⟩, ⟨4, 40⟩])), (grants, .operate (.remove 2)),
        (grants, .operate (.remove 2)), (grants, .read .diagnose), (grants, .operate .clear),
        (grants, .operate (.put ⟨5, 50⟩)), (grants, .read .iterate), (grants, .pass .unshare)]
    ∃ reached, Audit.run? ⟨start, {}⟩ uses = some reached ∧
      (∀ table, reached.holder.table? = some table → table.diagnostics.Shows reached.ledger) ∧
      reached.holder.Steady reached.ledger ∧ reached.holder.operations = ⟨2, 6, 1⟩ ∧
      reached.ledger.updates = 1 ∧ reached.ledger.discarded = 3 := by
  intro start grants refuses uses
  have runs : (Audit.run? ⟨start, {}⟩ uses).isSome := by decide +kernel
  obtain ⟨reached, run⟩ := Option.isSome_iff_exists.mp runs
  obtain ⟨shows, steady⟩ := Audit.counters_balance (.loader _) (by decide +kernel) run
  have seen : (Audit.run? ⟨start, {}⟩ uses).map
      (fun audit => (audit.holder.operations, audit.ledger.updates, audit.ledger.discarded)) =
        some (⟨2, 6, 1⟩, 1, 3) := by decide +kernel
  rw [run] at seen
  obtain ⟨counts, updates, discarded⟩ : reached.holder.operations = ⟨2, 6, 1⟩ ∧
      reached.ledger.updates = 1 ∧ reached.ledger.discarded = 3 := by simpa using seen
  exact ⟨reached, run, shows, steady, counts, updates, discarded⟩

end KeyPartitions
