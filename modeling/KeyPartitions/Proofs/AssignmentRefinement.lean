import KeyPartitions.Assignment
import KeyPartitions.Proofs.LineReading
import KeyPartitions.Proofs.MapRefinement
import Mathlib.Data.List.Dedup
import Mathlib.Data.List.Induction

/-!
# Assignments as optional maps

The reference for an assignment is nothing, or the list of the entries that it was given since it
had nothing. Of the entries of a key the last one counts. A load gives all the records on the lines
of a source or, after any fault, none of them, and there is nothing to lose by a fault: the loads
that can meet one begin with nothing. An assignment and its reference agree after every call of a
run.
-/
namespace KeyPartitions

/-! ### Calls -/

/-- What a client can ask of an assignment. -/
inductive Call
  | loadFile (path : String) (opened : Except IoFailure Records.Source)
  | load (source : Records.Source)
  | loadEntries (entries : List Entry)
  | query (key : Key)
  | cleanup

/-- Loads that leave an assignment alone that has a table. -/
def Call.loadsOnce : Call → Bool
  | .loadFile .. | .load _ => true
  | .loadEntries _ | .query _ | .cleanup => false

inductive Reply
  | loading (result : Except Fault LoadSummary)
  | found (partition : Option Partition)
  | done

namespace Assignment

def perform (memory : Memory) (assignment : Assignment) : Call → Reply × Assignment
  | .loadFile path opened =>
    let loading := assignment.loadFile memory path opened
    (.loading loading.result, loading.assignment)
  | .load source =>
    let loading := assignment.load memory source
    (.loading loading.result, loading.assignment)
  | .loadEntries entries =>
    let loading := assignment.loadEntries memory entries
    (.loading loading.result, loading.assignment)
  | .query key => let (found, after) := assignment.query key; (.found found, after)
  | .cleanup => (.done, assignment.cleanup)

structure Step where
  before : Assignment
  call : Call
  reply : Reply
  after : Assignment

/-- The steps of a run. Memory can change from call to call. -/
def trace (assignment : Assignment) : List (Memory × Call) → List Step
  | [] => []
  | (memory, call) :: rest =>
    let (reply, after) := assignment.perform memory call
    ⟨assignment, call, reply, after⟩ :: after.trace rest

end Assignment

/-! ### The reference -/

/-- The partition of the last entry that a key was given. -/
def lastGiven (entries : List Entry) (key : Key) : Option Partition :=
  (entries.filter (·.key = key)).getLast?.map Entry.partition

def distinctKeys (entries : List Entry) : Nat := (entries.map Entry.key).dedup.length

/-- Why no table can be made of the settings, if none can. -/
def Settings.fault? {α : Type} [LoadScale α] (memory : Memory) (settings : Settings α) :
    Option Fault :=
  if settings.capacity = 0 then some .zeroCapacity
  else if LoadScale.isLimit settings.loadLimit = false then some .badLoadLimit
  else if memory.initial settings.capacity = false then some (.allocation settings.capacity)
  else none

/-- The entries that were given since there were none at all, in order. -/
abbrev Given := Option (List Entry)

namespace Given

/-- A load that begins with nothing. -/
def fresh (memory : Memory) (settings : Settings Float) (records : Except Fault (List Entry)) :
    Reply × Given :=
  match settings.fault? memory, records with
  | some fault, _ => (.loading (.error fault), none)
  | none, .error fault => (.loading (.error fault), none)
  | none, .ok entries =>
    (.loading (.ok ⟨entries.length, distinctKeys entries, false⟩), some entries)

def perform (memory : Memory) (settings : Settings Float) : Given → Call → Reply × Given
  | none, .loadFile _ (.error failure) => (.loading (.error (.io failure)), none)
  | none, .loadFile _ (.ok source) => fresh memory settings source.recorded
  | none, .load source => fresh memory settings source.recorded
  | none, .loadEntries entries => fresh memory settings (.ok entries)
  | some given, .loadFile .. | some given, .load _ =>
    (.loading (.ok ⟨0, distinctKeys given, true⟩), some given)
  | some given, .loadEntries entries =>
    let all := given ++ entries
    (.loading (.ok ⟨entries.length, distinctKeys all, false⟩), some all)
  | given, .query key => (.found (given.bind (lastGiven · key)), given)
  | _, .cleanup => (.done, none)

/-- The reply to each call of a run, and what is given behind it. -/
def trace (settings : Settings Float) (given : Given) : List (Memory × Call) → List (Reply × Given)
  | [] => []
  | (memory, call) :: rest =>
    let step := given.perform memory settings call
    step :: trace settings step.2 rest

section Faults

variable {memory : Memory} {settings : Settings Float} {fault : Fault}

theorem fresh_of_fault {records : Except Fault (List Entry)}
    (faulty : (fresh memory settings records).1 = .loading (.error fault)) :
    (fresh memory settings records).2 = none := by
  unfold fresh at faulty ⊢
  split
  next => rfl
  next => rfl
  next creation =>
    rw [creation] at faulty
    cases faulty

/-- Only a load that begins with nothing can meet a fault. -/
theorem perform_of_fault {given : Given} {call : Call}
    (faulty : (given.perform memory settings call).1 = .loading (.error fault)) :
    given = none ∧ (given.perform memory settings call).2 = none := by
  cases given with
  | some entries => cases call <;> cases faulty
  | none =>
    refine ⟨rfl, ?_⟩
    cases call with
    | query | cleanup => cases faulty
    | loadEntries | load => exact fresh_of_fault faulty
    | loadFile path opened =>
      cases opened with
      | error failure => rfl
      | ok source => exact fresh_of_fault faulty

end Faults

end Given

/-! ### The map of a list of entries -/

namespace Contents

def ofEntries (entries : List Entry) : Contents := entries.foldl put ∅

theorem ofEntries_append (first second : List Entry) :
    ofEntries (first ++ second) = second.foldl put (ofEntries first) :=
  List.foldl_append

theorem getElem?_ofEntries (entries : List Entry) (key : Key) :
    (ofEntries entries)[key]? = lastGiven entries key := by
  induction entries using List.reverseRecOn with
  | nil => exact Std.ExtTreeMap.getElem?_empty
  | append_singleton entries entry ih =>
    rw [ofEntries_append, List.foldl_cons, List.foldl_nil, put, Std.ExtTreeMap.getElem?_insert, ih]
    by_cases same : entry.key = key
    · simp [lastGiven, List.filter_append, same]
    · simp [lastGiven, List.filter_append, same]

theorem size_ofEntries (entries : List Entry) :
    (ofEntries entries).size = distinctKeys entries := by
  rw [← Std.ExtTreeMap.length_keys, distinctKeys]
  apply List.Perm.length_eq
  apply (List.perm_ext_iff_of_nodup Std.ExtTreeMap.nodup_keys (List.nodup_dedup _)).mpr
  intro key
  -- A key has a last entry if it has one at all.
  rw [Std.ExtTreeMap.mem_keys, Std.ExtTreeMap.mem_iff_isSome_getElem?, getElem?_ofEntries,
    List.mem_dedup, lastGiven, Option.isSome_map, List.getLast?_isSome, ne_eq,
    List.filter_eq_nil_iff]
  simp

example :
    let entries : List Entry := [⟨1, 10⟩, ⟨2, 20⟩, ⟨1, 11⟩]
    lastGiven entries 1 = some 11 ∧ lastGiven entries 3 = none ∧ distinctKeys entries = 2 := by
  decide

end Contents

/-! ### Loads -/

theorem Table.ofSettings_eq {α : Type} [LoadScale α] (memory : Memory) (settings : Settings α) :
    Table.ofSettings memory settings =
      match settings.fault? memory with
      | some fault => .error fault
      | none =>
        .ok (.empty settings.capacity settings.loadLimit settings.hashFunction.hash) := by
  unfold Table.ofSettings Settings.check Settings.fault?
  by_cases zero : settings.capacity = 0
  · simp [zero, bind, Except.bind]
  · cases limit : LoadScale.isLimit settings.loadLimit with
    | false => simp [zero, bind, Except.bind]
    | true =>
      cases memory.initial settings.capacity with
      | false => simp [zero, bind, Except.bind, throw, throwThe, MonadExceptOf.throw]
      | true => simp [zero, bind, Except.bind, pure, Except.pure]

namespace Assignment

open Records (records)

/-- An assignment holds what it was given, and has its table of the settings. -/
inductive Holds (settings : Settings Float) : Assignment → Given → Prop
  | nothing : Holds settings { settings } none
  | table {table : Table Float} {given : List Entry} :
      table.Represents (Contents.ofEntries given) →
        Holds settings { settings, table := some table } (some given)

section Insert

variable (memory : Memory)

theorem readBack_put {table : Table Float} (wf : table.WellFormed) (entry : Entry) :
    readBack (table.put memory entry) entry = .ok () := by
  rw [readBack, wf.find?_put, if_pos rfl, if_pos rfl]

/-- Records are put one after another up to the first fault, and each is read back. -/
theorem insertAll_eq {table : Table Float} (wf : table.WellFormed) (count : Nat)
    (notices : List Notice) (items : List Records.Item) :
    match records items with
    | .error fault => (insertAll memory ⟨table, count, notices⟩ items).2 = .error fault
    | .ok entries => ∃ reported, insertAll memory ⟨table, count, notices⟩ items =
        (⟨table.extend memory entries, count + entries.length, reported⟩, .ok ()) := by
  induction items generalizing table count notices with
  | nil => exact ⟨notices, rfl⟩
  | cons item rest ih =>
    cases item with
    | error fault => rfl
    | ok entry =>
      cases noted : Table.putNoting memory (table, notices) entry with
      | mk after reported =>
        obtain rfl : after = table.put memory entry := by
          rw [← Table.putNoting_fst memory (table, notices), noted]
        -- What was just put is read back, so the load goes on.
        have step : insertAll memory ⟨table, count, notices⟩ (.ok entry :: rest) =
            insertAll memory ⟨table.put memory entry, count + 1, reported⟩ rest := by
          rw [insertAll, noted]
          simp only [readBack_put memory wf entry]
        have later := ih (wf.put memory entry) (count + 1) reported
        rw [step, Records.records_ok]
        cases found : records rest with
        | error fault => simpa [found, Except.map] using later
        | ok entries =>
          rw [found] at later
          obtain ⟨all, reached⟩ := later
          refine ⟨all, ?_⟩
          rw [reached, List.length_cons, Nat.add_assoc, Nat.add_comm 1]
          rfl

/-- A load into a table extends it by all the records or leaves no table. -/
theorem insert_extends {assignment : Assignment} {table : Table Float}
    (opened : assignment.openTable memory = .ok table) (wf : table.WellFormed)
    (items : List Records.Item) :
    match records items with
    | .error fault =>
      (assignment.insert memory items).result = .error fault ∧
        (assignment.insert memory items).assignment = { settings := assignment.settings }
    | .ok entries =>
      (assignment.insert memory items).result =
          .ok ⟨entries.length, (table.extend memory entries).count, false⟩ ∧
        (assignment.insert memory items).assignment =
          { settings := assignment.settings, table := some (table.extend memory entries) } := by
  have all := insertAll_eq memory wf 0 [] items
  unfold insert
  rw [opened]
  cases found : records items with
  | error fault =>
    rw [found] at all
    cases reached : insertAll memory ⟨table, 0, []⟩ items with
    | mk progress result =>
      obtain rfl : result = .error fault := by simpa [reached] using all
      simp [reached]
  | ok entries =>
    rw [found] at all
    obtain ⟨reported, reached⟩ := all
    simp only [reached, Nat.zero_add, and_self]

/-- A load into a table gives all the records or leaves no table. -/
theorem insert_of_open {assignment : Assignment} {table : Table Float} {given : List Entry}
    (opened : assignment.openTable memory = .ok table)
    (represents : table.Represents (Contents.ofEntries given)) (items : List Records.Item) :
    match records items with
    | .error fault =>
      (assignment.insert memory items).result = .error fault ∧
        (assignment.insert memory items).assignment = { settings := assignment.settings }
    | .ok entries =>
      (assignment.insert memory items).result =
          .ok ⟨entries.length, distinctKeys (given ++ entries), false⟩ ∧
        Holds assignment.settings (assignment.insert memory items).assignment
          (some (given ++ entries)) := by
  have taken := insert_extends memory opened represents.wellFormed items
  cases found : records items with
  | error fault => rwa [found] at taken
  | ok entries =>
    rw [found] at taken
    obtain ⟨result, after⟩ := taken
    have merged : (table.extend memory entries).Represents
        (Contents.ofEntries (given ++ entries)) := by
      rw [Contents.ofEntries_append]
      exact represents.extend memory entries
    rw [result, after, merged.count_eq_size, Contents.size_ofEntries]
    exact ⟨rfl, .table merged⟩

/-- A load that begins with nothing. -/
theorem insert_fresh (settings : Settings Float) (items : List Records.Item) :
    let loading := insert memory { settings } items
    let expected := Given.fresh memory settings (records items)
    .loading loading.result = expected.1 ∧ Holds settings loading.assignment expected.2 := by
  intro loading expected
  have made := Table.ofSettings_eq memory settings
  cases creation : settings.fault? memory with
  | some fault =>
    rw [creation] at made
    have unchanged : loading = ⟨{ settings }, .error fault, []⟩ := by
      simp only [loading, insert, openTable, made]
    simp only [unchanged, expected, Given.fresh, creation]
    exact ⟨trivial, .nothing⟩
  | none =>
    rw [creation] at made
    have empty : Table.Represents _ (Contents.ofEntries []) :=
      (Table.Made.ofSettings made).represents
    have opened : openTable memory { settings } = .ok _ := made
    have taken := insert_of_open memory opened empty items
    cases found : records items with
    | error fault =>
      rw [found] at taken
      simp only [loading, taken.1, taken.2, expected, Given.fresh, creation, found]
      exact ⟨trivial, .nothing⟩
    | ok entries =>
      rw [found] at taken
      simp only [loading, taken.1, expected, Given.fresh, creation, found]
      exact ⟨rfl, taken.2⟩

end Insert

/-- The report of a load has to do with the notices only. -/
theorem insertReporting_eq {memory : Memory} {assignment : Assignment} {path : Option String}
    {items : List Records.Item} :
    (assignment.insertReporting memory path items).result =
        (assignment.insert memory items).result ∧
      (assignment.insertReporting memory path items).assignment =
        (assignment.insert memory items).assignment := by
  unfold insertReporting
  dsimp only
  split <;> exact ⟨rfl, rfl⟩

/-- The items that a load takes are those that the lines of the source have. -/
theorem insertReporting_fresh (memory : Memory) (settings : Settings Float) (path : Option String)
    (source : Records.Source) :
    let loading := insertReporting memory { settings } path source.items
    let expected := Given.fresh memory settings source.recorded
    .loading loading.result = expected.1 ∧ Holds settings loading.assignment expected.2 := by
  dsimp only
  rw [insertReporting_eq.1, insertReporting_eq.2, source.items_eq_judged]
  exact insert_fresh memory settings source.judged

/-! ### Calls of a run -/

namespace Holds

variable {settings : Settings Float} {assignment : Assignment} {given : Given}

theorem eq_of_nothing (holds : Holds settings assignment none) : assignment = { settings } := by
  cases holds
  rfl

section Look

variable (holds : Holds settings assignment given)

include holds

theorem isPopulated : assignment.isPopulated = given.isSome := by
  cases holds <;> rfl

theorem size : assignment.size = (given.map distinctKeys).getD 0 := by
  cases holds with
  | nothing => rfl
  | table represents => exact represents.count_eq_size.trans (Contents.size_ofEntries _)

/-- What a load replies that finds a table. -/
theorem reply_keep (path : Option String) :
    Reply.loading (assignment.keep path).result =
      .loading (.ok ⟨0, (given.map distinctKeys).getD 0, true⟩) := by
  rw [keep, holds.size]

theorem query (key : Key) :
    (assignment.query key).1 = given.bind (lastGiven · key) ∧
      Holds settings (assignment.query key).2 given := by
  cases holds with
  | nothing => exact ⟨rfl, .nothing⟩
  | table represents =>
    obtain ⟨answer, after⟩ := represents.get key
    rw [Contents.getElem?_ofEntries] at answer
    exact ⟨answer, .table after⟩

end Look

theorem perform (holds : Holds settings assignment given) (memory : Memory) (call : Call) :
    (assignment.perform memory call).1 = (given.perform memory settings call).1 ∧
      Holds settings (assignment.perform memory call).2
        (given.perform memory settings call).2 := by
  cases call with
  | query key =>
    obtain ⟨answer, after⟩ := holds.query key
    have expected : given.perform memory settings (.query key) =
        (.found (given.bind (lastGiven · key)), given) := by
      cases given <;> rfl
    rw [expected]
    exact ⟨congrArg Reply.found answer, after⟩
  | cleanup => cases holds <;> exact ⟨rfl, .nothing⟩
  | loadEntries entries =>
    -- Entries are items without a fault.
    have all := Records.records_map_ok entries
    cases holds with
    | nothing =>
      have taken := insert_fresh memory settings (entries.map .ok)
      rwa [all] at taken
    | @table table given represents =>
      have opened : openTable memory { settings, table := some table } = .ok table := rfl
      have taken := insert_of_open memory opened represents (entries.map .ok)
      rw [all] at taken
      exact ⟨congrArg Reply.loading taken.1, taken.2⟩
  | load source =>
    cases holds with
    | nothing => exact insertReporting_fresh memory settings none source
    | table represents =>
      have holds : Holds settings _ _ := .table represents
      exact ⟨holds.reply_keep none, holds⟩
  | loadFile path opened =>
    cases holds with
    | nothing =>
      cases opened with
      | error failure => exact ⟨rfl, .nothing⟩
      | ok source => exact insertReporting_fresh memory settings (some path) source
    | table represents =>
      have holds : Holds settings _ _ := .table represents
      exact ⟨holds.reply_keep (some path), holds⟩

end Holds

/-- A client cannot tell the assignment from its reference. Behind a fault the assignment is what it
was before the call, and so it is behind a load that finds a table. -/
structure Agrees (step : Step) (expected : Reply × Given) : Prop where
  reply : step.reply = expected.1
  populated : step.after.isPopulated = expected.2.isSome
  lookups : ∀ key, (step.after.query key).1 = expected.2.bind (lastGiven · key)
  size : step.after.size = (expected.2.map distinctKeys).getD 0
  failed : ∀ fault, step.reply = .loading (.error fault) → step.after = step.before
  kept : step.before.isPopulated = true → step.call.loadsOnce = true → step.after = step.before

theorem perform_kept {assignment : Assignment} {call : Call} (memory : Memory)
    (populated : assignment.isPopulated = true) (once : call.loadsOnce = true) :
    (assignment.perform memory call).2 = assignment := by
  cases call with
  | loadFile | load => simp [perform, loadFile, load, keep, populated]
  | loadEntries | query | cleanup => cases once

theorem Holds.agrees {settings : Settings Float} {assignment : Assignment} {given : Given}
    (holds : Holds settings assignment given) (memory : Memory) (call : Call) :
    Agrees
      ⟨assignment, call, (assignment.perform memory call).1, (assignment.perform memory call).2⟩
      (given.perform memory settings call) := by
  obtain ⟨reply, after⟩ := holds.perform memory call
  constructor
  · exact reply
  · exact after.isPopulated
  · exact fun key => (after.query key).1
  · exact after.size
  · intro fault faulty
    -- There is nothing before the call and nothing after it.
    obtain ⟨before, behind⟩ := Given.perform_of_fault (reply.symm.trans faulty)
    rw [behind] at after
    rw [before] at holds
    exact after.eq_of_nothing.trans holds.eq_of_nothing.symm
  · exact perform_kept memory

theorem Holds.trace {settings : Settings Float} {assignment : Assignment} {given : Given}
    (holds : Holds settings assignment given) (calls : List (Memory × Call)) :
    List.Forall₂ Agrees (assignment.trace calls) (given.trace settings calls) := by
  induction calls generalizing assignment given with
  | nil => exact .nil
  | cons head rest ih =>
    obtain ⟨memory, call⟩ := head
    exact .cons (holds.agrees memory call) (ih (holds.perform memory call).2)

/-- Whatever the settings are and whatever memory grants, an assignment behaves at every step of
every run as an optional map whose loads are all or nothing. -/
theorem trace_refines_optional_map (settings : Settings Float) (calls : List (Memory × Call)) :
    List.Forall₂ Agrees (trace { settings } calls) (Given.trace settings none calls) :=
  Holds.nothing.trace calls

end Assignment

end KeyPartitions
