import KeyPartitions.Proofs.Steps
import KeyPartitions.Table.Cursor
import KeyPartitions.Table.Frozen
import KeyPartitions.Table.Operation
import Mathlib.Data.List.Perm.Basic

/-!
# The life of a frozen table

A handle is live from the clone that issues it until it is dropped or gives the table back, and only
a live handle can be used. What was issued is always what is live and what was spent, no handle is
issued twice, there is one owner for each live handle, and all lookups come to the one table. So the
table comes back through the last handle and through no other, as it was frozen but for the lookups
that were counted: `run_life`.
-/
namespace KeyPartitions.Frozen

/-! ### Uses of handles -/

inductive Lookup
  | get (key : Key)
  | getOrNotFound (key : Key)
  | contains (key : Key)
  deriving DecidableEq, Repr

namespace Lookup

def key : Lookup → Key
  | get key | getOrNotFound key | contains key => key

/-- The answer to a lookup by what is found. -/
def answer (found : Option Partition) : Lookup → Answer
  | get _ => .lookup found
  | getOrNotFound _ => .partition (found.getD notFound)
  | contains _ => .flag found.isSome

end Lookup

/-- What is done with a handle. Dropping and thawing take it. -/
inductive Act
  | clone
  | drop
  | look (lookup : Lookup)
  | thaw
  deriving DecidableEq, Repr

inductive Outcome (α : Type)
  | issued (handle : Handle)
  | dropped
  | answered (answer : Answer)
  | thawed (table : Table α)
  /-- The table is not given back, but the handle is. -/
  | returned (handle : Handle)

structure Event (α : Type) where
  handle : Handle
  act : Act
  outcome : Outcome α

variable {α : Type}

def look (frozen : Frozen α) : Lookup → Answer × Frozen α
  | .get key => let (found, after) := frozen.get key; (.lookup found, after)
  | .getOrNotFound key => let (value, after) := frozen.getOrNotFound key; (.partition value, after)
  | .contains key => let (present, after) := frozen.contains key; (.flag present, after)

/-- A use is open to live handles. The handle that thaws the table goes with it. -/
def use? (frozen : Frozen α) (handle : Handle) (act : Act) : Option (Outcome α × Frozen α) :=
  if handle ∈ frozen.live then
    match act with
    | .clone => let (issued, after) := frozen.clone; some (.issued issued, after)
    | .drop => some (.dropped, frozen.drop handle)
    | .look lookup => let (answer, after) := frozen.look lookup; some (.answered answer, after)
    | .thaw =>
      match frozen.thaw? with
      | some table => some (.thawed table, frozen.drop handle)
      | none => some (.returned handle, frozen)
  else none

/-- A run is open to every use at its time. -/
def run? (frozen : Frozen α) : List (Handle × Act) → Option (List (Event α) × Frozen α)
  | [] => some ([], frozen)
  | (handle, act) :: rest =>
    (frozen.use? handle act).bind fun (outcome, after) =>
      (after.run? rest).map fun (events, last) => (⟨handle, act, outcome⟩ :: events, last)

/-! ### What the events tell -/

namespace Event

def issued : Event α → List Handle
  | ⟨_, _, .issued handle⟩ => [handle]
  | _ => []

/-- The handle that an event takes for good. -/
def spent : Event α → List Handle
  | ⟨handle, _, .dropped⟩ | ⟨handle, _, .thawed _⟩ => [handle]
  | _ => []

/-- Whether the event is a lookup of a key that the table has. -/
def hits (table : Table α) : Event α → Bool
  | ⟨_, .look lookup, _⟩ => (table.find? lookup.key).isSome
  | _ => false

def isThaw : Event α → Bool
  | ⟨_, _, .thawed _⟩ => true
  | _ => false

end Event

/-- The first handle and those of the clones. -/
def issued (events : List (Event α)) : List Handle := 0 :: events.flatMap Event.issued

def spent (events : List (Event α)) : List Handle := events.flatMap Event.spent

/-- The count of references: one for the first handle and one more for each clone, one less for each
handle that is spent. -/
def references (events : List (Event α)) : Nat := (issued events).length - (spent events).length

/-- The table with the lookups of the events counted. -/
def tally (table : Table α) (events : List (Event α)) : Table α :=
  { table with operations.reads := table.operations.reads + events.countP (Event.hits table) }

/-! ### One use -/

section Use

variable {frozen after : Frozen α} {handle : Handle} {act : Act} {outcome : Outcome α}

theorem look_eq (frozen : Frozen α) (lookup : Lookup) :
    frozen.look lookup =
      (lookup.answer (frozen.table.find? lookup.key),
        { frozen with table := (frozen.table.get lookup.key).2 }) := by
  cases lookup <;>
    simp only [look, Frozen.get, Frozen.getOrNotFound, Frozen.contains, Table.getOrNotFound,
      Table.contains, Table.get_fst, Lookup.answer, Lookup.key]

theorem thaw?_eq_some_iff {table : Table α} :
    frozen.thaw? = some table ↔ frozen.owners = 1 ∧ frozen.table = table := by
  simp [thaw?]

theorem thaw?_eq_none_iff : frozen.thaw? = none ↔ frozen.owners ≠ 1 := by
  simp [thaw?]

theorem use?_isSome_iff : (frozen.use? handle act).isSome ↔ handle ∈ frozen.live := by
  unfold use?
  split
  next live =>
    refine iff_of_true ?_ live
    cases act with
    | thaw => dsimp only; split <;> rfl
    | clone | drop | look => rfl
  next spent => exact iff_of_false (by simp) spent

theorem use?_cases (used : frozen.use? handle act = some (outcome, after)) :
    handle ∈ frozen.live ∧
    ((act = .clone ∧ outcome = .issued frozen.fresh ∧ after = frozen.clone.2) ∨
    (act = .drop ∧ outcome = .dropped ∧ after = frozen.drop handle) ∨
    (∃ lookup, act = .look lookup ∧
      outcome = .answered (lookup.answer (frozen.table.find? lookup.key)) ∧
      after = { frozen with table := (frozen.table.get lookup.key).2 }) ∨
    (act = .thaw ∧ frozen.owners = 1 ∧ outcome = .thawed frozen.table ∧
      after = frozen.drop handle) ∨
    (act = .thaw ∧ frozen.owners ≠ 1 ∧ outcome = .returned handle ∧ after = frozen)) := by
  have live : handle ∈ frozen.live := use?_isSome_iff.mp (Option.isSome_of_eq_some used)
  unfold use? at used
  rw [if_pos live] at used
  refine ⟨live, ?_⟩
  cases act with
  | clone =>
    cases used
    exact Or.inl ⟨rfl, rfl, rfl⟩
  | drop =>
    cases used
    exact Or.inr (Or.inl ⟨rfl, rfl, rfl⟩)
  | look lookup =>
    dsimp only at used
    rw [look_eq] at used
    cases used
    exact Or.inr (Or.inr (Or.inl ⟨lookup, rfl, rfl, rfl⟩))
  | thaw =>
    right; right; right
    cases answer : frozen.thaw? with
    | none =>
      rw [answer] at used
      cases used
      exact Or.inr ⟨rfl, thaw?_eq_none_iff.mp answer, rfl, rfl⟩
    | some table =>
      rw [answer] at used
      cases used
      obtain ⟨sole, rfl⟩ := thaw?_eq_some_iff.mp answer
      exact Or.inl ⟨rfl, sole, rfl, rfl⟩

/-- What was live and what is issued is what is live then and what is spent. -/
theorem use?_perm (used : frozen.use? handle act = some (outcome, after)) :
    (frozen.live ++ Event.issued ⟨handle, act, outcome⟩).Perm
      (after.live ++ Event.spent ⟨handle, act, outcome⟩) := by
  have taken (live : handle ∈ frozen.live) :
      (frozen.live ++ []).Perm ((frozen.drop handle).live ++ [handle]) := by
    rw [List.append_nil]
    exact (List.perm_cons_erase live).trans (List.perm_append_singleton handle _).symm
  obtain ⟨live, ⟨-, rfl, rfl⟩ | ⟨-, rfl, rfl⟩ | ⟨lookup, -, rfl, rfl⟩ | ⟨-, -, rfl, rfl⟩ |
    ⟨-, -, rfl, rfl⟩⟩ := use?_cases used
  · exact (List.perm_append_singleton frozen.fresh _).trans (by simp [Frozen.clone, Event.spent])
  · exact taken live
  · exact List.Perm.refl _
  · exact taken live
  · exact List.Perm.refl _

/-- There is one owner for each live handle. -/
def Counted (frozen : Frozen α) : Prop := frozen.owners = frozen.live.length

theorem counted_freeze (table : Table α) : table.freeze.Counted := rfl

theorem use?_counted (used : frozen.use? handle act = some (outcome, after))
    (counted : frozen.Counted) : after.Counted := by
  have dropped (live : handle ∈ frozen.live) : (frozen.drop handle).Counted := by
    unfold Counted Frozen.drop
    rw [counted, List.length_erase_of_mem live]
  obtain ⟨live, ⟨-, -, rfl⟩ | ⟨-, -, rfl⟩ | ⟨lookup, -, -, rfl⟩ | ⟨-, -, -, rfl⟩ |
    ⟨-, -, -, rfl⟩⟩ := use?_cases used
  · exact congrArg (· + 1) counted
  · exact dropped live
  · exact counted
  · exact dropped live
  · exact counted

/-- Where a live handle is the only one, there is one owner. -/
theorem Counted.sole_iff (counted : frozen.Counted) (live : handle ∈ frozen.live) :
    frozen.owners = 1 ↔ frozen.live = [handle] := by
  rw [counted, List.length_eq_one_iff]
  constructor
  · rintro ⟨only, same⟩
    rw [same, List.mem_singleton] at live
    rw [same, live]
  · exact fun sole => ⟨handle, sole⟩

/-- A new handle has the next number. -/
theorem use?_issued (used : frozen.use? handle act = some (outcome, after)) :
    let issued := Event.issued ⟨handle, act, outcome⟩
    issued = List.range' frozen.fresh issued.length ∧
      after.fresh = frozen.fresh + issued.length := by
  obtain ⟨-, ⟨-, rfl, rfl⟩ | ⟨-, rfl, rfl⟩ | ⟨lookup, -, rfl, rfl⟩ | ⟨-, -, rfl, rfl⟩ |
    ⟨-, -, rfl, rfl⟩⟩ := use?_cases used
  all_goals exact ⟨rfl, rfl⟩

theorem use?_answered {lookup : Lookup}
    (used : frozen.use? handle (.look lookup) = some (outcome, after)) :
    outcome = .answered (lookup.answer (frozen.table.find? lookup.key)) := by
  obtain ⟨-, ⟨looked, -⟩ | ⟨looked, -⟩ | ⟨other, looked, answered, -⟩ | ⟨looked, -⟩ |
    ⟨looked, -⟩⟩ := use?_cases used
  case inr.inr.inl =>
    cases looked
    exact answered
  all_goals cases looked

theorem use?_thawed {recovered : Table α}
    (used : frozen.use? handle act = some (.thawed recovered, after)) :
    handle ∈ frozen.live ∧ frozen.owners = 1 ∧ recovered = frozen.table ∧
      after = frozen.drop handle := by
  obtain ⟨live, ⟨-, thawed, -⟩ | ⟨-, thawed, -⟩ | ⟨lookup, -, thawed, -⟩ |
    ⟨-, one, thawed, rest⟩ | ⟨-, -, thawed, -⟩⟩ := use?_cases used
  case inr.inr.inr.inl =>
    cases thawed
    exact ⟨live, one, rfl, rest⟩
  all_goals cases thawed

theorem table_use? (used : frozen.use? handle act = some (outcome, after)) :
    after.table = tally frozen.table [⟨handle, act, outcome⟩] := by
  obtain ⟨-, ⟨rfl, rfl, rfl⟩ | ⟨rfl, rfl, rfl⟩ | ⟨lookup, rfl, rfl, rfl⟩ | ⟨rfl, -, rfl, rfl⟩ |
    ⟨rfl, -, rfl, rfl⟩⟩ := use?_cases used
  case inr.inr.inl =>
    rcases frozen.table.get_cases lookup.key with ⟨missing, same⟩ | ⟨partition, found, counted⟩
    · simp [tally, Event.hits, missing, same]
    · simp [tally, Event.hits, found, counted, Table.countRead]
  all_goals rfl

end Use

/-! ### Runs -/

section Run

variable {frozen last : Frozen α} {uses : List (Handle × Act)} {events : List (Event α)}

theorem run?_cons {use : Handle × Act} {rest : List (Handle × Act)}
    (run : frozen.run? (use :: rest) = some (events, last)) :
    ∃ outcome after later, frozen.use? use.1 use.2 = some (outcome, after) ∧
      after.run? rest = some (later, last) ∧ events = ⟨use.1, use.2, outcome⟩ :: later := by
  obtain ⟨⟨outcome, after⟩, used, later⟩ := Option.bind_eq_some_iff.mp run
  obtain ⟨⟨behind, final⟩, run, same⟩ := Option.map_eq_some_iff.mp later
  cases same
  exact ⟨outcome, after, behind, used, run, rfl⟩

theorem run?_perm (run : frozen.run? uses = some (events, last)) :
    (frozen.live ++ events.flatMap Event.issued).Perm (last.live ++ spent events) := by
  induction uses generalizing frozen events with
  | nil =>
    cases run
    exact List.Perm.refl _
  | cons use rest ih =>
    obtain ⟨outcome, after, later, used, behind, rfl⟩ := run?_cons run
    -- The handles live between the first use and the rest cancel out.
    have first := use?_perm used
    have others := ih behind
    rw [List.perm_iff_count] at first others ⊢
    intro handle
    have moved := first handle
    have kept := others handle
    simp only [spent, List.flatMap_cons, List.count_append] at moved kept ⊢
    omega

theorem run?_counted (run : frozen.run? uses = some (events, last)) (counted : frozen.Counted) :
    last.Counted := by
  induction uses generalizing frozen events with
  | nil =>
    cases run
    exact counted
  | cons use rest ih =>
    obtain ⟨outcome, after, later, used, behind, -⟩ := run?_cons run
    exact ih behind (use?_counted used counted)

/-- Handles are numbered as they are issued. -/
theorem run?_issued (run : frozen.run? uses = some (events, last)) :
    events.flatMap Event.issued =
      List.range' frozen.fresh (events.flatMap Event.issued).length := by
  induction uses generalizing frozen events with
  | nil =>
    cases run
    rfl
  | cons use rest ih =>
    obtain ⟨outcome, after, later, used, behind, rfl⟩ := run?_cons run
    obtain ⟨first, fresh⟩ := use?_issued used
    have others := ih behind
    rw [List.flatMap_cons, List.length_append, ← List.range'_append_1, ← first, ← fresh, ← others]

theorem hits_tally (table : Table α) (events : List (Event α)) :
    Event.hits (tally table events) = Event.hits table := rfl

theorem tally_cons (table : Table α) (event : Event α) (later : List (Event α)) :
    tally (tally table [event]) later = tally table (event :: later) := by
  have counts : [event].countP (Event.hits table) + later.countP (Event.hits table) =
      (event :: later).countP (Event.hits table) := by
    rw [← List.countP_append]
    rfl
  rw [tally, hits_tally]
  simp only [tally, ← counts, Nat.add_assoc]

theorem table_run? (run : frozen.run? uses = some (events, last)) :
    last.table = tally frozen.table events := by
  induction uses generalizing frozen events with
  | nil =>
    cases run
    rfl
  | cons use rest ih =>
    obtain ⟨outcome, after, later, used, behind, rfl⟩ := run?_cons run
    rw [ih behind, table_use? used, tally_cons]

/-- Every lookup finds what is found in the table that was frozen. -/
theorem run?_answered (run : frozen.run? uses = some (events, last)) :
    ∀ event ∈ events, ∀ lookup, event.act = .look lookup →
      event.outcome = .answered (lookup.answer (frozen.table.find? lookup.key)) := by
  induction uses generalizing frozen events with
  | nil =>
    cases run
    simp
  | cons use rest ih =>
    obtain ⟨outcome, after, later, used, behind, rfl⟩ := run?_cons run
    intro event member lookup looked
    rcases List.mem_cons.mp member with rfl | other
    · have same : use.2 = .look lookup := looked
      rw [same] at used
      exact use?_answered used
    · have answered := ih behind event other lookup looked
      rwa [table_use? used] at answered

/-- Without a live handle nothing more can be done. -/
theorem run?_of_no_live (none : frozen.live = [])
    (run : frozen.run? uses = some (events, last)) : events = [] ∧ last = frozen := by
  cases uses with
  | nil =>
    cases run
    exact ⟨rfl, rfl⟩
  | cons use rest =>
    obtain ⟨outcome, after, later, used, -, -⟩ := run?_cons run
    have live := (use?_cases used).1
    rw [none] at live
    cases live

/-- A thaw is the last event and leaves no handle. -/
theorem run?_thawed (counted : frozen.Counted) (run : frozen.run? uses = some (events, last)) :
    events.countP Event.isThaw ≤ 1 ∧
      ∀ event ∈ events, ∀ recovered, event.outcome = .thawed recovered →
        last.live = [] ∧ recovered = last.table := by
  induction uses generalizing frozen events with
  | nil =>
    cases run
    simp
  | cons use rest ih =>
    obtain ⟨outcome, after, later, used, behind, rfl⟩ := run?_cons run
    obtain ⟨once, ended⟩ := ih (use?_counted used counted) behind
    cases outcome with
    | thawed table =>
      obtain ⟨live, one, rfl, rfl⟩ := use?_thawed used
      have none : (frozen.drop use.1).live = [] := by
        simp [Frozen.drop, (counted.sole_iff live).mp one]
      obtain ⟨rfl, rfl⟩ := run?_of_no_live none behind
      refine ⟨Nat.le_refl 1, fun event member recovered thawed => ?_⟩
      obtain rfl := List.mem_singleton.mp member
      cases thawed
      exact ⟨none, rfl⟩
    | issued | dropped | answered | returned =>
      refine ⟨once, fun event member recovered thawed => ?_⟩
      rcases List.mem_cons.mp member with rfl | other
      · cases thawed
      · exact ended event other recovered thawed

end Run

/-! ### The life -/

/-- What holds of the handles and the table of one freeze, by the events so far. -/
structure Life (table : Table α) (events : List (Event α)) (frozen : Frozen α) : Prop where
  /-- A handle is live from its issue until it is spent, and no handle is issued twice. -/
  live : ∀ handle, handle ∈ frozen.live ↔ handle ∈ issued events ∧ handle ∉ spent events
  distinct : (issued events).Nodup
  counted : references events = frozen.live.length
  /-- The count that decides whether the table is given back is that of the live handles. -/
  owners : frozen.owners = frozen.live.length
  usable : ∀ handle act, (frozen.use? handle act).isSome ↔ handle ∈ frozen.live
  /-- The only live handle gives the table back and is gone. -/
  thaws : ∀ handle ∈ frozen.live, (∀ other ∈ frozen.live, other = handle) →
    references events = 1 ∧ ∃ after,
      frozen.use? handle .thaw = some (.thawed (tally table events), after) ∧ after.live = []
  /-- Beside another one a handle comes back, and nothing has changed. -/
  returns : ∀ handle ∈ frozen.live, (∃ other ∈ frozen.live, other ≠ handle) →
    references events ≠ 1 ∧ frozen.use? handle .thaw = some (.returned handle, frozen)
  once : events.countP Event.isThaw ≤ 1
  ended : ∀ event ∈ events, ∀ recovered, event.outcome = .thawed recovered →
    recovered = tally table events ∧ frozen.live = []
  /-- All but the count of reads is as it was frozen. -/
  kept : frozen.table = { table with
    operations.reads := table.operations.reads + events.countP (Event.hits table) }
  iteration : frozen.table.cursor = table.cursor
  answers : ∀ event ∈ events, ∀ lookup, event.act = .look lookup →
    event.outcome = .answered (lookup.answer (table.find? lookup.key))

/-- A handle that is live among distinct ones is the only one, or there is another. -/
theorem live_eq_or_exists_ne {frozen : Frozen α} (distinct : frozen.live.Nodup) {handle : Handle}
    (live : handle ∈ frozen.live) :
    frozen.live = [handle] ∨ ∃ other ∈ frozen.live, other ≠ handle := by
  by_cases sole : frozen.live = [handle]
  · exact Or.inl sole
  · rcases (distinct.ne_singleton_iff handle).mp sole with none | other
    · rw [none] at live
      cases live
    · exact Or.inr other

theorem use?_thaw_of_one {frozen : Frozen α} {handle : Handle} (live : handle ∈ frozen.live)
    (one : frozen.owners = 1) :
    frozen.use? handle .thaw = some (.thawed frozen.table, frozen.drop handle) := by
  rw [use?, if_pos live, thaw?_eq_some_iff.mpr ⟨one, rfl⟩]

theorem use?_thaw_of_more {frozen : Frozen α} {handle : Handle} (live : handle ∈ frozen.live)
    (more : frozen.owners ≠ 1) :
    frozen.use? handle .thaw = some (.returned handle, frozen) := by
  rw [use?, if_pos live, thaw?_eq_none_iff.mpr more]

/-- In every run of clones, drops, lookups and thaws through the handles of one freeze, the only
live handle gives the table back and no other does, this happens at most once, and the table is as
it was frozen with the lookups that found their key counted. -/
theorem run_life (table : Table α) {uses : List (Handle × Act)} {events : List (Event α)}
    {frozen : Frozen α} (run : table.freeze.run? uses = some (events, frozen)) :
    Life table events frozen := by
  have perm : (issued events).Perm (frozen.live ++ spent events) := run?_perm run
  have distinct : (issued events).Nodup := by
    -- The handles behind the first one are numbered from one on.
    have numbered : issued events = List.range' 0 ((events.flatMap Event.issued).length + 1) :=
      congrArg (0 :: ·) (run?_issued run)
    rw [numbered]
    exact List.nodup_range'
  have apart := List.nodup_append.mp (perm.nodup_iff.mp distinct)
  have counted : references events = frozen.live.length := by
    rw [references, perm.length_eq, List.length_append, Nat.add_sub_cancel]
  have owners : frozen.Counted := run?_counted run (counted_freeze table)
  have same : references events = frozen.owners := counted.trans owners.symm
  have kept : frozen.table = tally table events := table_run? run
  obtain ⟨once, ended⟩ := run?_thawed (counted_freeze table) run
  refine ⟨?live, distinct, counted, owners, fun _ _ => use?_isSome_iff, ?thaws, ?returns, once,
    ?ended, kept, by rw [kept]; rfl, run?_answered run⟩
  case live =>
    intro handle
    rw [perm.mem_iff, List.mem_append]
    constructor
    · exact fun live => ⟨Or.inl live, fun spent => apart.2.2 handle live handle spent rfl⟩
    · exact fun ⟨either, unspent⟩ => either.resolve_right unspent
  case thaws =>
    intro handle live alone
    rcases live_eq_or_exists_ne apart.1 live with sole | ⟨other, member, differs⟩
    · have one : frozen.owners = 1 := (owners.sole_iff live).mpr sole
      refine ⟨same.trans one, frozen.drop handle, ?_, by simp [Frozen.drop, sole]⟩
      rw [use?_thaw_of_one live one, kept]
    · exact absurd (alone other member) differs
  case returns =>
    rintro handle live ⟨other, member, differs⟩
    have more : frozen.owners ≠ 1 := by
      intro one
      rw [(owners.sole_iff live).mp one] at member
      exact differs (List.mem_singleton.mp member)
    exact ⟨same ▸ more, use?_thaw_of_more live more⟩
  case ended =>
    intro event member recovered thawed
    obtain ⟨none, rfl⟩ := ended event member recovered thawed
    exact ⟨kept, none⟩

/-- Two clones, and the first handle drops out before a thaw. The second clone cannot thaw until the
first is dropped, and of its lookups the one that finds its key is counted. -/
theorem run_life_of_clones :
    let table : Table Rat :=
      (Table.empty 1 5 fun _ => 5).extend .unbounded [⟨1, 10⟩, ⟨2, 20⟩]
    let uses : List (Handle × Act) :=
      [(0, .clone), (0, .look (.get 1)), (1, .clone), (0, .thaw), (0, .drop),
        (2, .look (.contains 9)), (1, .look (.getOrNotFound 2)), (1, .drop), (2, .thaw)]
    ∃ events frozen, table.freeze.run? uses = some (events, frozen) ∧ Life table events frozen ∧
      frozen.live = [] ∧ issued events = [0, 1, 2] ∧ spent events = [0, 1, 2] ∧
      events.countP Event.isThaw = 1 ∧ frozen.table.operations = ⟨2, 2, 0⟩ := by
  intro table uses
  have runs : (table.freeze.run? uses).isSome := by decide +kernel
  obtain ⟨⟨events, frozen⟩, run⟩ := Option.isSome_iff_exists.mp runs
  have seen : (table.freeze.run? uses).map (fun after =>
      (after.2.live, issued after.1, spent after.1, after.1.countP Event.isThaw,
        after.2.table.operations)) = some ([], [0, 1, 2], [0, 1, 2], 1, ⟨2, 2, 0⟩) := by
    decide +kernel
  rw [run] at seen
  simp only [Option.map_some, Option.some.injEq, Prod.mk.injEq] at seen
  exact ⟨events, frozen, run, run_life table run, seen⟩

end KeyPartitions.Frozen
