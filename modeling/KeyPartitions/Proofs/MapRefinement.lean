import KeyPartitions.Proofs.Iteration
import KeyPartitions.Proofs.Reachable
import Std.Data.ExtTreeMap

/-!
# Refinement of a finite map

The reference is an ordered map of the standard library, with the operations of a table. A table
represents a map when it is well formed and looks every key up as the map does. Each operation
keeps this and answers as it does on the map, so the two agree all along a run: in the answers, in
the size, and, up to order, in the entries that an iteration gives.
-/
namespace KeyPartitions

abbrev Contents := Std.ExtTreeMap Key Partition

namespace Contents

def put (contents : Contents) (entry : Entry) : Contents :=
  contents.insert entry.key entry.partition

def perform (contents : Contents) : Operation → Answer × Contents
  | .put entry => (.done, contents.put entry)
  | .extend entries => (.done, entries.foldl put contents)
  | .remove key => (.flag (contents.contains key), contents.erase key)
  | .get key => (.lookup contents[key]?, contents)
  | .getOrNotFound key => (.partition (contents.getD key notFound), contents)
  | .contains key => (.flag (contents.contains key), contents)
  | .clear => (.done, ∅)

/-- The map after each operation, with the answer that came with it. -/
def trace (contents : Contents) : List Operation → List (Answer × Contents)
  | [] => []
  | operation :: rest =>
    let step := contents.perform operation
    step :: trace step.2 rest

def entries (contents : Contents) : List Entry :=
  contents.toList.map fun (key, partition) => ⟨key, partition⟩

theorem mem_entries {contents : Contents} {entry : Entry} :
    entry ∈ contents.entries ↔ contents[entry.key]? = some entry.partition := by
  rw [← Std.ExtTreeMap.mem_toList_iff_getElem?_eq_some, entries, List.mem_map]
  constructor
  · rintro ⟨⟨key, partition⟩, member, rfl⟩
    exact member
  · exact fun member => ⟨(entry.key, entry.partition), member, rfl⟩

theorem length_entries (contents : Contents) : contents.entries.length = contents.size := by
  rw [entries, List.length_map, Std.ExtTreeMap.length_toList]

theorem nodup_entries (contents : Contents) : contents.entries.Nodup := by
  have keys : (contents.entries.map Entry.key) = contents.keys := by
    rw [entries, List.map_map, ← Std.ExtTreeMap.map_fst_toList_eq_keys]
    rfl
  apply List.Nodup.of_map Entry.key
  rw [keys]
  exact Std.ExtTreeMap.nodup_keys

end Contents

namespace Table

variable {α : Type}

structure Represents (table : Table α) (contents : Contents) : Prop where
  wellFormed : table.WellFormed
  find : ∀ key, table.find? key = contents[key]?

namespace Represents

variable {table : Table α} {contents : Contents} (represents : table.Represents contents)

include represents

theorem entries_perm : table.entries.Perm contents.entries := by
  -- Neither side has an entry twice, so it is enough that they have the same ones.
  have distinct := represents.wellFormed.distinct.of_map Entry.key
  apply (List.perm_ext_iff_of_nodup distinct contents.nodup_entries).mpr
  intro entry
  rw [Contents.mem_entries, ← represents.find]
  exact represents.wellFormed.find?_eq_some_iff.symm

theorem count_eq_size : table.count = contents.size := by
  rw [represents.wellFormed.counted, represents.entries_perm.length_eq, contents.length_entries]

theorem countRead : table.countRead.Represents contents :=
  ⟨represents.wellFormed.countRead, represents.find⟩

theorem get (key : Key) :
    (table.get key).1 = contents[key]? ∧ (table.get key).2.Represents contents := by
  refine ⟨(table.get_fst key).trans (represents.find key), ?_⟩
  rcases table.get_snd_cases key with same | counted
  · rwa [same]
  · rw [counted]; exact represents.countRead

theorem remove (key : Key) :
    (table.remove key).1 = contents.contains key ∧
      (table.remove key).2.Represents (contents.erase key) := by
  refine ⟨?_, represents.wellFormed.remove key, fun other => ?_⟩
  · rw [remove_fst, represents.find, Std.ExtTreeMap.contains_eq_isSome_getElem?]
  · rw [represents.wellFormed.find?_remove, represents.find, Std.ExtTreeMap.getElem?_erase]
    simp only [Std.LawfulEqCmp.compare_eq_iff_eq]

theorem clear : table.clear.Represents ∅ where
  wellFormed := represents.wellFormed.clear
  find key := by
    rw [Std.ExtTreeMap.getElem?_empty, represents.wellFormed.clear.find?_eq_none_iff]
    simp

variable [LoadScale α]

theorem put (memory : Memory) (entry : Entry) :
    (table.put memory entry).Represents (contents.put entry) where
  wellFormed := represents.wellFormed.put memory entry
  find key := by
    rw [represents.wellFormed.find?_put, represents.find, Contents.put,
      Std.ExtTreeMap.getElem?_insert]
    simp only [Std.LawfulEqCmp.compare_eq_iff_eq]

theorem extend (memory : Memory) (entries : List Entry) :
    (table.extend memory entries).Represents (entries.foldl Contents.put contents) := by
  induction entries generalizing table contents with
  | nil => exact represents
  | cons entry rest ih => exact ih (represents.put memory entry)

/-- An operation on a table that represents a map is that operation on the map. -/
theorem perform (memory : Memory) (operation : Operation) :
    (table.perform memory operation).1 = (contents.perform operation).1 ∧
      (table.perform memory operation).2.Represents (contents.perform operation).2 := by
  cases operation with
  | put entry => exact ⟨rfl, represents.put memory entry⟩
  | extend entries => exact ⟨rfl, represents.extend memory entries⟩
  | remove key =>
    obtain ⟨answer, after⟩ := represents.remove key
    exact ⟨congrArg Answer.flag answer, after⟩
  | get key =>
    obtain ⟨answer, after⟩ := represents.get key
    exact ⟨congrArg Answer.lookup answer, after⟩
  | getOrNotFound key =>
    obtain ⟨answer, after⟩ := represents.get key
    have value : (table.get key).1.getD notFound = contents.getD key notFound := by
      rw [answer, Std.ExtTreeMap.getD_eq_getD_getElem?]
    exact ⟨congrArg Answer.partition value, after⟩
  | contains key =>
    obtain ⟨answer, after⟩ := represents.get key
    have present : (table.get key).1.isSome = contents.contains key := by
      rw [answer, Std.ExtTreeMap.contains_eq_isSome_getElem?]
    exact ⟨congrArg Answer.flag present, after⟩
  | clear => exact ⟨rfl, represents.clear⟩

end Represents

/-- A client cannot tell the table from the map: the answers are equal, the count is the size, and
every iteration long enough gives the entries of the map in some order, no key twice. -/
structure Agrees (actual : Answer × Table α) (expected : Answer × Contents) : Prop where
  answer : actual.1 = expected.1
  size : actual.2.count = expected.2.size
  iterated : ∀ limit, actual.2.count ≤ limit →
    (actual.2.cursor.take limit).1.Perm expected.2.entries ∧
      ((actual.2.cursor.take limit).1.map Entry.key).Nodup

theorem Represents.agrees {actual : Answer × Table α} {expected : Answer × Contents}
    (represents : actual.2.Represents expected.2) (answer : actual.1 = expected.1) :
    Agrees actual expected where
  answer := answer
  size := represents.count_eq_size
  iterated limit enough := by
    rw [represents.wellFormed.take_cursor enough]
    exact ⟨represents.entries_perm, represents.wellFormed.distinct⟩

variable [LoadScale α]

theorem Represents.trace {table : Table α} {contents : Contents}
    (represents : table.Represents contents) (memory : Memory) (operations : List Operation) :
    List.Forall₂ Agrees (table.trace memory operations) (contents.trace operations) := by
  induction operations generalizing table contents with
  | nil => exact .nil
  | cons operation rest ih =>
    obtain ⟨answer, after⟩ := represents.perform memory operation
    exact .cons (after.agrees answer) (ih after)

theorem Made.represents {memory : Memory} {table : Table α} (made : Made memory table) :
    table.Represents ∅ := by
  refine ⟨made.wellFormed, fun key => ?_⟩
  rw [Std.ExtTreeMap.getElem?_empty, made.wellFormed.find?_eq_none_iff, made.eq_empty.2]
  simp [entries, empty]

/-- Whichever doublings memory grants, a made table behaves as a finite map at every step of every
run. -/
theorem trace_refines_map (memory : Memory) {start : Table α} (made : Made memory start)
    (operations : List Operation) :
    List.Forall₂ Agrees (start.trace memory operations) (Contents.trace ∅ operations) :=
  made.represents.trace memory operations

/-- The first doubling is refused, a key goes from the middle of the chain and comes back. -/
theorem trace_refines_map_of_crowded :
    let memory : Memory := ⟨fun _ => true, fun attempt _ => attempt != 0⟩
    let operations : List Operation :=
      [.put ⟨1, 10⟩, .extend [⟨2, 20⟩, ⟨3, 30⟩, ⟨2, 21⟩], .remove 2, .remove 2, .get 2,
        .put ⟨2, 22⟩, .getOrNotFound 2, .contains 3, .clear, .getOrNotFound 1]
    Made memory (crowded 1) ∧
      List.Forall₂ Agrees ((crowded 1).trace memory operations) (Contents.trace ∅ operations) ∧
      ((crowded 1).trace memory operations).map Prod.fst =
        [.done, .done, .flag true, .flag false, .lookup none, .done, .partition 22, .flag true,
          .done, .partition notFound] := by
  intro memory operations
  have made : Made memory (crowded 1) := made_crowded rfl one_pos
  exact ⟨made, trace_refines_map memory made operations, by decide +kernel⟩

end Table

end KeyPartitions
