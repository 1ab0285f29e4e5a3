import KeyPartitions.Proofs.AssignmentRefinement
import KeyPartitions.Proofs.Generation
import KeyPartitions.Proofs.RoundTrip

/-!
# Loading a generated file

Generated records have distinct keys, so the entries given last are all there are. Written and read
back they are the same records, and a load of them into an assignment that has no table gives a map
of exactly these keys, whichever doublings memory grants on the way.
-/
namespace KeyPartitions

/-- Among entries with distinct keys the last one of a key is the only one. -/
theorem lastGiven_eq_some_iff {entries : List Entry} (distinct : Chain.Distinct entries) {key : Key}
    {partition : Partition} :
    lastGiven entries key = some partition ↔ ⟨key, partition⟩ ∈ entries := by
  constructor
  · intro given
    obtain ⟨entry, last, rfl⟩ := Option.map_eq_some_iff.mp given
    obtain ⟨stands, same⟩ := List.mem_filter.mp (List.mem_of_getLast? last)
    have key_eq : entry.key = key := by simpa using same
    subst key_eq
    exact stands
  · intro member
    have candidate : ⟨key, partition⟩ ∈ entries.filter (·.key = key) := by simpa using member
    obtain ⟨last, found⟩ := Option.isSome_iff_exists.mp
      (List.getLast?_isSome.mpr (List.ne_nil_of_mem candidate))
    obtain ⟨stands, same⟩ := List.mem_filter.mp (List.mem_of_getLast? found)
    have only : last = ⟨key, partition⟩ :=
      List.inj_on_of_nodup_map distinct stands member (by simpa using same)
    rw [lastGiven, found, only]
    rfl

theorem distinctKeys_eq_length {entries : List Entry} (distinct : Chain.Distinct entries) :
    distinctKeys entries = entries.length := by
  rw [distinctKeys, distinct.dedup, List.length_map]

/-- The calls that load bytes through a reader or from the file that holds them. -/
inductive Call.Reads (bytes : Text.Bytes) : Call → Prop
  | source : Reads bytes (.load ⟨bytes, .finished⟩)
  | file (path : String) : Reads bytes (.loadFile path (.ok ⟨bytes, .finished⟩))

namespace Assignment

open Records (Generated)

/-- Settings for whole files are valid, so only memory can refuse their table. -/
theorem fault?_bulk {memory : Memory} (room : memory.initial 20480 = true) :
    (Settings.bulk : Settings Float).fault? memory = none := by
  have limit : LoadScale.isLimit (Settings.bulk : Settings Float).loadLimit = true := by
    decide +kernel
  have capacity : (Settings.bulk : Settings Float).capacity = 20480 := rfl
  simp [Settings.fault?, limit, capacity, room]

/-- What a load of written entries makes of a standard assignment. -/
theorem perform_written {memory : Memory} (room : memory.initial 20480 = true)
    {entries : List Entry} {call : Call} (reads : call.Reads (Records.written entries)) :
    (standard.perform memory call).1 =
        .loading (.ok ⟨entries.length, distinctKeys entries, false⟩) ∧
      ∀ key, ((standard.perform memory call).2.query key).1 = lastGiven entries key := by
  have expected : Given.perform memory Settings.bulk none call =
      (.loading (.ok ⟨entries.length, distinctKeys entries, false⟩), some entries) := by
    have read : Records.Source.recorded ⟨Records.written entries, .finished⟩ = .ok entries := by
      rw [Records.Source.recorded, ← Records.Source.items_eq_judged]
      exact Records.readAll_written entries
    cases reads <;> simp [Given.perform, Given.fresh, fault?_bulk room, read]
  have holds : Holds Settings.bulk standard none := .nothing
  obtain ⟨reply, after⟩ := holds.perform memory call
  rw [expected] at reply after
  exact ⟨reply, fun key => (after.query key).1⟩

/-- A generated file loads to exactly what was generated. Every key from one to the count is found
with its partition, and no other key is found. -/
theorem load_generated {σ : Type} [Random.WordSource σ] {count : Nat}
    (small : count < UInt32.size - 1) {partitions : Partition} (positive : 0 < partitions)
    (source : σ) (memory : Memory) (room : memory.initial 20480 = true) :
    ∃ entries after, Records.generate? count partitions source = some (entries, after) ∧
      (Records.write {} entries).1 = .ok count ∧
      ∀ call, call.Reads (Records.written entries) →
        let step := standard.perform memory call
        step.1 = .loading (.ok ⟨count, count, false⟩) ∧
        (∀ key : Key, 1 ≤ key.toInt ∧ key.toInt ≤ (count : Int) → ∃ partition < partitions,
          (∀ other, ⟨key, other⟩ ∈ entries ↔ other = partition) ∧
            (step.2.query key).1 = some partition) ∧
        ∀ key : Key, ¬ (1 ≤ key.toInt ∧ key.toInt ≤ (count : Int)) →
          (step.2.query key).1 = none := by
  have reachable : (count : Int) ≤ Int64.maxValue.toInt := by
    have limit : Int64.maxValue.toInt = 9223372036854775807 := by decide
    simp only [UInt32.size] at small
    omega
  obtain ⟨entries, after, records, generated⟩ :=
    Records.generate?_generated count positive source
  have distinct : Chain.Distinct entries := generated.nodup_keys
  have length := generated.length_eq reachable
  refine ⟨entries, after, records, ?written, fun call reads => ?loaded⟩
  case written => rw [(Records.write_eq entries).1, length]
  case loaded =>
    obtain ⟨reply, lookups⟩ := perform_written room reads
    rw [distinctKeys_eq_length distinct, length] at reply
    refine ⟨reply, fun key inside => ?_, fun key outside => ?_⟩
    · obtain ⟨entry, member, rfl⟩ :=
        List.mem_map.mp ((generated.mem_keys_iff reachable key).mpr inside)
      refine ⟨entry.partition, generated.bounded entry member, fun other => ?_, ?_⟩
      · -- A second partition of the key would be a second entry.
        rw [← lastGiven_eq_some_iff distinct, (lastGiven_eq_some_iff distinct).mpr member,
          Option.some_inj, eq_comm]
      · rw [lookups, lastGiven_eq_some_iff distinct]
        exact member
    · rw [lookups, Option.eq_none_iff_forall_ne_some]
      intro partition given
      have member := (lastGiven_eq_some_iff distinct).mp given
      exact outside ((generated.mem_keys_iff reachable key).mp (List.mem_map_of_mem member))

/-- Five records from three words that come again and again, with every doubling refused. -/
theorem load_generated_of_five :
    let source : Random.Replay := ⟨#[0x9e3779b9, 0x7f4a7c15, 0xfffffff1], 0⟩
    let memory : Memory := ⟨fun _ => true, fun _ _ => false⟩
    let entries : List Entry := [⟨3, 1⟩, ⟨2, 3⟩, ⟨4, 2⟩, ⟨1, 1⟩, ⟨5, 3⟩]
    let step := standard.perform memory (.loadFile "five.tsv"
      (.ok ⟨Records.written entries, .finished⟩))
    5 < UInt32.size - 1 ∧ (0 : Partition) < 4 ∧ memory.initial 20480 = true ∧
      (Records.generate? 5 4 source).map Prod.fst = some entries ∧
      step.1 = .loading (.ok ⟨5, 5, false⟩) ∧ (step.2.query 2).1 = some 3 ∧
      (step.2.query 6).1 = none := by
  intro source memory entries step
  have small : 5 < UInt32.size - 1 := by decide
  have positive : (0 : Partition) < 4 := by decide
  have made : (Records.generate? 5 4 source).map Prod.fst = some entries := by decide +kernel
  obtain ⟨drawn, after, records, -, loads⟩ := load_generated small positive source memory rfl
  obtain rfl : drawn = entries := by simpa [records] using made
  obtain ⟨reply, present, absent⟩ := loads _ (.file "five.tsv")
  obtain ⟨partition, -, only, found⟩ := present 2 (by decide)
  have three : 3 = partition := (only 3).mp (by decide)
  exact ⟨small, positive, rfl, made, reply, three ▸ found, absent 6 (by decide)⟩

end Assignment

end KeyPartitions
