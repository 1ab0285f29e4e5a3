import KeyPartitions.Proofs.Numerals
import KeyPartitions.Records.Line
import Mathlib.Algebra.Group.Nat.Defs
import Mathlib.Data.List.DropRight

/-!
# The grammar of lines

What a line of a data file has to look like to be a record: without the line ends at its end it has
a tab, before the first tab stands a key and behind it a partition, each between blanks. The grammar
is given by how a text is put together, and reading a line by how it is taken apart; the main
statement, `parseLine_accepts_grammar`, is that these are the same.
-/
namespace KeyPartitions

namespace Text

/-- The text without all such characters at its end. -/
structure WithoutEnd (dropped : Char → Bool) (text rest : List Char) : Prop where
  parts : ∃ ending, text = rest ++ ending ∧ ∀ c ∈ ending, dropped c = true
  longest : ∀ c ∈ rest.getLast?, dropped c = false

/-- The text without the blanks at its two ends. -/
structure Trimmed (text inner : List Char) : Prop where
  parts : ∃ before after, text = before ++ inner ++ after ∧
    (∀ c ∈ before, isBlank c = true) ∧ ∀ c ∈ after, isBlank c = true
  first : ∀ c ∈ inner.head?, isBlank c = false
  last : ∀ c ∈ inner.getLast?, isBlank c = false

theorem rdropWhile_append_of_all {dropped : Char → Bool} (rest : List Char) {ending : List Char}
    (all : ∀ c ∈ ending, dropped c = true) :
    (rest ++ ending).rdropWhile dropped = rest.rdropWhile dropped := by
  have backwards : ∀ c ∈ ending.reverse, dropped c = true := by simpa using all
  rw [List.rdropWhile, List.reverse_append, List.dropWhile_append_of_pos backwards, List.rdropWhile]

theorem rdropWhile_eq_iff {dropped : Char → Bool} {text rest : List Char} :
    text.rdropWhile dropped = rest ↔ WithoutEnd dropped text rest := by
  constructor
  · rintro rfl
    constructor
    · exact ⟨text.rtakeWhile dropped, List.rdropWhile_append_rtakeWhile.symm,
        fun c member => List.mem_rtakeWhile_imp member⟩
    · intro c last
      obtain ⟨nonempty, rfl⟩ := List.mem_getLast?_eq_getLast last
      simpa using List.rdropWhile_last_not dropped text nonempty
  · rintro ⟨⟨ending, rfl, all⟩, longest⟩
    rw [rdropWhile_append_of_all rest all, List.rdropWhile_eq_self_iff]
    intro nonempty
    simp [longest _ (List.getLast?_eq_some_getLast nonempty)]

theorem trim_eq (text : List Char) :
    trim text = (text.dropWhile isBlank).rdropWhile isBlank := rfl

theorem trim_eq_iff {text inner : List Char} : trim text = inner ↔ Trimmed text inner := by
  rw [trim_eq, rdropWhile_eq_iff]
  constructor
  · rintro ⟨⟨after, behind, blankAfter⟩, last⟩
    refine ⟨⟨text.takeWhile isBlank, after, ?_, ?_, blankAfter⟩, ?_, last⟩
    · rw [List.append_assoc, ← behind, List.takeWhile_append_dropWhile]
    · exact fun c member => List.mem_takeWhile_imp member
    · -- What is left starts where the blanks in front stopped.
      intro c first
      have stopped := List.head?_dropWhile_not isBlank text
      rw [behind, List.head?_append, first] at stopped
      simpa using stopped
  · rintro ⟨⟨before, after, rfl, blankBefore, blankAfter⟩, first, last⟩
    rw [List.append_assoc, List.dropWhile_append_of_pos blankBefore]
    cases inner with
    | nil => exact ⟨⟨[], by simpa using blankAfter, by simp⟩, last⟩
    | cons c back =>
      rw [List.cons_append, List.dropWhile_cons_of_neg (by simp [first c rfl])]
      exact ⟨⟨after, rfl, blankAfter⟩, last⟩

end Text

namespace Records

/-- A line that holds a record: the key, a tab, which is the first one, and the partition. -/
structure RecordLine (line : List Char) (key : Int) (partition : Nat) : Prop where
  fields : ∃ left right keyText partitionText,
    Text.WithoutEnd (fun c => c = '\r' ∨ c = '\n') line (left ++ '\t' :: right) ∧ '\t' ∉ left ∧
    Text.Trimmed left keyText ∧ Text.Signed keyText key ∧
    Text.Trimmed right partitionText ∧ Text.Unsigned partitionText partition
  keyRange : -2 ^ 63 ≤ key ∧ key < 2 ^ 63
  partitionRange : partition < 2 ^ 32

theorem body_eq_iff {line rest : List Char} :
    body line = rest ↔ Text.WithoutEnd (fun c => c = '\r' ∨ c = '\n') line rest := by
  have ends : (fun c => decide (c = '\r' ∨ c = '\n')) = isLineEnd := by
    funext c
    simp [isLineEnd, Bool.decide_or, beq_eq_decide]
  rw [ends, ← Text.rdropWhile_eq_iff]
  rfl

theorem fields?_eq_some_iff {text left right : List Char} :
    fields? text = some (left, right) ↔ text = left ++ '\t' :: right ∧ '\t' ∉ left := by
  induction text generalizing left with
  | nil => simp [fields?]
  | cons c rest ih =>
    by_cases tab : c = '\t'
    · rw [fields?, if_pos tab, tab]
      cases left with
      | nil => simp
      | cons d more =>
        -- A tab at the front is the first one.
        simp only [Option.some.injEq, Prod.mk.injEq, List.nil_eq, reduceCtorEq, false_and,
          false_iff, List.cons_append, List.cons.injEq, not_and]
        rintro ⟨rfl, -⟩ absent
        exact absent List.mem_cons_self
    · rw [fields?, if_neg tab]
      cases left with
      | nil => simp [tab]
      | cons d more =>
        -- Any other character goes to the field in front, and the search goes on.
        have behind := @ih more
        simp only [Option.map_eq_some_iff, Prod.mk.injEq, List.cons_append, List.cons.injEq,
          List.mem_cons, not_or]
        constructor
        · rintro ⟨⟨before, after⟩, found, ⟨rfl, rfl⟩, rfl⟩
          obtain ⟨rfl, absent⟩ := behind.mp found
          exact ⟨⟨rfl, rfl⟩, Ne.symm tab, absent⟩
        · rintro ⟨⟨rfl, rfl⟩, -, absent⟩
          exact ⟨(more, right), behind.mpr ⟨rfl, absent⟩, ⟨rfl, rfl⟩, rfl⟩

private theorem map_eq_ok_iff {ε α β : Type} {result : Except ε α} {f : α → β} {b : β} :
    result.map f = .ok b ↔ ∃ a, result = .ok a ∧ f a = b := by
  cases result <;> simp [Except.map]

theorem readKey_eq_ok_iff {field : List Char} {key : Key} :
    readKey field = .ok key ↔ Text.Signed (Text.trim field) key.toInt := by
  simp only [readKey, map_eq_ok_iff, Text.readNumeral_signed_eq_ok_iff
    Int64.toInt_minValue_lt_zero (by decide : 0 ≤ Int64.maxValue.toInt)]
  constructor
  · -- A value in range is the one of its key.
    rintro ⟨value, ⟨numeral, low, high⟩, rfl⟩
    rw [Int64.toInt_minValue] at low
    rw [Int64.toInt_maxValue] at high
    rwa [Int64.toInt_ofInt_of_le low (by omega)]
  · intro numeral
    exact ⟨key.toInt, ⟨numeral, key.minValue_le_toInt, key.toInt_le⟩, Int64.ofInt_toInt key⟩

theorem readPartition_eq_ok_iff {field : List Char} {partition : Partition} :
    readPartition field = .ok partition ↔ Text.Unsigned (Text.trim field) partition.toNat := by
  simp only [readPartition, map_eq_ok_iff, Text.readNumeral_zero_eq_ok_iff
    (by decide : (0 : Int) ≤ UInt32.size - 1)]
  constructor
  · rintro ⟨value, ⟨size, numeral, rfl, inside⟩, rfl⟩
    have small : size < UInt32.size := by omega
    rwa [Int.toNat_natCast, UInt32.toNat_ofNat_of_lt' small]
  · intro numeral
    have small := partition.toNat_lt_size
    exact ⟨partition.toNat, ⟨_, numeral, rfl, by omega⟩, by simp⟩

theorem readFields_eq_ok_iff {line : List Char} {entry : Entry} :
    readFields line = .ok entry ↔
      ∃ left right, fields? (body line) = some (left, right) ∧ readKey left = .ok entry.key ∧
        readPartition right = .ok entry.partition := by
  unfold readFields
  cases fields? (body line) with
  | none => simp
  | some fields =>
    obtain ⟨left, right⟩ := fields
    cases keyRead : readKey left with
    | error fault => simp [keyRead]
    | ok key =>
      cases partitionRead : readPartition right with
      | error fault => simp [keyRead, partitionRead]
      | ok partition =>
        cases entry
        simp [keyRead, partitionRead]

/-- In its fields a line of the grammar is what reading takes it apart into. -/
theorem recordLine_iff {line : List Char} {key : Int} {partition : Nat} :
    RecordLine line key partition ↔
      (∃ left right, fields? (body line) = some (left, right) ∧
        Text.Signed (Text.trim left) key ∧ Text.Unsigned (Text.trim right) partition) ∧
      (-2 ^ 63 ≤ key ∧ key < 2 ^ 63) ∧ partition < 2 ^ 32 := by
  constructor
  · rintro ⟨⟨left, right, _, _, ends, first, trimmedKey, key, trimmedPartition, partition⟩,
      keyRange, partitionRange⟩
    obtain rfl := Text.trim_eq_iff.mpr trimmedKey
    obtain rfl := Text.trim_eq_iff.mpr trimmedPartition
    have fields := fields?_eq_some_iff.mpr ⟨body_eq_iff.mpr ends, first⟩
    exact ⟨⟨left, right, fields, key, partition⟩, keyRange, partitionRange⟩
  · rintro ⟨⟨left, right, fields, key, partition⟩, keyRange, partitionRange⟩
    obtain ⟨ends, first⟩ := fields?_eq_some_iff.mp fields
    exact ⟨⟨left, right, _, _, body_eq_iff.mp ends, first, Text.trim_eq_iff.mp rfl, key,
      Text.trim_eq_iff.mp rfl, partition⟩, keyRange, partitionRange⟩

theorem readFields_eq_ok_iff_recordLine {line : List Char} {entry : Entry} :
    readFields line = .ok entry ↔ RecordLine line entry.key.toInt entry.partition.toNat := by
  have ranges : (-2 ^ 63 ≤ entry.key.toInt ∧ entry.key.toInt < 2 ^ 63) ∧
      entry.partition.toNat < 2 ^ 32 :=
    ⟨⟨entry.key.le_toInt, entry.key.toInt_lt⟩, entry.partition.toNat_lt⟩
  simp only [readFields_eq_ok_iff, readKey_eq_ok_iff, readPartition_eq_ok_iff, recordLine_iff,
    ranges, and_true]

/-- A key and a partition in range are those of an entry. -/
theorem RecordLine.exists_entry {line : List Char} {key : Int} {partition : Nat}
    (record : RecordLine line key partition) : ∃ entry : Entry, readFields line = .ok entry := by
  refine ⟨⟨Int64.ofInt key, UInt32.ofNat partition⟩, readFields_eq_ok_iff_recordLine.mpr ?_⟩
  rw [Int64.toInt_ofInt_of_le record.keyRange.1 record.keyRange.2,
    UInt32.toNat_ofNat_of_lt' record.partitionRange]
  exact record

/-- A line is read as an entry just if it is, by the grammar, a line of its key and partition, and
just if it is a line of none it gives a fault, which carries the number of the line. -/
theorem parseLine_accepts_grammar (line : String) (number : Nat) :
    (∀ entry, parseLine line number = .ok entry ↔
      RecordLine line.toList entry.key.toInt entry.partition.toNat) ∧
    ((∃ fault : LineFault, parseLine line number = .error (.badLine number fault.message)) ↔
      ∀ key partition, ¬ RecordLine line.toList key partition) := by
  unfold parseLine
  cases read : readFields line.toList with
  | error fault =>
    constructor
    · intro entry
      simp [← readFields_eq_ok_iff_recordLine, read, Except.mapError]
    · -- The line of a record would have been read.
      refine iff_of_true ⟨fault, rfl⟩ fun key partition record => ?_
      obtain ⟨entry, accepted⟩ := record.exists_entry
      rw [read] at accepted
      cases accepted
  | ok entry =>
    constructor
    · intro other
      simp [← readFields_eq_ok_iff_recordLine, read, Except.mapError]
    · refine iff_of_false (by simp [Except.mapError]) fun absent => ?_
      exact absent _ _ (readFields_eq_ok_iff_recordLine.mp read)

end Records

end KeyPartitions
