import KeyPartitions.Proofs.RoundTrip

/-!
# Torn files

A sink with too little room takes a file up to some byte. The lines in front of that byte are whole,
so a reader gives their entries. Behind them stands at most a part of one line, without its line
feed. A part that ends before the partition begins is no record, and a fault says so. A part that
ends later is the text of an entry with the same key, and its partition has lost the digits that
were cut off, so it is read as that entry: this damage passes unnoticed.
-/
namespace KeyPartitions

namespace Text

/-- The digits in front make the number without the last digits. -/
theorem eq_toDigits_of_front {digits : List Char} {value : Nat} (nonempty : digits ≠ [])
    (front : digits <+: Nat.toDigits 10 value) :
    ∃ smaller ≤ value, digits = Nat.toDigits 10 smaller := by
  induction value using Nat.strongRecOn with
  | ind value ih =>
    rcases Nat.lt_or_ge value 10 with single | more
    · -- One digit is all there is.
      rw [Nat.toDigits_of_lt_base single] at front
      have one : digits.length = 1 :=
        Nat.le_antisymm front.length_le (List.length_pos_of_ne_nil nonempty)
      exact ⟨value, Nat.le_refl _,
        (front.eq_of_length one).trans (Nat.toDigits_of_lt_base single).symm⟩
    · -- The last digit stays or goes, and the digits in front of it are those of a tenth.
      rw [Nat.toDigits_of_base_le (by decide) more] at front
      rcases List.prefix_concat_iff.mp front with whole | shorter
      · exact ⟨value, Nat.le_refl _, by rw [whole, Nat.toDigits_of_base_le (by decide) more]⟩
      · have less : value / 10 < value := by omega
        obtain ⟨smaller, bound, same⟩ := ih _ less shorter
        exact ⟨smaller, by omega, same⟩

theorem encode_take {text : List Char} (ascii : ∀ c ∈ text, c.toNat < 0x80) (size : Nat) :
    (encode text).take size = encode (text.take size) := by
  rw [encode_ascii ascii, encode_ascii fun c member => ascii c (List.mem_of_mem_take member),
    List.map_take]

end Text

namespace Records

open Text (Bytes)

/-! ### What is written -/

/-- A sink with limited room takes the front of the file, and the writing fails just if that is not
all of it or the flush fails. -/
theorem write_limited (room : Nat) (refusal : IoFailure) (flushFailure : Option IoFailure)
    (entries : List Entry) :
    let sink : Sink := { room := some room, refusal, flushFailure }
    (write sink entries).2.bytes = (fileBytes entries).take room ∧
      (write sink entries).1 =
        if (fileBytes entries).length ≤ room then sink.flush entries.length
        else .error (.io refusal) := by
  -- Only where the room is too small does the sink refuse, and then there is no flush.
  by_cases fits : (fileBytes entries).length ≤ room
  · simp [write, writeOnto_eq, Sink.accept, Sink.bytes, Sink.flush, fits]
  · simp [write, writeOnto_eq, Sink.accept, Sink.bytes, fits]

/-! ### What is left of a line -/

/-- What stands behind `whole` lines of a file that was cut, and what a reader gives for it. -/
inductive Tear (entries : List Entry) (whole : Nat) : List Char → List Item → Prop
  /-- The file was cut behind a line, or not at all. -/
  | boundary : Tear entries whole [] []
  | inKey {entry : Entry} {text : List Char} :
      entries[whole]? = some entry → text ≠ [] → text <+: Text.writeNumeral entry.key.toInt →
        Tear entries whole text
          [.error (.badLine (whole + 1) (LineFault.noTab (String.ofList text)).message)]
  | behindTab {entry : Entry} :
      entries[whole]? = some entry →
        Tear entries whole (Text.writeNumeral entry.key.toInt ++ ['\t'])
          [.error (.badLine (whole + 1) (LineFault.badPartition "" .empty).message)]
  /-- The partition has lost its last digits, or none. -/
  | inPartition {entry : Entry} {partition : Partition} {dropped : Nat} :
      entries[whole]? = some entry →
        Text.writeNumeral partition.toNat =
            (Text.writeNumeral entry.partition.toNat).rdrop dropped →
          Tear entries whole (entryText ⟨entry.key, partition⟩) [.ok ⟨entry.key, partition⟩]

/-- A number that is left of a partition is a partition. -/
theorem exists_partition_of_front {partition : Partition} {digits : List Char}
    (nonempty : digits ≠ []) (front : digits <+: Text.writeNumeral partition.toNat) :
    ∃ shorter : Partition, digits = Text.writeNumeral shorter.toNat := by
  rw [Text.writeNumeral_natCast] at front
  obtain ⟨smaller, bound, same⟩ := Text.eq_toDigits_of_front nonempty front
  have inside : smaller < UInt32.size := Nat.lt_of_le_of_lt bound partition.toNat_lt_size
  refine ⟨UInt32.ofNat smaller, ?_⟩
  rw [UInt32.toNat_ofNat_of_lt' inside, Text.writeNumeral_natCast, same]

/-- Wherever the text of an entry is cut, what is left has its place among the tears. -/
theorem exists_tear {entries : List Entry} {whole : Nat} {entry : Entry} {text : List Char}
    (here : entries[whole]? = some entry) (front : text <+: entryText entry) :
    ∃ last, Tear entries whole text last := by
  by_cases empty : text = []
  · rw [empty]
    exact ⟨_, .boundary⟩
  rcases List.prefix_or_prefix_of_prefix front (List.prefix_append _ _) with key | ⟨rest, rfl⟩
  · exact ⟨_, .inKey here empty key⟩
  · -- The key is whole, so the cut is behind it, behind the tab or among the digits.
    rw [entryText, List.prefix_append_right_inj] at front
    rcases List.prefix_cons_iff.mp front with rfl | ⟨digits, rfl, partition⟩
    · rw [List.append_nil] at empty ⊢
      exact ⟨_, .inKey here empty (List.prefix_refl _)⟩
    · by_cases noDigits : digits = []
      · rw [noDigits]
        exact ⟨_, .behindTab here⟩
      · obtain ⟨shorter, rfl⟩ := exists_partition_of_front noDigits partition
        obtain ⟨dropped, parts⟩ := partition
        have kept : Text.writeNumeral shorter.toNat =
            (Text.writeNumeral entry.partition.toNat).rdrop dropped.length := by
          rw [← parts, List.rdrop_append_length]
        exact ⟨_, Tear.inPartition here kept⟩

/-- The front of a file is the lines of its first entries and a part of the next text. -/
theorem exists_take_fileBytes (entries : List Entry) (size : Nat) :
    ∃ whole ≤ entries.length, ∃ text, (text = [] ∨
        ∃ entry, entries[whole]? = some entry ∧ text <+: entryText entry) ∧
      (fileBytes entries).take size = fileBytes (entries.take whole) ++ Text.encode text := by
  induction entries generalizing size with
  | nil => exact ⟨0, Nat.le_refl _, [], Or.inl rfl, List.take_nil⟩
  | cons entry rest ih =>
    have file (entries : List Entry) : fileBytes (entry :: entries) =
        lineBytes entry ++ fileBytes entries := List.flatMap_cons
    rw [file, List.take_append]
    rcases Nat.lt_or_ge size (lineBytes entry).length with inside | behind
    · -- The cut is in the first line, whose line feed is lost.
      have short : size ≤ (Text.encode (entryText entry)).length := by
        rw [lineBytes_eq, List.length_append] at inside
        exact Nat.le_of_lt_succ inside
      have cut : (lineBytes entry).take size = Text.encode ((entryText entry).take size) := by
        rw [lineBytes_eq, List.take_append_of_le_length short,
          Text.encode_take (ascii_entryText entry)]
      have nothing : size - (lineBytes entry).length = 0 := by omega
      refine ⟨0, Nat.zero_le _, (entryText entry).take size,
        Or.inr ⟨entry, rfl, List.take_prefix _ _⟩, ?_⟩
      rw [cut, nothing]
      exact List.append_nil _
    · -- The first line is whole, and the rest of the file is cut further in front.
      obtain ⟨whole, inside, text, place, cut⟩ := ih (size - (lineBytes entry).length)
      refine ⟨whole + 1, Nat.succ_le_succ inside, text, place, ?_⟩
      rw [cut, List.take_of_length_le behind, List.take_succ_cons, file, List.append_assoc]

/-! ### Reading it back -/

theorem inKey_front (entry : Entry) {text : List Char}
    (front : text <+: Text.writeNumeral entry.key.toInt) : text <+: entryText entry :=
  front.trans (List.prefix_append _ _)

theorem behindTab_front (entry : Entry) :
    Text.writeNumeral entry.key.toInt ++ ['\t'] <+: entryText entry := by
  rw [entryText, List.prefix_append_right_inj]
  exact List.prefix_append ['\t'] _

section Part

variable {entry : Entry} {text : List Char} (front : text <+: entryText entry)

include front

theorem lineFeed_not_mem_of_front : lineFeed ∉ Text.encode text := by
  obtain ⟨rest, parts⟩ := front
  intro feed
  apply lineFeed_not_mem_entryText entry
  rw [← parts, Text.encode_append]
  exact List.mem_append_left _ feed

/-- There is no line end to drop. -/
theorem body_of_front : body text = text := by
  apply body_eq_iff.mpr
  refine ⟨⟨[], (List.append_nil _).symm, by simp⟩, fun c last => ?_⟩
  exact decide_eq_false
    (not_lineEnd_of_mem_entryText (front.subset (List.mem_of_mem_getLast? last)))

/-- A part of a line behind others, which is the last of the file, is read as a line. -/
theorem answers_of_front (visible : ∃ c ∈ text, 45 ≤ c.toNat ∧ c.toNat ≤ 57) (before : Nat) :
    (answers (throughFirstFault (verdicts .finished before before
      (Source.lines ⟨Text.encode text, .finished⟩)))).map Prod.fst =
        [parseLine (String.ofList text) (before + 1)] := by
  have item := lineItem?_encode visible (before + 1)
  have nonempty : Text.encode text ≠ [] := by
    intro empty
    rw [empty] at item
    cases item
  have decoded : (Text.decode? (Text.encode text)).isSome = true := by
    rw [Text.decode?_encode]
    rfl
  rw [lines_of_no_feed (lineFeed_not_mem_of_front front)]
  simp only [nonempty, if_false, verdicts, item, decoded, if_true, Ending.item?, throughFirstFault]
  -- Behind the line there is nothing, whether it is a fault or not.
  split <;> rfl

end Part

theorem parseLine_of_inKey {key : Key} {text : List Char}
    (front : text <+: Text.writeNumeral key.toInt) (number : Nat) :
    parseLine (String.ofList text) number =
      .error (.badLine number (LineFault.noTab (String.ofList text)).message) := by
  -- A numeral has no tab in it.
  have none : fields? text = none := by
    rw [Option.eq_none_iff_forall_ne_some]
    rintro ⟨left, right⟩ found
    have tab : '\t' ∈ text := by simp [(fields?_eq_some_iff.mp found).1]
    exact absurd (Text.toNat_of_mem_writeNumeral (front.subset tab)).1 (by decide)
  have whole : body text = text := body_of_front (inKey_front ⟨key, 0⟩ front)
  rw [parseLine, String.toList_ofList, readFields, whole, none]
  rfl

theorem parseLine_of_behindTab (key : Key) (number : Nat) :
    parseLine (String.ofList (Text.writeNumeral key.toInt ++ ['\t'])) number =
      .error (.badLine number (LineFault.badPartition "" .empty).message) := by
  have fields : fields? (Text.writeNumeral key.toInt ++ ['\t']) =
      some (Text.writeNumeral key.toInt, []) := by
    refine fields?_eq_some_iff.mpr ⟨rfl, fun tab => ?_⟩
    exact absurd (Text.toNat_of_mem_writeNumeral tab).1 (by decide)
  have readable : readKey (Text.writeNumeral key.toInt) = .ok key := by
    rw [readKey_eq_ok_iff, Text.trim_eq_iff.mpr (Text.trimmed_writeNumeral _)]
    exact Text.signed_writeNumeral _
  have whole : body (Text.writeNumeral key.toInt ++ ['\t']) =
      Text.writeNumeral key.toInt ++ ['\t'] := body_of_front (behindTab_front ⟨key, 0⟩)
  have missing : readPartition [] = .error .empty := rfl
  simp only [parseLine, String.toList_ofList, readFields, whole, fields, readable, missing]
  rfl

/-- A reader gives the entries of the whole lines and what the tear leaves. -/
theorem Tear.items {entries : List Entry} {whole : Nat} {text : List Char} {last : List Item}
    (tear : Tear entries whole text last) (inside : whole ≤ entries.length) :
    Source.items ⟨fileBytes (entries.take whole) ++ Text.encode text, .finished⟩ =
      (entries.take whole).map .ok ++ last := by
  have before : (entries.take whole).length = whole := List.length_take_of_le inside
  rw [items_fileBytes_append, before]
  congr 1
  cases tear with
  | boundary => rfl
  | @inKey entry text here nonempty front =>
    obtain ⟨c, member⟩ := List.exists_mem_of_ne_nil _ nonempty
    have visible : ∃ c ∈ text, 45 ≤ c.toNat ∧ c.toNat ≤ 57 :=
      ⟨c, member, Text.toNat_of_mem_writeNumeral (front.subset member)⟩
    rw [answers_of_front (inKey_front entry front) visible, parseLine_of_inKey front]
  | @behindTab entry here =>
    rw [answers_of_front (behindTab_front entry) (exists_visible _ _), parseLine_of_behindTab]
  | @inPartition entry partition dropped here shorter =>
    have noEnd : ∀ c ∈ ([] : List Char), c = '\r' ∨ c = '\n' := by simp
    have read := parseLine_entryText ⟨entry.key, partition⟩ (whole + 1) noEnd
    rw [List.append_nil] at read
    rw [answers_of_front (List.prefix_refl (entryText ⟨entry.key, partition⟩))
      (exists_visible _ _), read]

/-- A sink that takes the first `room` bytes and nothing behind them receives the front of the file,
and the writing succeeds just if this is all of the file and the flush does not fail. Read back, the
bytes give the entries of the lines that are whole, and what a tear leaves of the next one. -/
theorem torn_write_keeps_whole_lines (room : Nat) (refusal : IoFailure)
    (flushFailure : Option IoFailure) (entries : List Entry) :
    let sink : Sink := { room := some room, refusal, flushFailure }
    let file := fileBytes entries
    let bytes := (write sink entries).2.bytes
    bytes = file.take (min room file.length) ∧
      ((write sink entries).1 = .ok entries.length ↔
        file.length ≤ room ∧ flushFailure = none) ∧
      ∃ whole ≤ entries.length, ∃ text last, Tear entries whole text last ∧
        bytes = fileBytes (entries.take whole) ++ Text.encode text ∧
        Source.items ⟨bytes, .finished⟩ = (entries.take whole).map .ok ++ last := by
  intro sink file bytes
  obtain ⟨received, result⟩ := write_limited room refusal flushFailure entries
  refine ⟨?_, ?_, ?_⟩
  · rw [← List.take_eq_take_min]
    exact received
  · rw [result]
    by_cases fits : file.length ≤ room
    · cases flushFailure <;> simp [file, fits, Sink.flush]
    · simp [file, fits]
  · obtain ⟨whole, inside, text, place, cut⟩ := exists_take_fileBytes entries room
    obtain ⟨last, tear⟩ : ∃ last, Tear entries whole text last := by
      rcases place with rfl | ⟨entry, here, front⟩
      · exact ⟨_, .boundary⟩
      · exact exists_tear here front
    have parts : bytes = fileBytes (entries.take whole) ++ Text.encode text := received.trans cut
    refine ⟨whole, inside, text, last, tear, parts, ?_⟩
    rw [parts]
    exact tear.items inside

end Records

end KeyPartitions
