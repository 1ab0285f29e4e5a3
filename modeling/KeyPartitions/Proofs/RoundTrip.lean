import KeyPartitions.Proofs.LineGrammar
import KeyPartitions.Proofs.LineReading
import KeyPartitions.Records.Writer

/-!
# Writing and reading

The lines of a written file are those of its entries one by one: a line has no line feed but the one
at its end, its fields are numerals, which have no blanks to lose, and the grammar gives back the
key and the partition. So reading what was written restores the entries. Of bytes that were not
written this way, reading and writing makes a normal form.
-/
namespace KeyPartitions

namespace Text

theorem encode_eq_flatMap (text : List Char) :
    encode text = text.flatMap String.utf8EncodeChar := by
  simp [encode, List.utf8Encode, List.data_toByteArray]

theorem encode_append (first second : List Char) :
    encode (first ++ second) = encode first ++ encode second := by
  simp only [encode_eq_flatMap, List.flatMap_append]

/-- A character below U+0080 is one byte. -/
theorem encode_ascii {text : List Char} (ascii : ∀ c ∈ text, c.toNat < 0x80) :
    encode text = text.map Char.toUInt8 := by
  induction text with
  | nil => rfl
  | cons c rest ih =>
    obtain ⟨small, others⟩ := List.forall_mem_cons.mp ascii
    have size : c.utf8Size = 1 := by
      rw [Char.utf8Size_eq_one_iff, UInt32.le_iff_toNat_le]
      exact Nat.le_of_lt_succ small
    rw [encode_eq_flatMap, List.flatMap_cons, ← encode_eq_flatMap, ih others,
      String.utf8EncodeChar_eq_singleton size]
    rfl

/-- The characters of a written numeral are digits and a minus sign. -/
theorem toNat_of_mem_writeNumeral {value : Int} {c : Char} (member : c ∈ writeNumeral value) :
    45 ≤ c.toNat ∧ c.toNat ≤ 57 := by
  have ofDigit : c ∈ Nat.toDigits 10 value.natAbs → 45 ≤ c.toNat ∧ c.toNat ≤ 57 := by
    intro digit
    obtain ⟨low, high⟩ := (isDigit_iff c).mpr
      (Nat.isDigit_of_mem_toDigits (by decide) (by decide) digit)
    exact ⟨Nat.le_trans (by decide) low, high⟩
  unfold writeNumeral at member
  split at member
  next =>
    rcases List.mem_cons.mp member with rfl | digit
    · decide
    · exact ofDigit digit
  next => exact ofDigit member

theorem isBlank_eq_false {c : Char} (low : 33 ≤ c.toNat) (high : c.toNat < 0x80) :
    isBlank c = false := by
  simp only [isBlank, Bool.or_eq_false_iff, Bool.and_eq_false_iff, decide_eq_false_iff_not,
    beq_eq_false_iff_ne]
  omega

theorem writeNumeral_ne_nil (value : Int) : writeNumeral value ≠ [] := by
  unfold writeNumeral
  split
  · simp
  · exact Nat.toDigits_ne_nil

/-- A written numeral has no blanks to lose. -/
theorem trimmed_writeNumeral (value : Int) : Trimmed (writeNumeral value) (writeNumeral value) where
  parts := ⟨[], [], by simp⟩
  first c member := by
    have range := toNat_of_mem_writeNumeral (List.mem_of_mem_head? member)
    exact isBlank_eq_false (by omega) (by omega)
  last c member := by
    have range := toNat_of_mem_writeNumeral (List.mem_of_mem_getLast? member)
    exact isBlank_eq_false (by omega) (by omega)

end Text

namespace Records

open Text (Bytes)

/-! ### Written lines -/

/-- The text of an entry without the line feed at its end. -/
def entryText (entry : Entry) : List Char :=
  Text.writeNumeral entry.key.toInt ++ '\t' :: Text.writeNumeral entry.partition.toNat

theorem lineText_eq (entry : Entry) : lineText entry = entryText entry ++ ['\n'] := rfl

/-- Digits, minus signs and the tab. -/
theorem toNat_of_mem_entryText {entry : Entry} {c : Char} (member : c ∈ entryText entry) :
    c = '\t' ∨ (45 ≤ c.toNat ∧ c.toNat ≤ 57) := by
  rcases List.mem_append.mp member with key | behind
  · exact Or.inr (Text.toNat_of_mem_writeNumeral key)
  · rcases List.mem_cons.mp behind with rfl | partition
    · exact Or.inl rfl
    · exact Or.inr (Text.toNat_of_mem_writeNumeral partition)

theorem not_lineEnd_of_mem_entryText {entry : Entry} {c : Char} (member : c ∈ entryText entry) :
    ¬ (c = '\r' ∨ c = '\n') := by
  rcases toNat_of_mem_entryText member with rfl | range
  · decide
  · rintro (rfl | rfl) <;> exact absurd range.1 (by decide)

/-- The text of an entry, with or without line ends behind it, is a line of the entry. -/
theorem recordLine_entryText (entry : Entry) {ending : List Char}
    (ends : ∀ c ∈ ending, c = '\r' ∨ c = '\n') :
    RecordLine (entryText entry ++ ending) entry.key.toInt entry.partition.toNat where
  fields := by
    refine ⟨Text.writeNumeral entry.key.toInt, Text.writeNumeral entry.partition.toNat, _, _,
      ⟨⟨ending, rfl, by simpa using ends⟩, ?_⟩, ?_, Text.trimmed_writeNumeral _,
      Text.signed_writeNumeral _, Text.trimmed_writeNumeral _, Text.unsigned_writeNumeral _⟩
    · -- No further line end stands before those at the end.
      intro c last
      exact decide_eq_false (not_lineEnd_of_mem_entryText (List.mem_of_mem_getLast? last))
    · intro tab
      exact absurd (Text.toNat_of_mem_writeNumeral tab).1 (by decide)
  keyRange := ⟨entry.key.le_toInt, entry.key.toInt_lt⟩
  partitionRange := entry.partition.toNat_lt

theorem parseLine_entryText (entry : Entry) (number : Nat) {ending : List Char}
    (ends : ∀ c ∈ ending, c = '\r' ∨ c = '\n') :
    parseLine (String.ofList (entryText entry ++ ending)) number = .ok entry := by
  have read := readFields_eq_ok_iff_recordLine.mpr (recordLine_entryText entry ends)
  rw [parseLine, String.toList_ofList, read]
  rfl

/-- A line with a digit or a minus sign in it is not blank. -/
theorem lineItem?_encode {text : List Char} (visible : ∃ c ∈ text, 45 ≤ c.toNat ∧ c.toNat ≤ 57)
    (number : Nat) :
    lineItem? number (Text.encode text) = some (parseLine (String.ofList text) number) := by
  obtain ⟨c, member, low, high⟩ := visible
  have visible : Text.isBlank c = false := Text.isBlank_eq_false (by omega) (by omega)
  have shown : text.all Text.isBlank = false :=
    List.all_eq_false.mpr ⟨c, member, by simp [visible]⟩
  simp [lineItem?, Text.decode?_encode, shown]

/-- There is a key in front. -/
theorem exists_visible (key : Int) (behind : List Char) :
    ∃ c ∈ Text.writeNumeral key ++ behind, 45 ≤ c.toNat ∧ c.toNat ≤ 57 := by
  obtain ⟨c, member⟩ := List.exists_mem_of_ne_nil _ (Text.writeNumeral_ne_nil key)
  exact ⟨c, List.mem_append_left _ member, Text.toNat_of_mem_writeNumeral member⟩

/-- A written line is read as its entry, wherever it stands. -/
theorem lineItem?_lineBytes (entry : Entry) (number : Nat) :
    lineItem? number (lineBytes entry) = some (.ok entry) := by
  have visible : ∃ c ∈ lineText entry, 45 ≤ c.toNat ∧ c.toNat ≤ 57 := by
    rw [lineText_eq, entryText, List.append_assoc]
    exact exists_visible _ _
  rw [lineBytes, lineItem?_encode visible, lineText_eq, parseLine_entryText entry number (by simp)]

theorem lineBytes_eq (entry : Entry) :
    lineBytes entry = Text.encode (entryText entry) ++ [lineFeed] := by
  rw [lineBytes, lineText_eq, Text.encode_append]
  rfl

theorem ascii_entryText (entry : Entry) : ∀ c ∈ entryText entry, c.toNat < 0x80 := by
  intro c member
  rcases toNat_of_mem_entryText member with rfl | range
  · decide
  · omega

theorem lineFeed_not_mem_entryText (entry : Entry) : lineFeed ∉ Text.encode (entryText entry) := by
  rw [Text.encode_ascii (ascii_entryText entry), List.mem_map]
  rintro ⟨c, member, feed⟩
  rcases toNat_of_mem_entryText member with rfl | range
  · cases feed
  · have byte : c.toNat % 256 = 10 := congrArg UInt8.toNat feed
    omega

/-! ### Written files -/

/-- The lines of the entries come first, whatever stands behind them. -/
theorem lines_fileBytes_append (entries : List Entry) (behind : Bytes) (ending : Ending) :
    Source.lines ⟨fileBytes entries ++ behind, ending⟩ =
      entries.map lineBytes ++ Source.lines ⟨behind, ending⟩ := by
  induction entries with
  | nil => rfl
  | cons entry rest ih =>
    -- The first line feed of the file is the one behind its first entry.
    have file : fileBytes (entry :: rest) ++ behind =
        Text.encode (entryText entry) ++ lineFeed :: (fileBytes rest ++ behind) := by
      simp [fileBytes, lineBytes_eq]
    rw [file, lines_append_feed (lineFeed_not_mem_entryText entry), ih, List.map_cons,
      List.cons_append, lineBytes_eq]

/-- The verdicts of written lines: each is read, and the count goes on behind them. -/
theorem answers_lineBytes_append (entries : List Entry) (ending : Ending) (before : Nat)
    (behind : List Bytes) :
    let all := throughFirstFault (verdicts ending before before (entries.map lineBytes ++ behind))
    let after := before + entries.length
    let others := throughFirstFault (verdicts ending after after behind)
    answers all = entries.mapIdx (fun position entry => (.ok entry, before + position + 1)) ++
        answers others ∧
      finalCount all = finalCount others := by
  induction entries generalizing before with
  | nil => exact ⟨rfl, rfl⟩
  | cons entry rest ih =>
    obtain ⟨items, count⟩ := ih (before + 1)
    have decoded : (Text.decode? (lineBytes entry)).isSome = true := by
      rw [lineBytes, Text.decode?_encode]
      rfl
    -- No verdict is a fault, so the count goes on behind the first line.
    have reached : throughFirstFault (verdicts ending before before
        ((entry :: rest).map lineBytes ++ behind)) = ⟨some (.ok entry), before + 1⟩ ::
          throughFirstFault (verdicts ending (before + 1) (before + 1)
            (rest.map lineBytes ++ behind)) := by
      simp [verdicts, throughFirstFault, lineItem?_lineBytes, decoded, Verdict.isFault]
    have shift (position : Nat) : before + 1 + position = before + (position + 1) := by omega
    dsimp only
    rw [reached, answers_item, finalCount_cons (throughFirstFault_ne_nil (verdicts_ne_nil _)),
      items, count, List.length_cons]
    simp only [List.mapIdx_cons, List.cons_append, shift, Nat.add_zero, and_self]

/-- A reader of a file gives its entries, and then goes on with what stands behind them. -/
theorem answers_fileBytes_append (entries : List Entry) (behind : Bytes) (ending : Ending) :
    let reached := Source.reached ⟨fileBytes entries ++ behind, ending⟩
    let others := throughFirstFault
      (verdicts ending entries.length entries.length (Source.lines ⟨behind, ending⟩))
    answers reached = entries.mapIdx (fun position entry => (.ok entry, position + 1)) ++
        answers others ∧
      finalCount reached = finalCount others := by
  have all := answers_lineBytes_append entries ending 0 (Source.lines ⟨behind, ending⟩)
  simpa only [Source.reached, lines_fileBytes_append, Nat.zero_add] using all

theorem items_fileBytes_append (entries : List Entry) (behind : Bytes) (ending : Ending) :
    Source.items ⟨fileBytes entries ++ behind, ending⟩ =
      entries.map .ok ++ (answers (throughFirstFault (verdicts ending entries.length entries.length
        (Source.lines ⟨behind, ending⟩)))).map Prod.fst := by
  let source : Source := ⟨fileBytes entries ++ behind, ending⟩
  have seen : answers source.reader.reached = _ :=
    (answers_fileBytes_append entries behind ending).1
  have firsts :
      (entries.mapIdx fun position entry => (Except.ok entry, position + 1)).map Prod.fst =
        entries.map (Except.ok : Entry → Item) := by
    apply List.ext_getElem?
    intro position
    simp only [List.getElem?_map, List.getElem?_mapIdx]
    cases entries[position]? <;> rfl
  rw [Source.items, source.reader.drain_eq.1, seen, List.map_append, firsts]

theorem answers_fileBytes (entries : List Entry) :
    answers (Source.reached ⟨fileBytes entries, .finished⟩) =
        entries.mapIdx (fun position entry => (.ok entry, position + 1)) ∧
      finalCount (Source.reached ⟨fileBytes entries, .finished⟩) = entries.length := by
  obtain ⟨items, count⟩ := answers_fileBytes_append entries [] .finished
  rw [List.append_nil] at items count
  exact ⟨items.trans (List.append_nil _), count⟩

/-! ### Writing -/

@[simp] theorem accept_nil (sink : Sink) : sink.accept [] = (true, sink) := by
  cases sink with
  | mk room refusal flushFailure received => cases room <;> simp [Sink.accept]

/-- Two pieces one after the other are one piece. -/
theorem accept_append (sink : Sink) (first second : Bytes) :
    sink.accept (first ++ second) =
      match sink.accept first with
      | (true, after) => after.accept second
      | (false, after) => (false, after) := by
  cases sink with
  | mk room refusal flushFailure received =>
    cases room with
    | none => simp [Sink.accept]
    | some room =>
      by_cases fits : first.length ≤ room
      · have sum : first.length + second.length ≤ room ↔ second.length ≤ room - first.length := by
          omega
        simp [Sink.accept, fits, sum, List.take_append, List.take_of_length_le, Nat.sub_sub]
      · have none : second.take (room - first.length) = [] := by simp; omega
        have full : room - (first.length + second.length) = room - first.length := by omega
        have sum : ¬ first.length + second.length ≤ room := by omega
        simp [Sink.accept, fits, sum, List.take_append, none, full]

/-- Writing the lines one by one is writing the file at once. -/
theorem writeOnto_eq (sink : Sink) (written : Nat) (entries : List Entry) :
    writeOnto sink written entries =
      match sink.accept (fileBytes entries) with
      | (true, after) => (after.flush (written + entries.length), after)
      | (false, after) => (.error (.io after.refusal), after) := by
  induction entries generalizing sink written with
  | nil => simp [writeOnto, fileBytes]
  | cons entry rest ih =>
    rw [fileBytes, List.flatMap_cons, ← fileBytes, accept_append, writeOnto]
    cases sink.accept (lineBytes entry) with
    | mk taken after =>
      cases taken with
      | false => rfl
      | true => simp only [ih, List.length_cons, Nat.add_assoc, Nat.add_comm 1]

/-! ### Both ways -/

/-- The bytes that a sink without a limit receives. -/
def written (entries : List Entry) : Bytes := (write {} entries).2.bytes

theorem write_eq (entries : List Entry) :
    (write {} entries).1 = .ok entries.length ∧ written entries = fileBytes entries := by
  simp [written, write, writeOnto_eq, Sink.accept, Sink.flush, Sink.bytes]

/-- The records of bytes, or the fault that ends their reading. -/
def readAll (bytes : Bytes) : Except Fault (List Entry) := records (Source.items ⟨bytes, .finished⟩)

/-- What is written of the records that the bytes hold. -/
def normalize (bytes : Bytes) : Except Fault Bytes := (readAll bytes).map written

/-- A reader gives the entries one by one and no fault, and counts as many lines. -/
structure Restores (bytes : Bytes) (entries : List Entry) : Prop where
  item : ∀ calls, ((Source.reader ⟨bytes, .finished⟩).after calls).next.1 = entries[calls]?.map .ok
  count : ∀ calls, ((Source.reader ⟨bytes, .finished⟩).after calls).linesRead =
    min calls entries.length
  items : Source.items ⟨bytes, .finished⟩ = entries.map .ok

theorem restores_written (entries : List Entry) : Restores (written entries) entries := by
  let source : Source := ⟨fileBytes entries, .finished⟩
  have seen : answers source.reader.reached =
      entries.mapIdx fun position entry => (.ok entry, position + 1) :=
    (answers_fileBytes entries).1
  have final : finalCount source.reader.reached = entries.length := (answers_fileBytes entries).2
  rw [(write_eq entries).2]
  constructor
  · intro calls
    rw [source.reader.item_after, seen, List.getElem?_mapIdx]
    cases entries[calls]? <;> rfl
  · intro calls
    cases calls with
    | zero => exact (Nat.zero_min _).symm
    | succ calls =>
      rw [source.reader.linesRead_after, seen, final, List.getElem?_mapIdx]
      rcases Nat.lt_or_ge calls entries.length with inside | behind
      · rw [List.getElem?_eq_getElem inside, Nat.min_eq_left inside]
        rfl
      · rw [List.getElem?_eq_none behind, Nat.min_eq_right (Nat.le_succ_of_le behind)]
        rfl
  · have items := items_fileBytes_append entries [] .finished
    rw [List.append_nil] at items
    exact items.trans (List.append_nil _)

theorem readAll_written (entries : List Entry) : readAll (written entries) = .ok entries := by
  rw [readAll, (restores_written entries).items, records_map_ok]

/-- Written records are read back in order, with one line counted for each. Of any bytes that are
read without a fault, the writing and the reading of their records gives the same records, and a
second writing the same bytes as the first. -/
theorem write_read_restores :
    (∀ entries, (write {} entries).1 = .ok entries.length ∧ Restores (written entries) entries) ∧
    ∀ bytes, (normalize bytes).bind readAll = readAll bytes ∧
      (normalize bytes).bind normalize = normalize bytes := by
  constructor
  · intro entries
    exact ⟨(write_eq entries).1, restores_written entries⟩
  · intro bytes
    cases read : readAll bytes with
    | error fault => simp [normalize, read, Except.map, Except.bind]
    | ok entries =>
      have again := readAll_written entries
      simp [normalize, read, again, Except.map, Except.bind]

end Records

end KeyPartitions
