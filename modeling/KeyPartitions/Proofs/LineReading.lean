import KeyPartitions.Records.Reader
import Mathlib.Data.List.TakeWhile

/-!
# Reading line by line

A reference for readers. The bytes of a source are cut into lines all at once, every line has its
verdict, and the verdicts count up to the first fault. A reader gives the items of these verdicts
call by call and nothing behind them, and after each call its count of lines is the one that stands
beside the item. The step lemma says that one call takes one item off those that are left.
-/
namespace KeyPartitions.Records

open Text (Bytes)

/-! ### The reference -/

/-- The pieces up to and with each line feed. What stands behind the last line feed is a line too if
the source ends there and it is not empty. -/
def Source.lines (source : Source) : List Bytes :=
  let pieces := source.bytes.splitOn lineFeed
  let whole := pieces.dropLast.map (· ++ [lineFeed])
  match source.ending with
  | .finished =>
    let last := pieces.getLast (List.splitOn_ne_nil lineFeed source.bytes)
    whole ++ if last = [] then [] else [last]
  | .failing _ => whole

/-- What a line gives, with its number in the source. -/
def lineItem? (number : Nat) (line : Bytes) : Option Item :=
  match Text.decode? line with
  | none => some (.error (.io .invalidUtf8))
  | some text =>
    if text.all Text.isBlank then none else some (parseLine (String.ofList text) number)

/-- What stands behind the last line. -/
def Ending.item? : Ending → Option Item
  | .finished => none
  | .failing failure => some (.error (.io failure))

/-- What comes of a line or of the end, and how many lines up to it are texts. -/
structure Verdict where
  item? : Option Item
  linesRead : Nat

def Verdict.isFault (verdict : Verdict) : Bool :=
  match verdict.item? with
  | some (.error _) => true
  | _ => false

/-- The verdicts of lines that follow others, of which there are `before`, and `read` of them are
texts. -/
def verdicts (ending : Ending) (before read : Nat) : List Bytes → List Verdict
  | [] => [⟨ending.item?, read⟩]
  | line :: rest =>
    let readHere := if (Text.decode? line).isSome then read + 1 else read
    ⟨lineItem? (before + 1) line, readHere⟩ :: verdicts ending (before + 1) readHere rest

def throughFirstFault : List Verdict → List Verdict
  | [] => []
  | verdict :: rest =>
    if verdict.isFault then [verdict] else verdict :: throughFirstFault rest

/-- The items of verdicts, each with its count of lines. -/
def answers (reached : List Verdict) : List (Item × Nat) :=
  reached.filterMap fun verdict => verdict.item?.map fun item => (item, verdict.linesRead)

/-- The count of lines at the last verdict. -/
def finalCount (reached : List Verdict) : Nat := (reached.getLast?.map Verdict.linesRead).getD 0

/-- The verdicts that the reader of a source gets to see. -/
def Source.reached (source : Source) : List Verdict :=
  throughFirstFault (verdicts source.ending 0 0 source.lines)

/-! ### Cutting into lines -/

theorem lines_of_no_feed {bytes : Bytes} (absent : lineFeed ∉ bytes) (ending : Ending) :
    Source.lines ⟨bytes, ending⟩ =
      match ending with
      | .finished => if bytes = [] then [] else [bytes]
      | .failing _ => [] := by
  cases ending <;> simp [Source.lines, List.splitOn_eq_singleton absent]

theorem lines_append_feed {line : Bytes} (absent : lineFeed ∉ line) (rest : Bytes)
    (ending : Ending) :
    Source.lines ⟨line ++ lineFeed :: rest, ending⟩ =
      (line ++ [lineFeed]) :: Source.lines ⟨rest, ending⟩ := by
  have cut := List.splitOn_append_cons_self_of_not_mem absent rest
  have more := List.splitOn_ne_nil lineFeed rest
  cases ending <;>
    simp [Source.lines, cut, List.dropLast_cons_of_ne_nil more, List.getLast_cons more]

theorem firstLine?_eq_none {bytes : Bytes} (none : firstLine? bytes = none) : lineFeed ∉ bytes := by
  unfold firstLine? at none
  split at none
  next passed =>
    intro member
    simpa using List.dropWhile_eq_nil_iff.mp passed _ member
  next => cases none

theorem lines_of_firstLine? {bytes line rest : Bytes}
    (first : firstLine? bytes = some (line, rest)) (ending : Ending) :
    Source.lines ⟨bytes, ending⟩ = line :: Source.lines ⟨rest, ending⟩ := by
  have parts := List.takeWhile_append_dropWhile (p := (· != lineFeed)) (l := bytes)
  unfold firstLine? at first
  split at first
  next => cases first
  next feed behind found =>
    cases first
    -- What stopped the first piece is a line feed, and there is none in the piece.
    have stopped := List.head?_dropWhile_not (· != lineFeed) bytes
    rw [found] at stopped
    obtain rfl : feed = lineFeed := by simpa using stopped
    have absent : lineFeed ∉ bytes.takeWhile (· != lineFeed) := by
      intro member
      simpa using List.mem_takeWhile_imp member
    have cut := lines_append_feed absent rest ending
    rw [found] at parts
    rwa [parts] at cut

/-- An attempt to read a line comes to the end, to the failure behind the last line, or to the first
line that is left. -/
theorem lines_of_readLine (unread : Bytes) (ending : Ending) :
    match readLine unread ending with
    | .nothing => Source.lines ⟨unread, ending⟩ = [] ∧ ending = .finished
    | .failed failure => Source.lines ⟨unread, ending⟩ = [] ∧ ending = .failing failure
    | .line line rest =>
      Source.lines ⟨unread, ending⟩ = line :: Source.lines ⟨rest, ending⟩ := by
  unfold readLine
  -- Without a line feed, what is left is a last line or is lost, as the source ends.
  cases first : firstLine? unread with
  | some parts => exact lines_of_firstLine? first ending
  | none =>
    have left := lines_of_no_feed (firstLine?_eq_none first) ending
    cases ending with
    | failing failure => exact ⟨left, rfl⟩
    | finished =>
      cases unread with
      | nil => exact ⟨left, rfl⟩
      | cons byte more => exact left

/-! ### One call -/

@[simp] theorem answers_nothing (read : Nat) (rest : List Verdict) :
    answers (⟨none, read⟩ :: rest) = answers rest := rfl

@[simp] theorem answers_item (item : Item) (read : Nat) (rest : List Verdict) :
    answers (⟨some item, read⟩ :: rest) = (item, read) :: answers rest := rfl

@[simp] theorem answers_nil : answers [] = [] := rfl

@[simp] theorem finalCount_singleton (verdict : Verdict) :
    finalCount [verdict] = verdict.linesRead := rfl

theorem finalCount_cons {rest : List Verdict} (some : rest ≠ []) (verdict : Verdict) :
    finalCount (verdict :: rest) = finalCount rest := by
  rw [finalCount, List.getLast?_cons_of_ne_nil some, finalCount]

theorem throughFirstFault_ne_nil {all : List Verdict} (some : all ≠ []) :
    throughFirstFault all ≠ [] := by
  cases all with
  | nil => exact absurd rfl some
  | cons verdict rest =>
    unfold throughFirstFault
    split <;> simp

theorem verdicts_ne_nil {ending : Ending} {before read : Nat} (lines : List Bytes) :
    verdicts ending before read lines ≠ [] := by
  cases lines <;> simp [verdicts]

namespace Reader

/-- The verdicts that a reader has still to see. One that is done sees no more of them. -/
def reached (reader : Reader) : List Verdict :=
  if reader.done then [⟨none, reader.linesRead⟩]
  else
    throughFirstFault (verdicts reader.ending reader.linesRead reader.linesRead
      (Source.lines ⟨reader.unread, reader.ending⟩))

section Reached

variable {reader : Reader}

theorem reached_ne_nil : reader.reached ≠ [] := by
  unfold reached
  split
  · simp
  · exact throughFirstFault_ne_nil (verdicts_ne_nil _)

theorem reached_of_done (done : reader.done = true) :
    reader.reached = [⟨none, reader.linesRead⟩] :=
  if_pos done

variable (working : ¬ reader.done = true)

include working

theorem reached_of_nothing (read : readLine reader.unread reader.ending = .nothing) :
    reader.reached = [⟨none, reader.linesRead⟩] := by
  have cut := lines_of_readLine reader.unread reader.ending
  rw [read] at cut
  rw [reached, if_neg working, cut.1, cut.2]
  rfl

theorem reached_of_failed {failure : IoFailure}
    (read : readLine reader.unread reader.ending = .failed failure) :
    reader.reached = [⟨some (.error (.io failure)), reader.linesRead⟩] := by
  have cut := lines_of_readLine reader.unread reader.ending
  rw [read] at cut
  rw [reached, if_neg working, cut.1, cut.2]
  rfl

theorem reached_of_line {bytes rest : Bytes}
    (read : readLine reader.unread reader.ending = .line bytes rest) :
    reader.reached = throughFirstFault
      (verdicts reader.ending reader.linesRead reader.linesRead
        (bytes :: Source.lines ⟨rest, reader.ending⟩)) := by
  have cut := lines_of_readLine reader.unread reader.ending
  rw [read] at cut
  rw [reached, if_neg working, cut]

theorem reached_of_invalid {bytes rest : Bytes}
    (read : readLine reader.unread reader.ending = .line bytes rest)
    (invalid : Text.decode? bytes = none) :
    reader.reached = [⟨some (.error (.io .invalidUtf8)), reader.linesRead⟩] := by
  rw [reached_of_line working read]
  simp [verdicts, throughFirstFault, lineItem?, invalid, Verdict.isFault]

theorem reached_of_text {bytes rest : Bytes} {line : List Char}
    (read : readLine reader.unread reader.ending = .line bytes rest)
    (decoded : Text.decode? bytes = some line) :
    reader.reached =
      if line.all Text.isBlank then
        ⟨none, reader.linesRead + 1⟩ ::
          reached { reader with unread := rest, linesRead := reader.linesRead + 1 }
      else
        match parseLine (String.ofList line) (reader.linesRead + 1) with
        | .error fault => [⟨some (.error fault), reader.linesRead + 1⟩]
        | .ok entry =>
          ⟨some (.ok entry), reader.linesRead + 1⟩ ::
            reached { reader with unread := rest, linesRead := reader.linesRead + 1 } := by
  have left : reached { reader with unread := rest, linesRead := reader.linesRead + 1 } =
      throughFirstFault (verdicts reader.ending (reader.linesRead + 1) (reader.linesRead + 1)
        (Source.lines ⟨rest, reader.ending⟩)) := if_neg working
  rw [reached_of_line working read, left]
  by_cases blank : line.all Text.isBlank = true
  · simp [verdicts, throughFirstFault, lineItem?, decoded, blank, Verdict.isFault]
  · cases parsed : parseLine (String.ofList line) (reader.linesRead + 1) with
    | error fault =>
      simp [verdicts, throughFirstFault, lineItem?, decoded, blank, parsed, Verdict.isFault]
    | ok entry =>
      simp [verdicts, throughFirstFault, lineItem?, decoded, blank, parsed, Verdict.isFault]

end Reached

/-- One call takes one item off those that are left. -/
structure TakesItem (reader : Reader) (item? : Option Item) (after : Reader) : Prop where
  item : item? = (answers reader.reached).head?.map Prod.fst
  count : after.linesRead = ((answers reader.reached).head?.map Prod.snd).getD
    (finalCount reader.reached)
  left : answers after.reached = (answers reader.reached).tail
  final : finalCount after.reached = finalCount reader.reached
  done : after.done = true ↔ ∀ entry, item? ≠ some (.ok entry)

theorem next_takesItem (reader : Reader) : TakesItem reader reader.next.1 reader.next.2 := by
  fun_induction next reader with
  | case1 reader done => constructor <;> simp [reached_of_done done, done]
  | case2 reader working read =>
    constructor <;> simp [reached_of_nothing working read, reached_of_done]
  | case3 reader working failure read =>
    constructor <;> simp [reached_of_failed working read, reached_of_done]
  | case4 reader working bytes rest read invalid =>
    constructor <;> simp [reached_of_invalid working read invalid, reached_of_done]
  | case5 reader working bytes rest read line decoded after blank ih =>
    -- A blank line has no item, so the call goes on as one of the reader behind it.
    have reached : reader.reached = ⟨none, after.linesRead⟩ :: after.reached := by
      rw [reached_of_text working read decoded, if_pos blank]
    have left : answers reader.reached = answers after.reached := by
      rw [reached, answers_nothing]
    have final : finalCount reader.reached = finalCount after.reached := by
      rw [reached, finalCount_cons reached_ne_nil]
    constructor
    · rw [left]; exact ih.item
    · rw [left, final]; exact ih.count
    · rw [left]; exact ih.left
    · rw [final]; exact ih.final
    · exact ih.done
  | case6 reader working bytes rest read line decoded after blank entry parsed =>
    have reached : reader.reached = ⟨some (.ok entry), after.linesRead⟩ :: after.reached := by
      rw [reached_of_text working read decoded, if_neg blank, parsed]
    constructor
    · rw [reached]; rfl
    · rw [reached]; rfl
    · rw [reached]; rfl
    · rw [reached, finalCount_cons after.reached_ne_nil]
    · simp [after, working]
  | case7 reader working bytes rest read line decoded after blank fault parsed =>
    have reached : reader.reached = [⟨some (.error fault), after.linesRead⟩] := by
      rw [reached_of_text working read decoded, if_neg blank, parsed]
    constructor <;> simp [reached, reached_of_done]

theorem next_of_done {reader : Reader} (done : reader.done = true) :
    reader.next = (none, reader) := by
  rw [next, if_pos done]

/-- The number in a fault is the count of lines behind the call. -/
theorem number_eq_linesRead {reader : Reader} {number : Nat} {reason : String}
    (faulty : reader.next.1 = some (.error (.badLine number reason))) :
    number = reader.next.2.linesRead := by
  fun_induction next reader with
  | case1 | case2 => cases faulty
  | case3 | case4 => cases faulty
  | case5 reader working bytes rest read line decoded after blank ih => exact ih faulty
  | case6 => cases faulty
  | case7 reader working bytes rest read line decoded after blank fault parsed =>
    cases faulty
    unfold parseLine at parsed
    cases fields : readFields (String.ofList line).toList with
    | error _ =>
      rw [fields] at parsed
      cases parsed
      rfl
    | ok _ =>
      rw [fields] at parsed
      cases parsed

/-! ### Many calls -/

/-- The reader after a number of calls. -/
def after (reader : Reader) : Nat → Reader
  | 0 => reader
  | calls + 1 => reader.next.2.after calls

theorem after_succ (reader : Reader) (calls : Nat) :
    reader.after (calls + 1) = (reader.after calls).next.2 := by
  induction calls generalizing reader with
  | zero => rfl
  | succ calls ih => exact ih reader.next.2

theorem reached_after (reader : Reader) (calls : Nat) :
    answers (reader.after calls).reached = (answers reader.reached).drop calls ∧
      finalCount (reader.after calls).reached = finalCount reader.reached := by
  induction calls with
  | zero => exact ⟨rfl, rfl⟩
  | succ calls ih =>
    have taken := (reader.after calls).next_takesItem
    rw [after_succ, taken.left, taken.final, ih.1, ih.2, List.tail_drop]
    exact ⟨rfl, rfl⟩

/-- The item of a call is the one at its position. -/
theorem item_after (reader : Reader) (calls : Nat) :
    (reader.after calls).next.1 = (answers reader.reached)[calls]?.map Prod.fst := by
  have taken := (reader.after calls).next_takesItem
  rw [taken.item, (reader.reached_after calls).1, List.head?_drop]

/-- Behind the last item the count is the one of the last verdict. -/
theorem linesRead_after (reader : Reader) (calls : Nat) :
    (reader.after (calls + 1)).linesRead =
      ((answers reader.reached)[calls]?.map Prod.snd).getD (finalCount reader.reached) := by
  have taken := (reader.after calls).next_takesItem
  obtain ⟨left, final⟩ := reader.reached_after calls
  rw [after_succ, taken.count, left, final, List.head?_drop]

theorem after_of_done {reader : Reader} (done : reader.done = true) (calls : Nat) :
    reader.after calls = reader := by
  induction calls with
  | zero => rfl
  | succ calls ih => rw [after_succ, ih, next_of_done done]

theorem after_add (reader : Reader) (first second : Nat) :
    reader.after (first + second) = (reader.after first).after second := by
  induction second with
  | zero => rfl
  | succ second ih => rw [← Nat.add_assoc, after_succ, ih, after_succ]

theorem drain_of_none {reader after : Reader} (step : reader.next = (none, after)) :
    reader.drain = ([], after) := by
  rw [drain, drainOnto]
  split
  next left other =>
    rw [step] at other
    cases other
    rfl
  next item left other =>
    rw [step] at other
    cases other

theorem drain_of_some {reader after : Reader} {item : Item}
    (step : reader.next = (some item, after)) :
    reader.drain = (item :: after.drain.1, after.drain.2) := by
  rw [drain, drainOnto]
  split
  next left other =>
    rw [step] at other
    cases other
  next item left other =>
    rw [step] at other
    cases other
    rw [drainOnto_eq]
    rfl

/-- Draining gives the items that are left, and leaves the count of the last verdict. -/
theorem drain_eq (reader : Reader) :
    reader.drain.1 = (answers reader.reached).map Prod.fst ∧
      reader.drain.2.linesRead = finalCount reader.reached ∧ reader.drain.2.done = true := by
  -- By induction on what is left to read, which every item makes less.
  induction bound : reader.remaining using Nat.strongRecOn generalizing reader with
  | ind size ih =>
    obtain ⟨item, count, left, final, done⟩ := reader.next_takesItem
    cases step : reader.next with
    | mk item? after =>
      rw [step] at item count left final done
      cases item? with
      | none =>
        have nothing : answers reader.reached = [] := by simpa using item.symm
        rw [nothing] at count
        rw [drain_of_none step, nothing]
        exact ⟨rfl, count, done.mpr (by simp)⟩
      | some first =>
        subst bound
        obtain ⟨items, total, stopped⟩ := ih _ (remaining_lt_of_next step) after rfl
        rw [drain_of_some step]
        refine ⟨?_, total.trans final, stopped⟩
        rw [items, left]
        cases all : answers reader.reached with
        | nil => simp [all] at item
        | cons answer rest =>
          have same : first = answer.1 := by simpa [all] using item
          rw [same]
          rfl

end Reader

/-! ### The records of items -/

/-- The records of items, or the first fault. -/
def records (items : List Item) : Except Fault (List Entry) := items.mapM id

@[simp] theorem records_nil : records [] = .ok [] := rfl

@[simp] theorem records_error (fault : Fault) (rest : List Item) :
    records (.error fault :: rest) = .error fault := by
  rw [records, List.mapM_cons]
  rfl

@[simp] theorem records_ok (entry : Entry) (rest : List Item) :
    records (.ok entry :: rest) = (records rest).map (entry :: ·) := by
  rw [records, List.mapM_cons, ← records]
  cases records rest <;> rfl

theorem records_map_ok (entries : List Entry) : records (entries.map .ok) = .ok entries := by
  induction entries with
  | nil => rfl
  | cons entry rest ih =>
    rw [List.map_cons, records_ok, ih]
    rfl

theorem length_records {items : List Item} {entries : List Entry}
    (taken : records items = .ok entries) : entries.length = items.length := by
  induction items generalizing entries with
  | nil =>
    cases taken
    rfl
  | cons item rest ih =>
    cases item with
    | error fault =>
      rw [records_error] at taken
      cases taken
    | ok entry =>
      rw [records_ok] at taken
      cases found : records rest with
      | error fault => simp [found, Except.map] at taken
      | ok others =>
        obtain rfl : entry :: others = entries := by simpa [found, Except.map] using taken
        rw [List.length_cons, List.length_cons, ih found]

/-! ### The reader of a source -/

/-- The items of a source by its lines. -/
def Source.judged (source : Source) : List Item := (answers source.reached).map Prod.fst

/-- The records of a source by its lines, or the first fault. -/
def Source.recorded (source : Source) : Except Fault (List Entry) := records source.judged

theorem Source.items_eq_judged (source : Source) : source.items = source.judged :=
  source.reader.drain_eq.1

/-- The reader of a source against its lines. -/
structure ReadsLines (source : Source) : Prop where
  item : ∀ calls, (source.reader.after calls).next.1 =
    (answers source.reached)[calls]?.map Prod.fst
  count : ∀ calls, (source.reader.after (calls + 1)).linesRead =
    ((answers source.reached)[calls]?.map Prod.snd).getD (finalCount source.reached)
  number : ∀ calls number reason,
    (source.reader.after calls).next.1 = some (.error (.badLine number reason)) →
      number = (source.reader.after (calls + 1)).linesRead
  /-- Behind a fault or the end nothing comes, and the reader stays as it is. -/
  stays : ∀ calls, (∀ entry, (source.reader.after calls).next.1 ≠ some (.ok entry)) →
    ∀ more, (source.reader.after (calls + 1 + more)).next =
      (none, source.reader.after (calls + 1))
  items : source.items = (answers source.reached).map Prod.fst

/-- Call by call a reader gives the items of the lines up to the first fault, whatever the bytes are
and however they end. -/
theorem reader_readsLines (source : Source) : ReadsLines source where
  item := source.reader.item_after
  count := source.reader.linesRead_after
  number calls number reason faulty := by
    rw [Reader.after_succ]
    exact Reader.number_eq_linesRead faulty
  stays calls ended more := by
    have done : (source.reader.after (calls + 1)).done = true := by
      rw [Reader.after_succ]
      exact (source.reader.after calls).next_takesItem.done.mpr ended
    rw [Reader.after_add, Reader.after_of_done done, Reader.next_of_done done]
  items := source.items_eq_judged

end KeyPartitions.Records
