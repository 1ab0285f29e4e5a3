import KeyPartitions.Records.Line
import KeyPartitions.Text.Utf8

/-!
# Reading a data file

A source is its bytes and what stands behind them: the end, or a failure of every further reading.
A reader takes one line at a time, up to and with its line feed, skips blank lines, and is done
after the first fault. Lines that are not UTF-8 or were cut off by a failure are not counted.
-/
namespace KeyPartitions.Records

open Text (Bytes)

inductive Ending
  | finished
  | failing (failure : IoFailure)
  deriving DecidableEq, Repr

structure Source where
  bytes : Bytes
  ending : Ending := .finished

structure Reader where
  unread : Bytes
  ending : Ending
  linesRead : Nat := 0
  done : Bool := false

def Source.reader (source : Source) : Reader := { unread := source.bytes, ending := source.ending }

def lineFeed : UInt8 := 0x0a

/-- The bytes up to and with the first line feed, and those behind it. -/
def firstLine? (bytes : Bytes) : Option (Bytes × Bytes) :=
  match bytes.dropWhile (· != lineFeed) with
  | [] => none
  | feed :: rest => some (bytes.takeWhile (· != lineFeed) ++ [feed], rest)

theorem length_lt_of_firstLine? {bytes line rest : Bytes}
    (first : firstLine? bytes = some (line, rest)) : rest.length < bytes.length := by
  have shorter := (List.dropWhile_suffix (l := bytes) (· != lineFeed)).length_le
  unfold firstLine? at first
  split at first
  next => cases first
  next feed after behind =>
    cases first
    rw [behind] at shorter
    exact shorter

/-- What one attempt to read a line gives. -/
inductive LineRead
  | nothing
  | failed (failure : IoFailure)
  | line (bytes rest : Bytes)

/-- A failure takes the place of a line without a line feed; the end of the bytes closes one. -/
def readLine (unread : Bytes) (ending : Ending) : LineRead :=
  match firstLine? unread with
  | some (line, rest) => .line line rest
  | none =>
    match ending with
    | .failing failure => .failed failure
    | .finished => if unread.isEmpty then .nothing else .line unread []

theorem length_lt_of_readLine {unread line rest : Bytes} {ending : Ending}
    (read : readLine unread ending = .line line rest) : rest.length < unread.length := by
  unfold readLine at read
  split at read
  next first =>
    cases read
    exact length_lt_of_firstLine? first
  next =>
    split at read
    next => cases read
    next =>
      split at read
      next => cases read
      next nonempty =>
        cases read
        cases unread <;> simp_all

abbrev Item := Except Fault Entry

namespace Reader

/-- The next record or fault, and the reader behind it. -/
def next (reader : Reader) : Option Item × Reader :=
  if reader.done then (none, reader)
  else
    match _read : readLine reader.unread reader.ending with
    | .nothing => (none, { reader with done := true })
    | .failed failure =>
      (some (.error (.io failure)), { reader with unread := [], done := true })
    | .line bytes rest =>
      match Text.decode? bytes with
      -- The line is gone but not counted.
      | none => (some (.error (.io .invalidUtf8)), { reader with unread := rest, done := true })
      | some line =>
        let after := { reader with unread := rest, linesRead := reader.linesRead + 1 }
        if line.all Text.isBlank then after.next
        else
          match parseLine (String.ofList line) after.linesRead with
          | .ok entry => (some (.ok entry), after)
          | .error fault => (some (.error fault), { after with done := true })
termination_by reader.unread.length
decreasing_by exact length_lt_of_readLine ‹_›

/-- The unread bytes, and one more step as long as the reader is not done. -/
def remaining (reader : Reader) : Nat := reader.unread.length + if reader.done then 0 else 1

theorem remaining_lt_of_next {reader after : Reader} {item : Item}
    (step : reader.next = (some item, after)) : after.remaining < reader.remaining := by
  fun_induction next reader with
  | case1 => cases step
  | case2 => cases step
  | case3 reader working failure read =>
    cases step
    simp [remaining, working]
  | case4 reader working bytes rest read =>
    cases step
    have shorter := length_lt_of_readLine read
    simp [remaining, working]
    omega
  | case5 reader working bytes rest read line decoded next blank ih =>
    have shorter := length_lt_of_readLine read
    have bound := ih step
    simp [remaining, working, next] at bound ⊢
    omega
  | case6 reader working bytes rest read line decoded next blank entry =>
    have shorter := length_lt_of_readLine read
    obtain ⟨-, rfl⟩ := Prod.mk.inj step
    simp [remaining, working, next]
    omega
  | case7 reader working bytes rest read line decoded next blank fault =>
    have shorter := length_lt_of_readLine read
    obtain ⟨-, rfl⟩ := Prod.mk.inj step
    simp [remaining, working, next]
    omega

/-- Reads on to the end; `items` are those read before, the latest first. -/
def drainOnto (items : List Item) (reader : Reader) : List Item × Reader :=
  match _step : reader.next with
  | (none, after) => (items.reverse, after)
  | (some item, after) => drainOnto (item :: items) after
termination_by reader.remaining
decreasing_by exact remaining_lt_of_next ‹_›

/-- All items of a reader, and the reader behind the last one. -/
def drain (reader : Reader) : List Item × Reader := drainOnto [] reader

theorem drainOnto_eq (items : List Item) (reader : Reader) :
    drainOnto items reader = (items.reverse ++ reader.drain.1, reader.drain.2) := by
  have general : ∀ (more : List Item), drainOnto (more ++ items) reader =
      (items.reverse ++ (drainOnto more reader).1, (drainOnto more reader).2) := by
    intro more
    induction bound : reader.remaining using Nat.strongRecOn generalizing reader more with
    | ind size ih =>
      rw [drainOnto, drainOnto]
      split
      next after step => simp
      next item after step =>
        subst bound
        exact ih _ (remaining_lt_of_next step) _ (item :: more) rfl
  simpa [drain] using general []

end Reader

/-- All items of a source. -/
def Source.items (source : Source) : List Item := source.reader.drain.1

end KeyPartitions.Records
