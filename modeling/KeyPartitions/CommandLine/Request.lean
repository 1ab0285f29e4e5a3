import KeyPartitions.Basic
import KeyPartitions.CommandLine.Switches
import KeyPartitions.Notice
import KeyPartitions.Text.Numeral

/-!
# Requests

What a command line asks for: to write a data file of made-up records, or to load one and look keys
up. Everything that is no request is refused as a whole.
-/
namespace KeyPartitions.CommandLine

inductive Command
  | generate (count : Nat) (partitions : Partition) (seed : Option UInt64) (output : String)
  | load (file : String) (queries : List Key)
  deriving DecidableEq, Repr

structure Request where
  quiet : Bool
  verbosity : Nat
  command : Command
  deriving DecidableEq, Repr

/-- Whether a notice of this level is shown. Quiet overrides every verbosity. -/
def Request.shows (request : Request) : Level → Bool
  | .error => true
  | .warning => !request.quiet
  | .information => !request.quiet && 1 ≤ request.verbosity
  | .detail => !request.quiet && 2 ≤ request.verbosity

def Switch.quiet : Switch := { name := "quiet", letter := 'q', arity := .flag }

def Switch.verbose : Switch := { name := "verbose", letter := 'v', arity := .countedFlag }

def Switch.count : Switch := { name := "count", letter := 'c', arity := .value }

def Switch.partitions : Switch := { name := "partitions", letter := 'p', arity := .value }

def Switch.seed : Switch := { name := "seed", arity := .value }

def Switch.query : Switch := { name := "query", arity := .values }

/-- The switches that stand before a command as well as behind it. -/
def common : List Switch := [.quiet, .verbose]

def numeralBetween (low high : Int) (text : String) : Option Int :=
  (Text.readNumeral low high text.toList).toOption

def count? (text : String) : Option Nat :=
  (numeralBetween 0 (UInt64.size - 1) text).map Int.toNat

def key? (text : String) : Option Key :=
  (numeralBetween Int64.minValue.toInt Int64.maxValue.toInt text).map Int64.ofInt

/-- Read as a signed number first, so that a zero may have a minus. -/
def partitions? (text : String) : Option Partition := do
  let value ← numeralBetween Int64.minValue.toInt Int64.maxValue.toInt text
  if 0 ≤ value ∧ value < UInt32.size then some (UInt32.ofNat value.toNat) else none

/-- The value of a switch that may be missing. -/
def optional {β : Type} (read : String → Option β) (tokens : List Token) (switch : Switch) :
    Option (Option β) :=
  match tokens.findSome? (Token.value? switch) with
  | none => some none
  | some text => (read text).map some

/-- The only argument that is no switch. It is a path and so not empty. -/
def path? (tokens : List Token) : Option String :=
  match tokens.filterMap Token.plain? with
  | [path] => if path.isEmpty then none else some path
  | _ => none

def generate? (tokens : List Token) : Option Command := do
  let wanted ← optional count? tokens .count
  let drawn ← optional partitions? tokens .partitions
  let start ← optional count? tokens .seed
  let output ← path? tokens
  some (.generate (wanted.getD 10000) (drawn.getD 4) (start.map Nat.toUInt64) output)

def load? (tokens : List Token) : Option Command := do
  let queries ← (tokens.filterMap (Token.value? .query)).mapM key?
  let file ← path? tokens
  some (.load file queries)

/-- Switches of a command and the reading of its tokens. -/
def command? (name : String) : Option (List Switch × (List Token → Option Command)) :=
  if name = "generate" then some (.count :: .partitions :: .seed :: common, generate?)
  else if name = "load" then some (.query :: common, load?)
  else none

/-- Switches before the command, its name, and what stands behind it. -/
def request? (arguments : List String) : Option Request := do
  -- No switch that stands before the command takes a value.
  let (before, rest) := arguments.span (shape · != .plain)
  if before.any (shape · == .separator) then none
  else
    let leading ← parse common before
    match rest with
    | [] => none
    | name :: behind =>
      let (switches, read) ← command? name
      let following ← parse switches behind
      let command ← read following
      let all := leading ++ following
      some
        { quiet := all.any (Token.isSwitch .quiet)
          verbosity := all.countP (Token.isSwitch .verbose)
          command }

end KeyPartitions.CommandLine
