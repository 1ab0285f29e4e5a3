/-!
# Switches on a command line

A switch has a long name behind two hyphens and perhaps a letter behind one. Letters may share a
hyphen. A value follows its switch as the next argument or, attached, in the same one, behind an
equals sign that a letter can do without. Behind a lone pair of hyphens no argument is a switch. The
lone hyphen is not one either.
-/
namespace KeyPartitions.CommandLine

inductive Arity
  | flag
  | countedFlag
  | value
  /-- May be repeated, and its value may start with a hyphen. -/
  | values
  deriving DecidableEq, Repr

structure Switch where
  name : String
  letter : Option Char := none
  arity : Arity
  deriving DecidableEq, Repr

def Switch.takesValue (switch : Switch) : Bool :=
  switch.arity == .value || switch.arity == .values

/-- A switch with its value, which flags leave empty, or an argument of its own. -/
inductive Token
  | switch (switch : Switch) (value : String)
  | plain (argument : String)
  deriving DecidableEq, Repr

inductive Shape
  | separator
  | long (name : List Char) (attached : Option (List Char))
  | letters (letters : List Char)
  | plain
  deriving DecidableEq, Repr

/-- The parts before and after the first equals sign. -/
def splitEquals (text : List Char) : List Char × Option (List Char) :=
  match text.dropWhile (· != '=') with
  | [] => (text, none)
  | _ :: value => (text.takeWhile (· != '='), some value)

def shape (argument : String) : Shape :=
  match argument.toList with
  | ['-', '-'] => .separator
  | '-' :: '-' :: text => let (name, attached) := splitEquals text; .long name attached
  | '-' :: letter :: rest => .letters (letter :: rest)
  | _ => .plain

/-- Whether the next argument can be the value of a switch. -/
def Switch.admits (switch : Switch) (argument : String) : Bool :=
  switch.arity == .values || shape argument == .plain

/-- Letters behind one hyphen: their tokens, and the switch whose value is still to come. -/
def letterTokens (switches : List Switch) : List Char → Option (List Token × Option Switch)
  | [] => some ([], none)
  | letter :: rest => do
    let switch ← switches.find? (·.letter == some letter)
    if switch.takesValue then
      match rest with
      | [] => some ([], some switch)
      | '=' :: value => some ([.switch switch (String.ofList value)], none)
      | value => some ([.switch switch (String.ofList value)], none)
    else
      let (tokens, pending) ← letterTokens switches rest
      some (.switch switch "" :: tokens, pending)

/-- One argument: its tokens, and the switch whose value is still to come. -/
def argumentTokens (switches : List Switch) (argument : String) :
    Option (List Token × Option Switch) :=
  match shape argument with
  | .separator => none
  | .plain => some ([.plain argument], none)
  | .letters letters => letterTokens switches letters
  | .long name attached => do
    let switch ← switches.find? (·.name == String.ofList name)
    match switch.takesValue, attached with
    | true, some value => some ([.switch switch (String.ofList value)], none)
    | true, none => some ([], some switch)
    | false, none => some ([.switch switch ""], none)
    | false, some _ => none

/-- The tokens of a command line; `pending` is the switch that takes the next argument. -/
def tokens (switches : List Switch) (pending : Option Switch) : List String → Option (List Token)
  | [] => if pending.isNone then some [] else none
  | argument :: rest =>
    match pending with
    | some switch =>
      if switch.admits argument then
        (tokens switches none rest).map (.switch switch argument :: ·)
      else none
    | none =>
      if shape argument = .separator then some (rest.map .plain)
      else do
        let (first, pending) ← argumentTokens switches argument
        let others ← tokens switches pending rest
        some (first ++ others)

namespace Token

def isSwitch (switch : Switch) : Token → Bool
  | .switch other _ => other == switch
  | .plain _ => false

def value? (switch : Switch) : Token → Option String
  | .switch other value => if other = switch then some value else none
  | .plain _ => none

def plain? : Token → Option String
  | .plain argument => some argument
  | .switch .. => none

end Token

/-- Flags and single values come at most once. -/
def respectsArity (tokens : List Token) (switch : Switch) : Bool :=
  switch.arity == .countedFlag || switch.arity == .values ||
    tokens.countP (Token.isSwitch switch) ≤ 1

/-- The tokens of a command line on which no switch comes too often. -/
def parse (switches : List Switch) (arguments : List String) : Option (List Token) := do
  let found ← tokens switches none arguments
  if switches.all (respectsArity found) then some found else none

end KeyPartitions.CommandLine
