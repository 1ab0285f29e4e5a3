/-!
# Outlines

The shape of a value for a reader: a word, a record with named fields, a map, or a word around one
value. An outline is written on one line or spread over lines, one part per line, indented by four
columns and closed by a comma.
-/
namespace KeyPartitions.Text

inductive Outline
  | word (text : String)
  | record (name : String) (fields : List (String × Outline))
  | map (entries : List (String × Outline))
  | around (name : String) (inner : Outline)

namespace Outline

/-- Braces are U+007B and U+007D. -/
def braces (inside : String) : String := "\x7b" ++ inside ++ "\x7d"

mutual

def compact : Outline → String
  | .word text => text
  | .record name fields =>
    name ++ " " ++ braces (" " ++ ", ".intercalate (compactParts fields) ++ " ")
  | .map entries => braces (", ".intercalate (compactParts entries))
  | .around name inner => name ++ "(" ++ inner.compact ++ ")"

def compactParts : List (String × Outline) → List String
  | [] => []
  | (name, part) :: rest => (name ++ ": " ++ part.compact) :: compactParts rest

end

def column (depth : Nat) : String := String.ofList (List.replicate (4 * depth) ' ')

mutual

/-- The first line is not indented; `depth` is the depth of the lines behind it. -/
def spread (depth : Nat) : Outline → String
  | .word text => text
  | .record name fields =>
    name ++ " " ++ braces ("\n" ++ spreadParts (depth + 1) fields ++ column depth)
  | .map [] => braces ""
  | .map entries => braces ("\n" ++ spreadParts (depth + 1) entries ++ column depth)
  | .around name inner =>
    name ++ "(\n" ++ column (depth + 1) ++ inner.spread (depth + 1) ++ ",\n" ++ column depth ++ ")"

def spreadParts (depth : Nat) : List (String × Outline) → String
  | [] => ""
  | (name, part) :: rest =>
    column depth ++ name ++ ": " ++ part.spread depth ++ ",\n" ++ spreadParts depth rest

end

def pretty (outline : Outline) : String := outline.spread 0

end Outline

end KeyPartitions.Text
