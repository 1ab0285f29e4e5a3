import KeyPartitions.Text.Printable

/-!
# Quoted text

A text between double quotes, as messages show it. Tab, carriage return, line feed, NUL, the double
quote and the backslash have short escapes. Any other character that cannot be shown is written by
its code in lower-case hexadecimal, between braces and without leading zeros.
-/
namespace KeyPartitions.Text

/-- A code point between braces; the braces are U+007B and U+007D. -/
def codeEscape (c : Char) : List Char :=
  ['\\', 'u', '\x7b'] ++ Nat.toDigits 16 c.toNat ++ ['\x7d']

def escape (c : Char) : List Char :=
  match c with
  | '\t' => ['\\', 't']
  | '\r' => ['\\', 'r']
  | '\n' => ['\\', 'n']
  | '\x00' => ['\\', '0']
  | '"' => ['\\', '"']
  | '\\' => ['\\', '\\']
  | _ => if isPrintable c then [c] else codeEscape c

def quoted (text : String) : String :=
  String.ofList ('"' :: text.toList.flatMap escape ++ ['"'])

end KeyPartitions.Text
