import Concordance.Text.Glyphless

/-!
# Quoted texts

Messages show keys and fields between double quotes.  A quote and a backslash
are escaped, the four controls with a short name are written by that name, and
every other character without a glyph is written by its number in hexadecimal.
-/

namespace Concordance

namespace Quoted

/-- The lowercase hexadecimal digits of a number, without leading zeros. -/
def hexNumber (number : Nat) : List Char := Nat.toDigits 16 number

/-- What stands for one character between the quotes. -/
def escape (char : Char) : List Char :=
  match char with
  | '"' => ['\\', '"']
  | '\\' => ['\\', '\\']
  | '\n' => ['\\', 'n']
  | '\r' => ['\\', 'r']
  | '\t' => ['\\', 't']
  | '\x00' => ['\\', '0']
  | _ =>
    if isGlyphless char then
      ['\\', 'u', '\x7b'] ++ hexNumber char.toNat ++ ['\x7d']
    else [char]

end Quoted

/-- A text between double quotes, with the characters that need it escaped. -/
def quoted (text : String) : String :=
  "\"" ++ String.ofList (text.toList.flatMap Quoted.escape) ++ "\""

end Concordance
