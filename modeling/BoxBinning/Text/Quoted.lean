import BoxBinning.Text.Unprintable

/-!
# Quoted text

`quote` puts a text between double quotes. A quote, a backslash and the four common control
characters are written as a backslash and one sign, every other unprintable character by its code
point in hexadecimal, and all else stands as it is. `quoteList` writes several texts between
brackets.
-/

namespace BoxBinning.Text

/-- The sign written after a backslash for a character that has one. -/
def escapeSign? : Char → Option Char
  | '"' => some '"'
  | '\\' => some '\\'
  | '\n' => some 'n'
  | '\r' => some 'r'
  | '\t' => some 't'
  | '\x00' => some '0'
  | _ => none

/-- A character by its code point, in lowercase hexadecimal without leading zeros. -/
def codePoint (c : Char) : String :=
  "\\u\x7b" ++ String.ofList (Nat.toDigits 16 c.toNat) ++ "\x7d"

/-- A character as it stands inside a quoted text. -/
def escape (c : Char) : String :=
  match escapeSign? c with
  | some sign => String.ofList ['\\', sign]
  | none => if isUnprintable c then codePoint c else c.toString

/-- A text between double quotes. -/
def quote (s : String) : String :=
  "\"" ++ String.join (s.toList.map escape) ++ "\""

/-- Several quoted texts between brackets. -/
def quoteList (ss : List String) : String :=
  "[" ++ String.intercalate ", " (ss.map quote) ++ "]"

end BoxBinning.Text
