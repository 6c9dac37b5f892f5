import Pegwork.Text.Visible

/-!
# Quoted text

The forms in which values appear in diagnostics: quoted characters and strings, and values with
named or listed parts.

Inside quotes a backslash, the quote itself and the control characters NUL, tab, newline and
carriage return have two-character escapes. Every other character that is not visible is written
as its code point in braces.
-/

namespace Pegwork.Text

/-- Lower case hexadecimal digits of `n`, without leading zeros. -/
def hex (n : Nat) : String := String.ofList (Nat.toDigits 16 n)

/-- Two lower case hexadecimal digits of a byte. -/
def hexByte (b : UInt8) : String :=
  let digits := Nat.toDigits 16 b.toNat
  String.ofList (List.replicate (2 - digits.length) '0' ++ digits)

/-- The spelling of one character inside quotes of the kind `quote`. -/
def escape (quote c : Char) : String :=
  if c = '\x00' then "\\0"
  else if c = '\t' then "\\t"
  else if c = '\n' then "\\n"
  else if c = '\r' then "\\r"
  else if c = '\\' || c = quote then "\\" ++ c.toString
  else if isVisible c then c.toString
  else "\\u\x7b" ++ hex c.toNat ++ "\x7d"

/-- A string between double quotes. -/
def quote (s : String) : String :=
  "\"" ++ String.join (s.toList.map (escape '"')) ++ "\""

/-- A character between single quotes. -/
def quoteChar (c : Char) : String := "'" ++ escape '\'' c ++ "'"

/-- A value with named parts: `Name { field: text, field: text }`. -/
def record (name : String) (fields : List (String × String)) : String :=
  name ++ " \x7b " ++ ", ".intercalate (fields.map fun f => f.1 ++ ": " ++ f.2) ++ " \x7d"

/-- A value with one unnamed part: `Name(text)`. -/
def wrapped (name text : String) : String := name ++ "(" ++ text ++ ")"

/-- A list of values: `[text, text]`. -/
def listed (texts : List String) : String := "[" ++ ", ".intercalate texts ++ "]"

/-- The text of a truth value. -/
def truth (b : Bool) : String := if b then "true" else "false"

end Pegwork.Text
