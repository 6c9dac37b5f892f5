import Pegwork.Text.Alphabetic
import Pegwork.Text.Blank
import Pegwork.Text.Numeric
import Pegwork.Text.Quoted

/-!
# Input elements

What a rule may ask of the elements it reads. Characters have the Unicode classes and compare with
the characters of a literal; bytes have the ASCII classes and can be part of a fixed-width value.
-/

namespace Pegwork

/-- The four character classes of an element type. -/
class Classify (α : Type) where
  /-- Letters. -/
  isAlphabetic : α → Bool
  /-- Letters and numbers. -/
  isAlphanumeric : α → Bool
  /-- The ten ASCII digits. -/
  isDigit : α → Bool
  /-- Blanks. -/
  isSpace : α → Bool

/-- An element type that grammars can be written over. -/
class Element (α : Type) extends Classify α where
  /-- Whether an element stands for a given character of a literal. -/
  isChar : α → Char → Bool
  /-- The byte an element is, if its type is a type of bytes. -/
  byte? : α → Option UInt8
  /-- The element as it is written in diagnostics. -/
  describe : α → String

instance : Classify Char where
  isAlphabetic := Text.isAlphabetic
  isAlphanumeric c := Text.isAlphabetic c || Text.isNumeric c
  isDigit c := '0' ≤ c && c ≤ '9'
  isSpace := Text.isBlank

instance : Classify UInt8 where
  isAlphabetic b := (0x41 ≤ b && b ≤ 0x5A) || (0x61 ≤ b && b ≤ 0x7A)
  isAlphanumeric b :=
    (0x41 ≤ b && b ≤ 0x5A) || (0x61 ≤ b && b ≤ 0x7A) || (0x30 ≤ b && b ≤ 0x39)
  isDigit b := 0x30 ≤ b && b ≤ 0x39
  isSpace b := b == 0x20 || b == 0x09 || b == 0x0A || b == 0x0C || b == 0x0D

instance : Element Char where
  isChar c d := c == d
  byte? _ := none
  describe := Text.quoteChar

instance : Element UInt8 where
  isChar _ _ := false
  byte? b := some b
  describe b := toString b.toNat

end Pegwork
