import Pegwork.Cursor

/-!
# Cursors over text

A text cursor steps one character at a time and keeps line, column and byte offset up to date. Two
text cursors are the same when they stand at the same byte of the same text.

The cursor carries the characters from its place to the end of the whole text, and the number
`source` of the text it belongs to: texts with equal characters but different numbers are different
inputs.
-/

namespace Pegwork

/-- A place in a text. -/
structure TextCursor where
  /-- The text this cursor belongs to. -/
  source : Nat
  /-- Line, column and byte offset. -/
  position : Position
  /-- The characters from here to the end of the text. -/
  rest : List Char
  deriving DecidableEq, Repr

namespace TextCursor

/-- Bytes from the start of the text. -/
def offset (c : TextCursor) : Nat := c.position.offset

/-- The start of a text. -/
def beginning (source : Nat) (text : List Char) : TextCursor := ⟨source, .start, text⟩

/-- The end of a text. -/
def ending (source : Nat) (text : List Char) : Except Halt TextCursor := do
  let position ← Position.start.afterAll text
  return ⟨source, position, []⟩

/-- The characters that fill exactly the first `n` bytes of `text`, if they end on a character
boundary. -/
def takeBytes : Nat → List Char → Option (List Char)
  | 0, _ => some []
  | _ + 1, [] => none
  | n + 1, c :: text =>
    if c.utf8Size ≤ n + 1 then (takeBytes (n + 1 - c.utf8Size) text).map (c :: ·) else none

/-- The characters between two cursors; none if they are reversed or split a character. -/
def slice (c limit : TextCursor) : List Char :=
  if c.offset ≤ limit.offset then (takeBytes (limit.offset - c.offset) c.rest).getD [] else []

/-- The character under the cursor, looking no further than `limit`. -/
def peek (c limit : TextCursor) : Option Char :=
  if c.offset < limit.offset then c.rest.head? else none

/-- One character forward. At the end of the whole text the cursor stays where it is. -/
def advance (c : TextCursor) : Except Halt TextCursor :=
  match c.rest with
  | [] => .ok c
  | ch :: rest => do
    let position ← c.position.after ch
    return { c with position, rest }

/-- The number of characters up to `limit`. -/
def distance (c limit : TextCursor) : Nat := (c.slice limit).length

/-- Same byte of the same text. -/
def same (c d : TextCursor) : Bool := c.offset == d.offset && c.source == d.source

/-- Counts no further than `n` characters. -/
def hasAtLeast (c : TextCursor) (n : Nat) (limit : TextCursor) : Bool :=
  ((c.slice limit).take n).length == n

/-- The next character and the cursor past it, without looking at the text a second time. -/
def next (c limit : TextCursor) : Except Halt (Option (Char × TextCursor)) :=
  match c.peek limit with
  | none => .ok none
  | some ch => do
    let position ← c.position.after ch
    return some (ch, { c with position, rest := c.rest.tail })

/-- The cursor as it is written in diagnostics. -/
def describe (c : TextCursor) : String :=
  Text.record "TextCursor" [("position", c.position.describe)]

instance : Cursor TextCursor Char where
  peek
  advance
  distance
  same
  hasAtLeast
  next
  slice
  position c := .ok c.position
  describe

end TextCursor

end Pegwork
