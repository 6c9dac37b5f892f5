import Pegwork.Size
import Pegwork.Text.Quoted

/-!
# Positions

A position locates a cursor for a reader: a line and a column counted from one, and the byte offset
from the start of the input. Only the newline character starts a new line; columns count
characters and offsets count the bytes of their UTF-8 form.

Sequences without lines use the first line throughout, with the element index as the offset.
-/

namespace Pegwork

/-- A place in an input. -/
structure Position where
  /-- Line number, counted from one. -/
  line : Nat
  /-- Column number, counted from one in characters. -/
  column : Nat
  /-- Bytes from the start of the input. -/
  offset : Nat
  deriving DecidableEq, Repr

namespace Position

/-- The first position of an input. -/
def start : Position := ⟨1, 1, 0⟩

/-- The position just after the character `c` that stands at `p`. -/
def after (p : Position) (c : Char) : Except Halt Position :=
  if c = '\n' then do
    let line ← Size.add p.line 1
    let offset ← Size.add p.offset 1
    return ⟨line, 1, offset⟩
  else do
    let column ← Size.add p.column 1
    let offset ← Size.add p.offset c.utf8Size
    return ⟨p.line, column, offset⟩

/-- The position just after a run of characters that begins at `p`. -/
def afterAll (p : Position) (text : List Char) : Except Halt Position :=
  text.foldlM after p

/-- The position of the element at `index` in a sequence without lines. -/
def ofIndex (index : Nat) : Except Halt Position := do
  let column ← Size.add index 1
  return ⟨1, column, index⟩

/-- Line and column, as they are written in messages. -/
def text (p : Position) : String := s!"{p.line}:{p.column}"

/-- All three numbers, as they are written in diagnostics. -/
def describe (p : Position) : String :=
  Text.record "Position"
    [("line", toString p.line), ("column", toString p.column), ("offset", toString p.offset)]

end Position

end Pegwork
