import Pegwork.Cursor

/-!
# Cursors over sequences of elements

A slice cursor is an index into a sequence of bytes, characters or tokens. Its moves are arithmetic
on the index, which may leave the sequence: there is nothing to read there.

The cursor carries the elements from its index on, the length of the whole sequence, and the number
`source` of the sequence it belongs to.
-/

namespace Pegwork

/-- A place in a sequence. -/
structure SliceCursor (α : Type) where
  /-- The sequence this cursor belongs to. -/
  source : Nat
  /-- How many elements stand before this place. -/
  index : Nat
  /-- The length of the whole sequence. -/
  length : Nat
  /-- The elements from here on. -/
  rest : List α
  deriving DecidableEq, Repr

namespace SliceCursor

variable {α : Type}

/-- The start of a sequence. -/
def beginning (source : Nat) (data : List α) : SliceCursor α := ⟨source, 0, data.length, data⟩

/-- The end of a sequence. -/
def ending (source : Nat) (data : List α) : SliceCursor α := ⟨source, data.length, data.length, []⟩

/-- The element under the cursor, looking no further than `limit`. -/
def peek (c limit : SliceCursor α) : Option α :=
  if c.index < limit.index then c.rest.head? else none

/-- A given number of elements forward, past the end too. -/
def advanceBy (c : SliceCursor α) (n : Nat) : Except Halt (SliceCursor α) := do
  let index ← Size.add c.index n
  return { c with index, rest := c.rest.drop n }

/-- One element forward. -/
def advance (c : SliceCursor α) : Except Halt (SliceCursor α) := do
  let index ← Size.add c.index 1
  return { c with index, rest := c.rest.tail }

/-- The number of elements up to `limit`, zero if `limit` lies behind. -/
def distance (c limit : SliceCursor α) : Nat := limit.index - c.index

/-- Same index of the same sequence. -/
def same (c d : SliceCursor α) : Bool := c.index == d.index && c.source == d.source

/-- The elements up to `limit`; none if the range is reversed or leaves the sequence. -/
def slice (c limit : SliceCursor α) : List α :=
  if c.index ≤ limit.index && limit.index ≤ c.length then
    c.rest.take (limit.index - c.index)
  else []

/-- The cursor as it is written in diagnostics. -/
def describe (c : SliceCursor α) : String :=
  Text.record "SliceCursor" [("index", toString c.index), ("len", toString c.length)]

instance : Cursor (SliceCursor α) α where
  peek
  advance
  distance
  same
  advanceBy
  slice
  position c := Position.ofIndex c.index
  describe

end SliceCursor

end Pegwork
