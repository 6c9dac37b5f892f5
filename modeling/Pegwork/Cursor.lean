import Pegwork.Position

/-!
# Cursors

A cursor is a place inside an input sequence. Rules never own their input: they receive two cursors
that delimit what is left to read and give back a new cursor that says how far they came.
Going back is using an older cursor again.

* `Walk` holds the four operations every kind of input has to supply.
* The remaining operations follow from these; `Walk.advanceBy`, `Walk.hasAtLeast` and `Walk.next`
  are their plain definitions.
* `Cursor` lets a kind of input replace a plain definition by a faster one.

Cursors that are compared or measured against each other belong to the same input.
-/

namespace Pegwork

/-- The basic moves of a cursor of type `κ` over elements of type `α`. -/
class Walk (κ : Type) (α : outParam Type) where
  /-- The element under the cursor, unless the cursor has reached the end cursor. -/
  peek : κ → κ → Option α
  /-- One element forward. -/
  advance : κ → Except Halt κ
  /-- The number of elements from the first cursor to the second. -/
  distance : κ → κ → Nat
  /-- Whether two cursors stand at the same place of the same input. -/
  same : κ → κ → Bool

namespace Walk

variable {κ α : Type} [Walk κ α]

/-- Advances `n` times. -/
def advanceBy (c : κ) : Nat → Except Halt κ
  | 0 => .ok c
  | n + 1 => do
    let next ← advance c
    advanceBy next n

/-- Whether at least `n` elements stand between the cursor and the end. -/
def hasAtLeast (c : κ) (n : Nat) (limit : κ) : Bool := n ≤ distance c limit

/-- The element under the cursor together with the cursor past it. -/
def next (c limit : κ) : Except Halt (Option (α × κ)) :=
  match peek c limit with
  | none => .ok none
  | some a => do
    let past ← advance c
    return some (a, past)

end Walk

/-- A kind of input: the basic moves, the derived ones, and the two views that diagnostics and
semantic actions need. -/
class Cursor (κ : Type) (α : outParam Type) extends Walk κ α where
  /-- A given number of elements forward. -/
  advanceBy : κ → Nat → Except Halt κ := Walk.advanceBy
  /-- Whether at least the given number of elements remain before the end cursor. -/
  hasAtLeast : κ → Nat → κ → Bool := Walk.hasAtLeast
  /-- The next element and the cursor past it, or nothing at the end cursor. -/
  next : κ → κ → Except Halt (Option (α × κ)) := Walk.next
  /-- The elements between two cursors; none if they are reversed or leave the input. -/
  slice : κ → κ → List α
  /-- The place of the cursor, for messages. -/
  position : κ → Except Halt Position
  /-- The cursor as it is written in diagnostics. -/
  describe : κ → String

end Pegwork
