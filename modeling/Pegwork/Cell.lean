import Pegwork.Rule

/-!
# Cells

A rule cannot mention itself before it exists. A recursive grammar is therefore built in two steps:
a cell is made, its handles are used wherever the rule is needed, and then the cell is defined.

A cell can be defined once. Handles do not keep it alive: after it is dropped they fail. A cell can be
moved into a rule; it then lives as long as that rule, and a rule that defines a cell lives as long as
the cell.
-/

namespace Pegwork

/-- What has become of a cell. -/
inductive Life (α β γ : Type) where
  /-- It waits for its definition. -/
  | undefined
  /-- It has its definition. -/
  | defined (rule : Rule α β γ)
  /-- It is gone. -/
  | dropped

/-- A rule whose definition is supplied after it was made. -/
structure Cell (α β γ : Type) where
  /-- The name that appears in diagnostics. -/
  name : String
  /-- What has become of it. -/
  life : Life α β γ := .undefined
  /-- Whether it is still in the hands of whoever made it, and not moved into a rule. -/
  held : Bool := true

/-- Whether a cell has its definition. -/
def Cell.isDefined {α β γ : Type} (c : Cell α β γ) : Bool :=
  match c.life with
  | .defined _ => true
  | _ => false

/-- A cell as it is written in diagnostics. -/
def Cell.describe {α β γ : Type} (c : Cell α β γ) : String :=
  Text.record "Recursive" [("name", Text.quote c.name), ("defined", Text.truth c.isDefined)]

/-- The cells of a grammar by key. -/
abbrev Cells (α β γ : Type) := List (String × Cell α β γ)

namespace Cells

variable {α β γ : Type}

/-- The name of a cell made without one. -/
def defaultName : String := "recursive"

/-- The cell with a given key. A key that was never made belongs to no living cell. -/
def get (cells : Cells α β γ) (key : String) : Cell α β γ :=
  (cells.lookup key).getD ⟨key, .dropped, false⟩

/-- Replaces a cell. -/
def set (cells : Cells α β γ) (key : String) (c : Cell α β γ) : Cells α β γ :=
  cells.map fun e => if e.1 == key then (e.1, c) else e

/-- Moves cells out of the hands of whoever made them, into a rule. -/
def take (cells : Cells α β γ) (keys : List String) : Cells α β γ :=
  keys.foldl (fun cells key => cells.set key { cells.get key with held := false }) cells

/-- Drops cells together with the cells inside their definitions, `depth` levels deep. -/
def dropFrom : (depth : Nat) → List String → Cells α β γ → Cells α β γ
  | 0, _, cells => cells
  | depth + 1, keys, cells =>
    keys.foldl (fun cells key =>
      let c := cells.get key
      let left := cells.set key { c with life := .dropped, held := false }
      match c.life with
      | .defined rule => dropFrom depth rule.ownedCells left
      | _ => left) cells

/-- Drops cells together with all that live inside them. Definitions own each other no deeper than
there are cells. -/
def drop (cells : Cells α β γ) (keys : List String) : Cells α β γ :=
  dropFrom (cells.length + 1) keys cells

/-- Supplies the definition of a cell. If it has one already nothing changes, and the name of the cell
is given back. -/
def define (cells : Cells α β γ) (key : String) (rule : Rule α β γ) : Except String (Cells α β γ) :=
  let c := cells.get key
  match c.life with
  | .undefined => .ok (cells.set key { c with life := .defined rule })
  | _ => .error c.name

end Cells

end Pegwork
