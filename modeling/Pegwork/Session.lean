import Pegwork.Rule.Describe
import Pegwork.Whole

/-!
# Sessions

A session is where a grammar is put together and tried out step by step: it holds the cells, the rules
kept under a name, and the store that successive parses share.

Rules that are only used in one step live for that step; the cells moved into them die with them. A
rule kept under a name never dies, and a rule that defines a cell lives as long as the cell.
-/

namespace Pegwork

/-- A misuse of a cell. -/
inductive DefinitionError where
  /-- The cell of the given name has a definition already. -/
  | alreadyDefined (name : String)
  deriving DecidableEq, Repr

/-- The wording of a misuse. -/
def DefinitionError.message : DefinitionError → String
  | alreadyDefined name => "recursive rule `" ++ name ++ "` is already defined"

/-- A grammar under construction, with the state that its parses share. -/
structure Session (κ α β γ : Type) where
  /-- The cells by key. -/
  cells : Cells α β γ := []
  /-- The rules kept under a name, the latest first. -/
  kept : List (String × Rule α β γ) := []
  /-- Flags, variables and the events of the step. -/
  store : Store κ β := {}

namespace Session

variable {κ α β γ : Type}

/-! ## Building -/

/-- The rule kept under a name. -/
def rule? (s : Session κ α β γ) (name : String) : Option (Rule α β γ) := s.kept.lookup name

/-- Keeps a rule under a name, for references made from now on. -/
def keep (s : Session κ α β γ) (name : String) (rule : Rule α β γ) : Session κ α β γ :=
  { s with cells := s.cells.take rule.ownedCells, kept := (name, rule) :: s.kept }

/-- Defines a cell. The rule of a refused definition is lost, with the cells inside it. -/
def define (s : Session κ α β γ) (key : String) (rule : Rule α β γ) :
    Option DefinitionError × Session κ α β γ :=
  let cells := s.cells.take rule.ownedCells
  match cells.define key rule with
  | .ok cells => (none, { s with cells })
  | .error name => (some (.alreadyDefined name), { s with cells := cells.drop rule.ownedCells })

/-- Drops a cell that is still in hand, and says whether it was. -/
def drop (s : Session κ α β γ) (key : String) : Bool × Session κ α β γ :=
  if (s.cells.get key).held then (true, { s with cells := s.cells.drop [key] }) else (false, s)

/-! ## Variables and flags -/

/-- Puts a flag up or down. -/
def setFlag (s : Session κ α β γ) (flag : String) (value : Bool) : Session κ α β γ :=
  { s with store := s.store.setFlag flag value }

/-- Changes a variable. -/
def updateVariable (s : Session κ α β γ) (name : String) (f : Variable → Variable) :
    Session κ α β γ :=
  match s.store.content? name with
  | some v => { s with store := s.store.setVariable name (f v) }
  | none => s

/-- Lends a variable out, so that it cannot be written. -/
def lend (s : Session κ α β γ) (name : String) : Session κ α β γ :=
  s.updateVariable name fun v => { v with lent := true }

/-- Takes a lent variable back. -/
def giveBack (s : Session κ α β γ) (name : String) : Session κ α β γ :=
  s.updateVariable name fun v => { v with lent := false }

/-! ## Parsing and describing -/

variable [Element α]

/-- A rule as it is written in diagnostics; it lives for this step only. -/
def describe (s : Session κ α β γ) (rule : Rule α β γ) : String × Session κ α β γ :=
  (rule.describe s.cells s.store, { s with cells := s.cells.drop rule.ownedCells })

variable [Cursor κ α] [DecidableEq α]

/-- Runs a computation with rules that live for this step only. The store of the new session holds the
events of this step and no others; after a halt these are all that is new in the session. -/
def use {τ : Type} (s : Session κ α β γ) (foreign : γ → κ → κ → Match κ)
    (rules : List (Rule α β γ)) (body : (Rule α β γ → Meaning κ β) → Run (Store κ β) τ) :
    Except Halt τ × Session κ α β γ :=
  let owned := rules.flatMap Rule.ownedCells
  let cells := s.cells.take owned
  let (result, store) :=
    (body (Rule.parse foreign cells Rule.ampleDepth)).run.run { s.store with trail := [] }
  match result with
  | .ok answer => (.ok answer, { s with cells := cells.drop owned, store })
  | .error h => (.error h, { s with store := { s.store with trail := store.trail } })

end Session

end Pegwork
