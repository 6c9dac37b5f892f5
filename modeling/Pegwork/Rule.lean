import Pegwork.Element
import Pegwork.Recognizer

/-!
# Rules

A rule is a parsing expression as data: terminals, composites built from other rules, decorators
that observe a rule without changing its outcome, and handles of cells, through which a rule can
mention itself.

Rules are generic in the element type `α`, in the type `β` of the labels that actions and hooks leave
on the trail, and in the type `γ` of foreign rules, whose meaning is supplied from outside.
-/

namespace Pegwork

/-- Something an element can be compared with. -/
inductive Token (α : Type) where
  /-- Another element. -/
  | element (a : α)
  /-- A named kind of elements. -/
  | kind (name : String) (member : α → Bool)

/-- Whether an element equals a token. -/
def Token.test {α : Type} [DecidableEq α] : Token α → α → Bool
  | element a, b => b = a
  | kind _ member, b => member b

/-- What a semantic action does. -/
inductive Effect (β : Type) where
  /-- Leaves its label and the consumed range on the trail. -/
  | record (label : β)
  /-- Puts a flag up or down, and leaves nothing on the trail. -/
  | setFlag (flag : String) (value : Bool)
  deriving DecidableEq, Repr

/-- A parsing expression. -/
inductive Rule (α β γ : Type) where
  /-- Always matches, consuming nothing. -/
  | empty
  /-- Any single element. -/
  | any
  /-- One element equal to the given one. -/
  | element (a : α)
  /-- One element equal to a token, which need not be an element itself. -/
  | token (t : Token α)
  /-- The characters of a text, one element each. -/
  | literal (text : String)
  /-- The given elements in order. -/
  | elements (as : List α)
  /-- One element that satisfies a predicate. -/
  | satisfy (p : α → Bool)
  /-- A run of elements that satisfy a predicate. -/
  | run (p : α → Bool) (min max : Nat)
  /-- Consumes nothing and matches if a flag is up. -/
  | probe (flag : String)
  /-- Consumes nothing, with a fixed outcome. -/
  | constant (value : Bool)
  /-- A letter and the letters and numbers after it. -/
  | identifier
  /-- The end of the range. -/
  | ending
  /-- A fixed number of elements. -/
  | advance (count : Nat)
  /-- The image of a fixed-width value. -/
  | image {t : WordType} (word : Word t)
  /-- Reads one word into a variable. -/
  | readWord (variable_ : String)
  /-- Reads an array variable. -/
  | readArray (variable_ : String)
  /-- Reads a sequence variable. -/
  | readSequence (variable_ : String) (min max : Nat)
  /-- One rule after the other. -/
  | seq (first second : Rule α β γ)
  /-- The second rule if the first fails. -/
  | choice (first second : Rule α β γ)
  /-- Exactly one of two rules. -/
  | exclusive (first second : Rule α β γ)
  /-- Matches, consuming nothing, where the rule fails. -/
  | negation (rule : Rule α β γ)
  /-- The rule or nothing. -/
  | optional (rule : Rule α β γ)
  /-- Repetition with separators. -/
  | repetition (item separator : Rule α β γ) (bounds : Bounds)
  /-- Skips elements until the rule matches. -/
  | find (rule : Rule α β γ)
  /-- The first rule decides which of the others goes on. -/
  | select (probe then_ otherwise : Rule α β γ)
  /-- Matches, consuming nothing, where the rule matches. -/
  | lookahead (rule : Rule α β γ)
  /-- Leaves a label on the trail when the rule fails. -/
  | onFailure (rule : Rule α β γ) (label : β)
  /-- Acts when the rule matches. -/
  | onSuccess (rule : Rule α β γ) (effect : Effect β)
  /-- Leaves a trace of every use of the rule. -/
  | traced (rule : Rule α β γ) (name : String)
  /-- The rule itself, with its shape hidden in diagnostics. -/
  | boxed (rule : Rule α β γ)
  /-- A rule that is kept elsewhere. -/
  | reference (rule : Rule α β γ)
  /-- A handle of a cell, which does not keep the cell alive. -/
  | cell (key : String)
  /-- A cell that lives inside this rule. -/
  | owned (key : String)
  /-- Leaves a label on the trail before the rule is tried, and passes its outcome on as it is. -/
  | call (rule : Rule α β γ) (label : β)
  /-- A rule whose meaning is supplied from outside. -/
  | foreign (f : γ)

namespace Rule

variable {α β γ : Type}

/-! ## Derived rules -/

/-- Repetition of an item with separators; a lower limit above the upper one is lowered to it. -/
def many (item separator : Rule α β γ) (min max : Nat) : Rule α β γ :=
  repetition item separator (.clamp min max)

/-- Any number of occurrences. -/
def star (item : Rule α β γ) : Rule α β γ := many item empty 0 Size.top

/-- At least one occurrence. -/
def plus (item : Rule α β γ) : Rule α β γ := many item empty 1 Size.top

/-- At least one occurrence, with separators. -/
def separatedBy (item separator : Rule α β γ) : Rule α β γ := many item separator 1 Size.top

/-- The rule `a` where `b` does not match. -/
def difference (a b : Rule α β γ) : Rule α β γ := seq (negation b) a

/-- A run of any length. -/
def runOf (p : α → Bool) : Rule α β γ := run p 0 Size.top

/-- Several rules in a row. -/
def sequence : Rule α β γ → List (Rule α β γ) → Rule α β γ :=
  List.foldl seq

/-! ## Cells inside rules -/

/-- The cells that live inside a rule. A reference does not own the rule it refers to. -/
def ownedCells : Rule α β γ → List String
  | owned key => [key]
  | seq a b | choice a b | exclusive a b => a.ownedCells ++ b.ownedCells
  | negation a | optional a | find a | lookahead a | boxed a => a.ownedCells
  | repetition item separator _ => item.ownedCells ++ separator.ownedCells
  | select a b c => a.ownedCells ++ b.ownedCells ++ c.ownedCells
  | onFailure a _ => a.ownedCells
  | onSuccess a _ => a.ownedCells
  | traced a _ => a.ownedCells
  | call a _ => a.ownedCells
  | _ => []

end Rule

end Pegwork
