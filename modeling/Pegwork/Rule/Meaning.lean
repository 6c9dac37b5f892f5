import Pegwork.Cell
import Pegwork.Store

/-!
# The meaning of rules

A rule denotes a recognizer over any kind of cursor. `Rule.denote` follows the shape of the rule and
is given the meaning of cell handles from outside; `Rule.parse` ties the knot through the cells, to a
limited depth of handles inside handles. A recursion that goes deeper than that is given up.
-/

namespace Pegwork

/-- The recognizers that rules over cursors `κ` and labels `β` denote. -/
abbrev Meaning (κ β : Type) := Recognizer κ (Store κ β)

namespace Meaning

variable {κ α β : Type} [Cursor κ α]

/-- Leaves an event on the trail. -/
def emit (e : Event κ β) : Run (Store κ β) Unit := modify (Store.record · e)

/-- Fails with a warning. -/
def warn (cause : Warning) : Meaning κ β := fun i _ => do
  emit (.warning cause)
  return .failure i

/-- Leaves a label and the offered range on the trail. -/
def hook (label : β) : κ → κ → Run (Store κ β) Unit := fun i j => emit (.failure label i j)

/-- Carries out a semantic action on a consumed range. -/
def perform : Effect β → κ → κ → Run (Store κ β) Unit
  | .record label, start, position => emit (.action label start position)
  | .setFlag flag value, _, _ => modify (Store.setFlag · flag value)

/-- Consumes nothing and matches if a flag is up. -/
def probe (flag : String) : Meaning κ β := fun i _ => do
  let value := (← get).flag flag
  emit (.probe flag value)
  return .stay value i

/-- Traces a rule under a name. -/
def traced (a : Meaning κ β) (name : String) : Meaning κ β :=
  a.observed (fun i _ => emit (.entered name i)) fun i m =>
    emit (if m.matched then .matched name m.start m.position else .failed name i)

/-! ## Reading into variables -/

section Reading

variable [Element α]

/-- Reads over the words of a variable that is not lent out. -/
def overwrite (name : String) (v : Variable) : Meaning κ β := fun i j => do
  let (words, m) ← (Terminal.readWords v.words i j : Except Halt (List (Word v.type) × Match κ))
  modify (Store.setVariable · name { v with words })
  return m

/-- Reads one word into a variable. -/
def readWord (name : String) : Meaning κ β := fun i j => do
  match (← get).content? name with
  | some v => overwrite name v i j
  | none => return .failure i

/-- Reads an array variable, unless it is lent out. -/
def readArray (name : String) : Meaning κ β := fun i j => do
  match (← get).content? name with
  | some v => if v.lent then warn .lentArray i j else overwrite name v i j
  | none => return .failure i

/-- Reads a sequence variable, unless it is lent out. What it held before is forgotten. -/
def readSequence (name : String) (min max : Nat) : Meaning κ β := fun i j => do
  match (← get).content? name with
  | some v =>
    if v.lent then warn .lentSequence i j
    else do
      let (words, m) ←
        (Terminal.readMany v.type min max i j : Except Halt (List (Word v.type) × Match κ))
      modify (Store.setVariable · name { v with words })
      return m
  | none => return .failure i

end Reading

end Meaning

namespace Rule

variable {κ α β γ : Type} [Cursor κ α] [Element α] [DecidableEq α]

open Recognizer in
/-- The recognizer of a rule, given those of foreign rules and of cell handles. -/
def denote (foreign : γ → κ → κ → Match κ) (handle : String → Meaning κ β) :
    Rule α β γ → Meaning κ β
  | empty => ofTerminal (Terminal.constant true)
  | any => ofTerminal Terminal.any
  | element a => ofTerminal (Terminal.satisfy fun b => b = a)
  | token t => ofTerminal (Terminal.satisfy t.test)
  | literal text => ofTerminal (Terminal.literal (text.toList.map fun c a => Element.isChar a c))
  | elements as => ofTerminal (Terminal.literal (as.map fun a b => b = a))
  | satisfy p => ofTerminal (Terminal.satisfy p)
  | run p min max => ofTerminal (Terminal.run p min max)
  | probe flag => Meaning.probe flag
  | constant value => ofTerminal (Terminal.constant value)
  | identifier => ofTerminal Terminal.identifier
  | ending => ofTerminal Terminal.ending
  | advance count => ofTerminal (Terminal.advance count)
  | image word =>
    ofTerminal (Terminal.literal (word.image.map fun b a => Element.byte? a == some b))
  | readWord name => Meaning.readWord name
  | readArray name => Meaning.readArray name
  | readSequence name min max => Meaning.readSequence name min max
  | seq a b => (a.denote foreign handle).seq (b.denote foreign handle)
  | choice a b => (a.denote foreign handle).choice (b.denote foreign handle)
  | exclusive a b => (a.denote foreign handle).exclusive (b.denote foreign handle)
  | negation a => (a.denote foreign handle).negation
  | optional a => (a.denote foreign handle).optional
  | repetition item separator bounds =>
    (item.denote foreign handle).repetition (separator.denote foreign handle) bounds
  | find a => (a.denote foreign handle).find
  | select p a b =>
    (p.denote foreign handle).select (a.denote foreign handle) (b.denote foreign handle)
  | lookahead a => (a.denote foreign handle).lookahead
  | onFailure a label => (a.denote foreign handle).onFailure (Meaning.hook label)
  | onSuccess a effect => (a.denote foreign handle).onSuccess (Meaning.perform effect)
  | traced a name => Meaning.traced (a.denote foreign handle) name
  | boxed a => a.denote foreign handle
  | reference a => a.denote foreign handle
  | cell key => handle key
  | owned key => handle key
  | call a label =>
    (a.denote foreign handle).observed (fun i j => Meaning.emit (.call label i j)) fun _ _ => pure ()
  | Rule.foreign f => ofFunction (foreign f)

end Rule

/-- The recognizer of a cell handle, given that of the definitions. -/
def Cells.handle {κ α β γ : Type} (cells : Cells α β γ) (define : Rule α β γ → Meaning κ β)
    (key : String) : Meaning κ β :=
  let c := cells.get key
  match c.life with
  | .undefined => Meaning.warn (.undefinedCell c.name)
  | .defined rule => define rule
  | .dropped => Meaning.warn (.droppedCell c.name)

namespace Rule

variable {κ α β γ : Type} [Cursor κ α] [Element α] [DecidableEq α]

/-- The recognizer of a rule over a family of cells, with handles nested at most `depth` deep. -/
def parse (foreign : γ → κ → κ → Match κ) (cells : Cells α β γ) : (depth : Nat) → Rule α β γ →
    Meaning κ β
  | 0, rule => rule.denote foreign (cells.handle fun _ _ _ => throw .unending)
  | depth + 1, rule => rule.denote foreign (cells.handle (parse foreign cells depth))

/-- A depth that no recursion which ends can reach. -/
def ampleDepth : Nat := Size.bound

end Rule

end Pegwork
