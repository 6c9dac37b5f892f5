import Pegwork.Hitting.Statement
import Pegwork.Rule

/-!
# Grammar of model files

```text
directive default_rate 0.5          (* or Inf *)
directive stochasticity_absorption 3
process a 1                         (* sort a, processes a_0 and a_1 *)
process b 2
a 1 -> b 0 2 @0.3~5                 (* a_1 hits b_0, b bounces to b_2 *)
```

Between tokens there may be blanks and comments. A name starts with a letter or an underscore, goes on
with letters, numbers, underscores and apostrophes, and is none of the three reserved words.

The rules leave marks on the trail: where a statement begins, each name, number and rate in it, and
its end. Marks of an alternative that fails halfway stay on the trail; the mark at the beginning of
the next alternative makes them void.
-/

namespace Pegwork.Hitting

/-- The four forms of a statement. -/
inductive Form where
  /-- The rate of actions without one of their own. -/
  | defaultRate
  /-- The stochasticity absorption of the model. -/
  | absorption
  /-- The declaration of a sort. -/
  | process
  /-- An action. -/
  | action
  deriving DecidableEq, Repr

/-- What the grammar leaves on the trail. -/
inductive Mark where
  /-- A statement begins here. -/
  | begin
  /-- A name. -/
  | name
  /-- A whole number. -/
  | number
  /-- A decimal rate. -/
  | finiteRate
  /-- An infinite rate. -/
  | infiniteRate
  /-- The number that gives the stochasticity absorption of an action. -/
  | stochasticity
  /-- A statement of the given form is complete. -/
  | finish (form : Form)
  deriving DecidableEq, Repr

/-- The rules of this grammar: over characters, with marks as labels. -/
abbrev MarkedRule := Rule Char Mark Empty

namespace Grammar

/-! ## Characters -/

/-- Whether a name can start with `c`. -/
def isNameStart (c : Char) : Bool := Classify.isAlphabetic c || c == '_'

/-- Whether a name can go on with `c`. -/
def isNameChar (c : Char) : Bool := Classify.isAlphanumeric c || c == '_' || c == '\''

/-! ## Tokens -/

open Rule

/-- Leaves a mark when a rule matches. -/
def marked (rule : MarkedRule) (mark : Mark) : MarkedRule := onSuccess rule (.record mark)

/-- Blanks and comments, as many as there are. A comment ends at the first closing sign after its
opening one. -/
def gap : MarkedRule :=
  star (choice (run Classify.isSpace 1 Size.top) (seq (literal "(*") (find (literal "*)"))))

/-- A word that is not the start of a longer name. -/
def keyword (word : String) : MarkedRule := seq (literal word) (negation (satisfy isNameChar))

/-- The words that are no names. -/
def reserved : MarkedRule :=
  choice (choice (keyword "directive") (keyword "process")) (keyword "Inf")

/-- A run of digits. -/
def digits : MarkedRule := run Classify.isDigit 1 Size.top

/-- Digits with an optional point and further digits, or a point and digits. -/
def decimal : MarkedRule :=
  choice (seq digits (optional (seq (element '.') (runOf Classify.isDigit))))
    (seq (element '.') digits)

/-- A name. -/
def name : MarkedRule :=
  marked (difference (seq (satisfy isNameStart) (runOf isNameChar)) reserved) .name

/-- A whole number. -/
def number : MarkedRule := marked digits .number

/-- A rate. -/
def rate : MarkedRule :=
  choice (marked (keyword "Inf") .infiniteRate) (marked decimal .finiteRate)

/-- The beginning of a statement. -/
def begin : MarkedRule := marked empty .begin

/-! ## Statements -/

/-- The default rate. -/
def defaultRate : MarkedRule :=
  marked
    (sequence begin [keyword "directive", gap, keyword "default_rate", gap, rate])
    (.finish .defaultRate)

/-- The stochasticity absorption of the model. -/
def absorption : MarkedRule :=
  marked
    (sequence begin [keyword "directive", gap, keyword "stochasticity_absorption", gap, number])
    (.finish .absorption)

/-- The declaration of a sort. -/
def process : MarkedRule :=
  marked (sequence begin [keyword "process", gap, name, gap, number]) (.finish .process)

/-- The rate of an action. -/
def actionRate : MarkedRule := optional (sequence gap [element '@', gap, rate])

/-- The stochasticity absorption of an action. -/
def actionStochasticity : MarkedRule :=
  optional (sequence gap [element '~', gap, marked digits .stochasticity])

/-- An action. -/
def action : MarkedRule :=
  marked
    (sequence begin
      [name, gap, number, gap, literal "->", gap, name, gap, number, gap, number, actionRate,
        actionStochasticity])
    (.finish .action)

/-- Any statement. -/
def statement : MarkedRule := choice (choice (choice defaultRate absorption) process) action

/-- A model file. -/
def model : MarkedRule := seq gap (star (seq statement gap))

end Grammar

end Pegwork.Hitting
