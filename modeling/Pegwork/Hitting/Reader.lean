import Pegwork.Cursor.Text
import Pegwork.Hitting.Grammar
import Pegwork.Whole

/-!
# Reading statements

The text of a model file is run through the grammar, and the marks on the trail are gone through in
order to collect the statements. Only the shape of the text is checked here; names and numbers are
checked when the model is built.
-/

namespace Pegwork.Hitting

/-- What has been collected so far: the parts of the current statement, and the finished ones. -/
structure Captures where
  /-- The line on which the current statement starts. -/
  line : Nat := 0
  /-- The names of the current statement. -/
  names : List String := []
  /-- The numbers of the current statement. -/
  numbers : List String := []
  /-- The rate of the current statement. -/
  rate : Option RawRate := none
  /-- The stochasticity absorption of the current statement. -/
  stochasticity : Option String := none
  /-- The finished statements. -/
  statements : List Statement := []
  /-- Complaints about statements that could not be finished. -/
  logs : List LogRecord := []
  deriving DecidableEq, Repr

namespace Captures

/-- The statement of a given form made of the parts collected, if these are the right ones. -/
def build (c : Captures) : Form → Option Statement
  | .defaultRate => c.rate.map (.defaultRate · c.line)
  | .absorption =>
    match c.numbers with
    | [value] => some (.absorption value c.line)
    | _ => none
  | .process =>
    match c.names, c.numbers with
    | [sort], [max] => some (.process sort max c.line)
    | _, _ => none
  | .action =>
    match c.names, c.numbers with
    | [hitterSort, targetSort], [hitter, target, bounce] =>
      some (.action ⟨hitterSort, hitter, targetSort, target, bounce, c.rate, c.stochasticity⟩ c.line)
    | _, _ => none

/-- The complaint about a statement that could not be finished. -/
def incomplete (line : Nat) : LogRecord :=
  ⟨.warn, s!"line {line}: incomplete statement ignored"⟩

/-- Goes past one mark, given the line of its start and the text it covers. -/
def step (c : Captures) (line : Nat) (text : String) : Mark → Captures
  | .begin => { c with line, names := [], numbers := [], rate := none, stochasticity := none }
  | .name => { c with names := c.names ++ [text] }
  | .number => { c with numbers := c.numbers ++ [text] }
  | .finiteRate => { c with rate := some (.finite text) }
  | .infiniteRate => { c with rate := some .infinite }
  | .stochasticity => { c with stochasticity := some text }
  | .finish form =>
    match c.build form with
    | some statement => { c with statements := c.statements ++ [statement] }
    | none => { c with logs := c.logs ++ [incomplete c.line] }

/-- Goes past one event. -/
def event (c : Captures) : Event TextCursor Mark → Captures
  | .action mark start position =>
    c.step start.position.line (String.ofList (start.slice position)) mark
  | _ => c

/-- Goes through the events of a parse. -/
def replay (events : List (Event TextCursor Mark)) : Captures := events.foldl event {}

end Captures

/-- The statements of a model text, or why it has not the shape of one, with the complaints on the
way. -/
def readStatements (text : String) :
    Except Halt (Except ParseError (List Statement) × List LogRecord) := do
  let cs := text.toList
  let stop ← TextCursor.ending 0 cs
  let rule : Meaning TextCursor Mark := Grammar.model.parse nofun [] 0
  let (outcome, store) := (rule.whole (.beginning 0 cs) stop).run.run {}
  let result ← outcome
  let captures := Captures.replay store.events
  return (result.map fun _ => captures.statements, captures.logs)

end Pegwork.Hitting
