import Pegwork.Hitting.Grammar

/-!
# The language of model files

What a model file is, said without the rules that read it. A file is cut into gaps and statements, and
a statement into parts; a part is spelled by a text, given what follows that text. There is no order of
trying and no going back here: `File text ss` holds if *some* way to cut the text spells the statements
`ss`.

* `Gap`: blanks and comments, as many as there are.
* `Part.Spelled`: words, numbers, rates and signs. Words are not followed by a further character of a
  name, and digits not by a further digit.
* `Statement.parts`: the four forms of a statement.
* `File`: a gap, then statements with a gap after each. The line of a statement is one more than the
  number of newlines before it.
-/

namespace Pegwork.Hitting

/-! ## Texts of tokens -/

/-- The text does not start with a character that satisfies `p`. -/
def Stops (p : Char → Bool) (text : List Char) : Prop := ∀ c rest, text = c :: rest → p c = false

/-- Blanks and comments. A comment ends at the first closing sign after its opening one. -/
inductive Gap : List Char → Prop where
  | nil : Gap []
  | blank {c : Char} {more : List Char} : Classify.isSpace c = true → Gap more → Gap (c :: more)
  | comment {body more : List Char} : ¬ ['*', ')'] <:+: body → Gap more →
      Gap ('(' :: '*' :: (body ++ '*' :: ')' :: more))

/-- Digits, at least one. -/
def IsDigits (text : List Char) : Prop := text ≠ [] ∧ ∀ c ∈ text, Classify.isDigit c = true

/-- A name: a letter or underscore, then letters, numbers, underscores and apostrophes, and none of the
reserved words. -/
structure IsName (text : List Char) : Prop where
  start : ∃ c rest, text = c :: rest ∧ Grammar.isNameStart c = true
  chars : ∀ c ∈ text, Grammar.isNameChar c = true
  free : text ≠ "directive".toList ∧ text ≠ "process".toList ∧ text ≠ "Inf".toList

/-- Digits with an optional point and further digits, or a point and digits. -/
inductive IsDecimal : List Char → Prop where
  | whole {digits : List Char} : IsDigits digits → IsDecimal digits
  | pointed {digits fraction : List Char} : IsDigits digits →
      (∀ c ∈ fraction, Classify.isDigit c = true) → IsDecimal (digits ++ '.' :: fraction)
  | fraction {fraction : List Char} : IsDigits fraction → IsDecimal ('.' :: fraction)

/-! ## Parts of statements -/

/-- The parts that statements are made of. -/
inductive Part where
  /-- A fixed word. -/
  | keyword (word : String)
  /-- The arrow of an action. -/
  | arrow
  /-- A sign of one character. -/
  | sign (c : Char)
  /-- Blanks and comments. -/
  | gap
  /-- A name. -/
  | name (text : String)
  /-- A whole number. -/
  | number (text : String)
  /-- A whole number that gives a stochasticity absorption. -/
  | stochasticity (text : String)
  /-- A rate. -/
  | rate (rate : RawRate)

/-- The text, followed by `rest`, spells the part. -/
def Part.Spelled : Part → (text rest : List Char) → Prop
  | keyword word, text, rest => text = word.toList ∧ Stops Grammar.isNameChar rest
  | arrow, text, _ => text = ['-', '>']
  | sign c, text, _ => text = [c]
  | gap, text, _ => Gap text
  | name n, text, rest => text = n.toList ∧ IsName text ∧ Stops Grammar.isNameChar rest
  | number n, text, rest => text = n.toList ∧ IsDigits text ∧ Stops Classify.isDigit rest
  | stochasticity n, text, rest => text = n.toList ∧ IsDigits text ∧ Stops Classify.isDigit rest
  | rate .infinite, text, rest => text = "Inf".toList ∧ Stops Grammar.isNameChar rest
  | rate (.finite n), text, rest => text = n.toList ∧ IsDecimal text ∧ Stops Classify.isDigit rest

/-- The text, followed by `rest`, spells the parts one after the other. -/
def SpelledInOrder : List Part → (text rest : List Char) → Prop
  | [], text, _ => text = []
  | part :: parts, text, rest =>
    ∃ first more, text = first ++ more ∧ part.Spelled first (more ++ rest) ∧
      SpelledInOrder parts more rest

/-! ## Statements and files -/

/-- The parts of a rate after an action. -/
def rateSuffix : Option RawRate → List Part
  | none => []
  | some rate => [.gap, .sign '@', .gap, .rate rate]

/-- The parts of a stochasticity absorption after an action. -/
def stochasticitySuffix : Option String → List Part
  | none => []
  | some value => [.gap, .sign '~', .gap, .stochasticity value]

namespace Statement

/-- The form of a statement. -/
def form : Statement → Form
  | defaultRate _ _ => .defaultRate
  | absorption _ _ => .absorption
  | process _ _ _ => .process
  | action _ _ => .action

/-- The parts of a statement in order. -/
def parts : Statement → List Part
  | defaultRate rate _ => [.keyword "directive", .gap, .keyword "default_rate", .gap, .rate rate]
  | absorption value _ =>
    [.keyword "directive", .gap, .keyword "stochasticity_absorption", .gap, .number value]
  | process sort max _ => [.keyword "process", .gap, .name sort, .gap, .number max]
  | action a _ =>
    [.name a.hitterSort, .gap, .number a.hitter, .gap, .arrow, .gap, .name a.targetSort, .gap,
      .number a.target, .gap, .number a.bounce] ++ rateSuffix a.rate ++
      stochasticitySuffix a.stochasticity

/-- The text, followed by `rest`, spells the statement. -/
def Spelled (s : Statement) (text rest : List Char) : Prop := SpelledInOrder s.parts text rest

end Statement

/-- What stands behind `before` is cut into statements with a gap after each. -/
inductive Cut : (before text : List Char) → List Statement → Prop where
  | nil (before : List Char) : Cut before [] []
  | cons {before text gap rest : List Char} {s : Statement} {ss : List Statement} :
      s.line = 1 + before.count '\n' → s.Spelled text (gap ++ rest) → Gap gap →
      Cut (before ++ text ++ gap) rest ss → Cut before (text ++ gap ++ rest) (s :: ss)

/-- The text is a model file with the given statements. -/
def File (text : List Char) (ss : List Statement) : Prop :=
  ∃ gap rest, text = gap ++ rest ∧ Gap gap ∧ Cut gap rest ss

end Pegwork.Hitting
