import Pegwork.Cell
import Pegwork.Store

/-!
# Rules in diagnostics

The text of a rule shows its shape and the constants in it. Predicates, actions and hooks have no
text; boxed rules and references hide what is behind them; variables show what they hold.
-/

namespace Pegwork

/-- A token as it is written in diagnostics. -/
def Token.describe {α : Type} [Element α] : Token α → String
  | element a => Element.describe a
  | kind name _ => Text.wrapped "Kind" (Text.quote name)

/-- The words of a variable as they are written in diagnostics. -/
def Variable.describe (v : Variable) : String :=
  Text.record "RefCell" [("value", Text.listed (v.words.map Word.describe))]

namespace Rule

variable {κ α β γ : Type} [Element α]

/-- The variable with a given name as it is written in diagnostics. -/
def describeVariable (store : Store κ β) (name : String) : String :=
  ((store.content? name).map Variable.describe).getD name

/-- A rule as it is written in diagnostics. -/
def describe (cells : Cells α β γ) (store : Store κ β) : Rule α β γ → String
  | empty => "EmptyRule"
  | any => "AnyRule"
  | element a => Text.wrapped "CharRule" (Element.describe a)
  | token t => Text.wrapped "TokenRule" t.describe
  | literal text => Text.wrapped "StrRule" (Text.quote text)
  | elements as => Text.wrapped "SliceLitRule" (Text.listed (as.map Element.describe))
  | satisfy _ => "PredRule"
  | run _ min max => Text.record "PredRunRule" [("min", toString min), ("max", toString max)]
  | probe _ => "ProbeRule"
  | constant value => Text.wrapped "FlagRule" (Text.truth value)
  | identifier => "IdentRule"
  | ending => "EndRule"
  | advance count => Text.wrapped "AdvanceRule" (toString count)
  | image word => Text.wrapped "BinRule" word.describe
  | readWord name =>
    let size := ((store.content? name).map fun v => v.type.size).getD 0
    Text.record "VarRule" [("size", toString size)]
  | readArray name => Text.record "ArrayRule" [("target", describeVariable store name)]
  | readSequence name min max =>
    Text.record "SequenceRule"
      [("target", describeVariable store name), ("min", toString min), ("max", toString max)]
  | seq a b =>
    Text.record "AndRule" [("first", a.describe cells store), ("second", b.describe cells store)]
  | choice a b =>
    Text.record "OrRule" [("first", a.describe cells store), ("second", b.describe cells store)]
  | exclusive a b =>
    Text.record "XorRule" [("first", a.describe cells store), ("second", b.describe cells store)]
  | negation a => Text.record "NotRule" [("rule", a.describe cells store)]
  | optional a => Text.record "OptRule" [("rule", a.describe cells store)]
  | repetition item separator bounds =>
    Text.record "ManyRule"
      [("rule", item.describe cells store), ("separator", separator.describe cells store),
        ("min", toString bounds.least), ("max", toString bounds.most)]
  | find a => Text.record "FindRule" [("rule", a.describe cells store)]
  | select p a b =>
    Text.record "SelectRule"
      [("probe", p.describe cells store), ("then", a.describe cells store),
        ("otherwise", b.describe cells store)]
  | lookahead a => Text.record "TestRule" [("rule", a.describe cells store)]
  | onFailure a _ => Text.record "FailRule" [("rule", a.describe cells store)]
  | onSuccess a _ => Text.record "ActionRule" [("rule", a.describe cells store)]
  | traced a name =>
    Text.record "TracedRule" [("rule", a.describe cells store), ("name", Text.quote name)]
  | boxed _ => "BoxedRule"
  | reference _ => "RefRule"
  | cell key => Text.record "RecursiveRef" [("name", Text.quote (cells.get key).name)]
  | owned key => (cells.get key).describe
  | call _ _ => "FnRule"
  | foreign _ => "FnRule"

end Rule

end Pegwork
