import Pegwork.Rule.Meaning
import Pegwork.Log

/-!
# Parsing whole inputs

A whole input is accepted when the rule matches and stops exactly at the end. There are two ways to
fall short, told apart by `ParseError`.
-/

namespace Pegwork

/-- Why a whole input is not accepted. -/
inductive ParseError where
  /-- The rule failed. A failed rule consumes nothing, so the place is the start of the input. -/
  | noMatch (position : Position)
  /-- The rule matched but stopped before the end, at the given place. -/
  | trailingInput (position : Position)
  deriving DecidableEq, Repr

namespace ParseError

/-- The place of the error. -/
def position : ParseError → Position
  | noMatch p => p
  | trailingInput p => p

/-- The wording of the error. -/
def message : ParseError → String
  | noMatch p => "input does not match at " ++ p.text
  | trailingInput p => "unexpected input at " ++ p.text

end ParseError

namespace Recognizer

variable {κ α σ : Type} [Cursor κ α]

/-- Whether a rule matches and consumes the whole range. -/
def acceptsAll (a : Recognizer κ σ) (i j : κ) : Run σ Bool := do
  let m ← a i j
  return m.matched && Walk.same m.position j

/-- Runs a rule over a whole input and gives back its end, or says why the input is not accepted. -/
def whole (a : Recognizer κ σ) (start stop : κ) : Run σ (Except ParseError κ) := do
  let m ← a start stop
  if !m.matched then
    return .error (.noMatch (← (Cursor.position start : Except Halt Position)))
  else if !Walk.same m.position stop then
    return .error (.trailingInput (← (Cursor.position m.position : Except Halt Position)))
  else return .ok stop

end Recognizer

/-! ## Events as log records -/

/-- The log record of an event that is meant for a log. -/
def Event.log? {κ α β : Type} [Cursor κ α] : Event κ β → Option LogRecord
  | .entered name start => some ⟨.trace, name ++ ": enter at " ++ Cursor.describe start⟩
  | .matched name start position =>
    some ⟨.trace, name ++ ": matched " ++ Cursor.describe start ++ ".." ++ Cursor.describe position⟩
  | .failed name start => some ⟨.trace, name ++ ": failed at " ++ Cursor.describe start⟩
  | .warning cause => some ⟨.warn, cause.message⟩
  | _ => none

end Pegwork
