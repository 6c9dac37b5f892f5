/-!
# Statements of a model file

A process-hitting model file is a list of statements. Here they stand as they are written: names and
numbers are still text, and each statement carries the line on which it starts.
-/

namespace Pegwork.Hitting

/-- A rate as it is written. -/
inductive RawRate where
  /-- The word for an infinite rate. -/
  | infinite
  /-- A decimal number. -/
  | finite (text : String)
  deriving DecidableEq, Repr

/-- The text parts of an action: process `hitter` of `hitterSort` hits process `target` of
`targetSort`, which bounces to `bounce`. -/
structure RawAction where
  hitterSort : String
  hitter : String
  targetSort : String
  target : String
  bounce : String
  /-- The rate, if one is given. -/
  rate : Option RawRate
  /-- The stochasticity absorption, if one is given. -/
  stochasticity : Option String
  deriving DecidableEq, Repr

/-- One statement of a model file. -/
inductive Statement where
  /-- The rate of actions without one of their own. -/
  | defaultRate (rate : RawRate) (line : Nat)
  /-- The stochasticity absorption of the whole model. -/
  | absorption (value : String) (line : Nat)
  /-- A sort whose processes are numbered from zero to `max`. -/
  | process (sort max : String) (line : Nat)
  /-- An action. -/
  | action (action : RawAction) (line : Nat)
  deriving DecidableEq, Repr

/-- The line on which a statement starts. -/
def Statement.line : Statement → Nat
  | defaultRate _ line => line
  | absorption _ line => line
  | process _ _ line => line
  | action _ line => line

end Pegwork.Hitting
