import Pegwork.Hitting.Error
import Pegwork.Hitting.Reader

/-!
# From statements to models

Building a model goes through the statements twice. The first time it takes up directives and sorts,
so that an action may mention a sort declared further down; the second time it checks the actions. The
first check that fails decides the error.

An action equal to an earlier one is kept, with a warning.
-/

namespace Pegwork.Hitting

open Pegwork.Number

/-! ## Values -/

/-- A whole number below `bound`. -/
def readNumber (bound : Nat) (text : String) (line : Nat) : Except ModelError Nat :=
  match readWhole bound text with
  | some n => .ok n
  | none => .error (.numberOutOfRange text line)

/-- A size. -/
def readSize (text : String) (line : Nat) : Except ModelError Nat := readNumber Size.bound text line

/-- A stochasticity absorption: a whole number that fits in 32 bits. -/
def readAbsorption (text : String) (line : Nat) : Except ModelError Nat :=
  readNumber 4294967296 text line

/-- A rate, which has to be positive. -/
def readRate (rate : RawRate) (line : Nat) : Except ModelError Rate :=
  match rate with
  | .infinite => .ok .infinite
  | .finite text =>
    match Real64.read text with
    | none => .error (.numberOutOfRange text line)
    | some value =>
      if value.isPositive then .ok (.finite value) else .error (.invalidRate value line)

/-! ## Directives and sorts -/

namespace Model

/-- Takes up a directive or a sort. Actions are left for later. -/
def declare (m : Model) : Statement → Except ModelError Model
  | .defaultRate rate line => do
    let defaultRate ← readRate rate line
    return { m with defaultRate }
  | .absorption value line => do
    let absorption ← readAbsorption value line
    return { m with absorption }
  | .process name max line =>
    if (m.sort? name).isSome then .error (.duplicateSort name line)
    else do
      let max ← readSize max line
      return { m with sorts := m.sorts ++ [⟨name, max⟩] }
  | .action _ _ => .ok m

/-- Takes up all directives and sorts. -/
def declareAll (m : Model) (statements : List Statement) : Except ModelError Model :=
  statements.foldlM declare m

/-! ## Actions -/

/-- The declared sort of a given name. -/
def lookupSort (m : Model) (name : String) (line : Nat) : Except ModelError ProcessSort :=
  match m.sort? name with
  | some s => .ok s
  | none => .error (.undeclaredSort name line)

/-- Refuses an index beyond the last process of a sort. -/
def checkProcess (s : ProcessSort) (index line : Nat) : Except ModelError Unit :=
  if s.max < index then .error (.processOutOfRange s.name index s.max line) else .ok ()

/-- Checks an action against the declared sorts. -/
def checkAction (m : Model) (raw : RawAction) (line : Nat) : Except ModelError Action := do
  let hitterSort ← m.lookupSort raw.hitterSort line
  let targetSort ← m.lookupSort raw.targetSort line
  let hitter ← readSize raw.hitter line
  let target ← readSize raw.target line
  let bounce ← readSize raw.bounce line
  checkProcess hitterSort hitter line
  checkProcess targetSort target line
  checkProcess targetSort bounce line
  if target = bounce then throw (.noBounce raw.targetSort target line)
  if raw.hitterSort = raw.targetSort ∧ hitter ≠ target then
    throw (.selfHit raw.hitterSort hitter line)
  let rate ← raw.rate.mapM (readRate · line)
  let stochasticity ← raw.stochasticity.mapM (readAbsorption · line)
  return ⟨raw.hitterSort, hitter, raw.targetSort, target, bounce, rate, stochasticity⟩

/-- The warning about an action that is in the model already. -/
def duplicateWarning (a : Action) (line : Nat) : LogRecord :=
  ⟨.warn, s!"line {line}: duplicate action " ++ a.hitterProcess.text ++ " -> " ++
    a.targetProcess.text⟩

/-- Adds the actions of a list of statements, with a warning for each that is in the model
already. -/
def addActions (m : Model) : List Statement → Except ModelError Model × List LogRecord
  | [] => (.ok m, [])
  | .action raw line :: statements =>
    match m.checkAction raw line with
    | .error e => (.error e, [])
    | .ok a =>
      let warnings := if a ∈ m.actions then [duplicateWarning a line] else []
      let (result, more) := addActions { m with actions := m.actions ++ [a] } statements
      (result, warnings ++ more)
  | _ :: statements => addActions m statements

/-- The model of a list of statements, or the first error in it, with the warnings on the way. -/
def build (statements : List Statement) : Except ModelError Model × List LogRecord :=
  match declareAll {} statements with
  | .error e => (.error e, [])
  | .ok m => m.addActions statements

/-! ## Texts and files -/

/-- The model of a text, or the first error in it, with the log of reading it. -/
def parse (text : String) : Except Halt (Except ModelError Model × List LogRecord) := do
  let (result, logs) ← readStatements text
  match result with
  | .error cause => return (.error (.malformed cause), logs)
  | .ok statements =>
    let (model, warnings) := build statements
    return (model, logs ++ ⟨.debug, s!"parsed {statements.length} statements"⟩ :: warnings)

/-- The model in a file with the given bytes. -/
def load (path : String) (content : Except FileError (List UInt8)) :
    Except Halt (Except ModelError Model × List LogRecord) :=
  let text := do
    let bytes ← content
    match String.fromUTF8? ⟨bytes.toArray⟩ with
    | some text => .ok text
    | none => .error .invalidText
  match text with
  | .error cause => return (.error (.unreadable path cause), [])
  | .ok text => do
    let (model, logs) ← parse text
    return (model, ⟨.info, s!"loaded {path} ({text.utf8ByteSize} bytes)"⟩ :: logs)

end Model

end Pegwork.Hitting
