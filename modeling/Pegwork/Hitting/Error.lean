import Pegwork.Hitting.Model
import Pegwork.Whole

/-!
# Errors of models

Why a text is no process-hitting model. Every error but an unreadable file points to a line.
-/

namespace Pegwork.Hitting

/-- Why a file cannot be read as text. -/
inductive FileError where
  /-- There is nothing at the path. -/
  | notFound
  /-- There is a directory at the path. -/
  | isDirectory
  /-- The path goes through a file. -/
  | notDirectory
  /-- Its bytes are not the UTF-8 form of a text. -/
  | invalidText
  /-- The path or a part of it is longer than the system allows. -/
  | nameTooLong
  /-- The path has a NUL character in it. -/
  | nulInName
  /-- Anything else, in the words of the system. -/
  | other (description : String)
  deriving DecidableEq, Repr

/-- The wording of a file error. -/
def FileError.message : FileError → String
  | notFound => "No such file or directory (os error 2)"
  | isDirectory => "Is a directory (os error 21)"
  | notDirectory => "Not a directory (os error 20)"
  | invalidText => "stream did not contain valid UTF-8"
  | nameTooLong => "File name too long (os error 36)"
  | nulInName => "file name contained an unexpected NUL byte"
  | other description => description

/-- Why a model could not be loaded. -/
inductive ModelError where
  /-- The file cannot be read. -/
  | unreadable (path : String) (cause : FileError)
  /-- The text has not the shape of a model file. -/
  | malformed (cause : ParseError)
  /-- A sort is declared a second time. -/
  | duplicateSort (name : String) (line : Nat)
  /-- An action mentions a sort that is not declared. -/
  | undeclaredSort (name : String) (line : Nat)
  /-- An action mentions a process beyond the last of its sort. -/
  | processOutOfRange (sort : String) (index max line : Nat)
  /-- The target of an action bounces to itself. -/
  | noBounce (sort : String) (target line : Nat)
  /-- A process hits another one of its own sort. -/
  | selfHit (sort : String) (hitter line : Nat)
  /-- A rate is not positive and finite. -/
  | invalidRate (value : Real64) (line : Nat)
  /-- A number cannot be represented. -/
  | numberOutOfRange (value : String) (line : Nat)
  deriving DecidableEq, Repr

namespace ModelError

/-- The wording of an error. -/
def message : ModelError → String
  | unreadable path cause => s!"cannot read {path}: " ++ cause.message
  | malformed cause => "syntax error: " ++ cause.message
  | duplicateSort name line => s!"line {line}: sort `" ++ name ++ "` is declared twice"
  | undeclaredSort name line => s!"line {line}: sort `" ++ name ++ "` is not declared"
  | processOutOfRange sort index max line =>
    s!"line {line}: process {sort}_{index} does not exist (last is {sort}_{max})"
  | noBounce sort target line => s!"line {line}: {sort}_{target} bounces to itself"
  | selfHit sort hitter line => s!"line {line}: {sort}_{hitter} can only hit its own sort at itself"
  | invalidRate value line => s!"line {line}: rate must be positive, got " ++ value.text
  | numberOutOfRange value line => s!"line {line}: value {value} is out of range"

/-- The line an error points to. -/
def line? : ModelError → Option Nat
  | unreadable _ _ => none
  | malformed cause => some cause.position.line
  | duplicateSort _ line => some line
  | undeclaredSort _ line => some line
  | processOutOfRange _ _ _ line => some line
  | noBounce _ _ line => some line
  | selfHit _ _ line => some line
  | invalidRate _ line => some line
  | numberOutOfRange _ line => some line

/-- The wording of the error behind an error. -/
def source? : ModelError → Option String
  | unreadable _ cause => some cause.message
  | malformed cause => some cause.message
  | _ => none

end ModelError

end Pegwork.Hitting
