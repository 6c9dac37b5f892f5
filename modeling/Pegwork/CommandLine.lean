import Pegwork.Hitting.Printer
import Pegwork.Hitting.Validation

/-!
# The command line

The program reads a model file and prints it: as a summary, as a normalized model file, or as a graph.

```text
model.ph                  # summary
model.ph --format ph      # normalized model file
model.ph --format dot -vv # graph, with a talkative log
```

What it does is a function of its arguments and of what the file holds; reading the file and
printing the response are left to `main`.
-/

namespace Pegwork.CommandLine

open Hitting

/-! ## Arguments -/

/-- What is printed of a model. -/
inductive Format where
  /-- Its size in a few lines. -/
  | summary
  /-- The text of a model file. -/
  | ph
  /-- A graph. -/
  | dot
  deriving DecidableEq, Repr

/-- The format of a given name. -/
def Format.ofName? : String → Option Format
  | "summary" => some summary
  | "ph" => some ph
  | "dot" => some dot
  | _ => none

/-- The arguments that have been read so far. -/
structure Arguments where
  /-- The model file. -/
  file : Option String := none
  /-- What to print. -/
  format : Option Format := none
  /-- How often a more talkative log was asked for. -/
  verbosity : Nat := 0
  deriving DecidableEq, Repr

namespace Arguments

/-- Takes the model file, which has to be given once. -/
def setFile (a : Arguments) (file : String) : Option Arguments :=
  if a.file.isSome || file = "" then none else some { a with file := some file }

/-- Takes the format, which can be given once. -/
def setFormat (a : Arguments) (name : String) : Option Arguments :=
  if a.format.isSome then none
  else (Format.ofName? name).map fun format => { a with format := some format }

/-- Takes a single argument: a long option with its value, a group of short options, or the file. -/
def takeWord (a : Arguments) (word : String) : Option Arguments :=
  match word.toList with
  | '-' :: '-' :: _ =>
    match word.splitOn "=" with
    | "--format" :: value :: more => a.setFormat ("=".intercalate (value :: more))
    | _ => none
  | '-' :: flag :: flags =>
    if (flag :: flags).all (· == 'v') then
      some { a with verbosity := a.verbosity + (flag :: flags).length }
    else none
  | _ => a.setFile word

/-- Takes all arguments in order. After a double dash the rest are files. -/
def takeAll (a : Arguments) : List String → Option Arguments
  | [] => some a
  | "--" :: files => files.foldlM setFile a
  | "--verbose" :: words => takeAll { a with verbosity := a.verbosity + 1 } words
  | ["--format"] => none
  | "--format" :: name :: words =>
    match a.setFormat name with
    | some a => takeAll a words
    | none => none
  | word :: words =>
    match a.takeWord word with
    | some a => takeAll a words
    | none => none

end Arguments

/-- What the program is asked to do. -/
structure Invocation where
  /-- The model file. -/
  file : String
  /-- What to print. -/
  format : Format
  /-- How talkative the log is. -/
  verbosity : Nat
  deriving DecidableEq, Repr

/-- The invocation that arguments stand for, unless they are misused. -/
def Invocation.ofArguments? (words : List String) : Option Invocation := do
  let a ← Arguments.takeAll {} words
  let file ← a.file
  return ⟨file, a.format.getD .summary, a.verbosity⟩

/-! ## Responses -/

/-- What the program leaves behind. -/
structure Response where
  /-- The exit code: 0 for success, 1 for a model error, 2 for misused arguments. -/
  code : Nat
  /-- The printed model. -/
  stdout : String
  /-- The log, and the error if there is one. -/
  stderr : String
  deriving DecidableEq, Repr

/-- The response to misused arguments. -/
def Response.usage : Response := ⟨2, "", ""⟩

/-- The response to a halt. -/
def Response.halted : Response := ⟨101, "", ""⟩

/-- The lines of a log that is as talkative as asked for. -/
def logText (verbosity : Nat) (logs : List LogRecord) : String :=
  unlines ((logs.filter fun r => r.level.verbosity ≤ verbosity).map LogRecord.line)

/-- A model in a given format. -/
def render (format : Format) (m : Model) : Except Halt String :=
  match format with
  | .summary => m.summary
  | .ph => .ok m.text
  | .dot => .ok m.dot

/-- The response to an invocation, given what the file holds. -/
def respond (i : Invocation) (content : Except FileError (List UInt8)) : Response :=
  match Model.load i.file content with
  | .error _ => .halted
  | .ok (.error e, logs) => ⟨1, "", logText i.verbosity logs ++ "error: " ++ e.message ++ "\n"⟩
  | .ok (.ok m, logs) =>
    match render i.format m with
    | .ok text => ⟨0, text, logText i.verbosity logs⟩
    | .error _ => .halted

/-- The response to arguments, given a way to read files. -/
def run (read : String → Except FileError (List UInt8)) (words : List String) : Response :=
  match Invocation.ofArguments? words with
  | some i => respond i (read i.file)
  | none => .usage

end Pegwork.CommandLine
