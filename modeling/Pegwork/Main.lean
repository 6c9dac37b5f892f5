import Pegwork.CommandLine

/-!
# The program

Reads the file that the arguments name, and prints the response of the command line.
-/

open Pegwork

/-- The bytes of a file, or why they cannot be had. -/
def Pegwork.CommandLine.readBytes (path : String) : IO (Except Hitting.FileError (List UInt8)) := do
  try
    return .ok (← IO.FS.readBinFile path).toList
  catch
    | .noFileOrDirectory .. => return .error .notFound
    | .inappropriateType _ code _ =>
      return .error (if code = 21 then .isDirectory else .notDirectory)
    | e => return .error (.other (toString e))

/-- The program: prints the response and gives back its exit code. -/
def main (words : List String) : IO UInt32 := do
  let response ← match CommandLine.Invocation.ofArguments? words with
    | some i => do pure (CommandLine.respond i (← CommandLine.readBytes i.file))
    | none => pure .usage
  IO.print response.stdout
  IO.eprint response.stderr
  return UInt32.ofNat response.code
