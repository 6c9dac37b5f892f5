import Pegwork.Text.Quoted

/-!
# Log records

Messages for whoever watches a program run, each with a level of importance.
-/

namespace Pegwork

/-- How important a message is. -/
inductive Level where
  /-- Something failed. -/
  | error
  /-- Something is odd. -/
  | warn
  /-- Something worth knowing happened. -/
  | info
  /-- A detail for whoever looks for a fault. -/
  | debug
  /-- Every single step. -/
  | trace
  deriving DecidableEq, Repr

namespace Level

/-- The name of a level. -/
def text : Level → String
  | error => "ERROR"
  | warn => "WARN"
  | info => "INFO"
  | debug => "DEBUG"
  | trace => "TRACE"

/-- How talkative a log has to be for a level to appear in it. -/
def verbosity : Level → Nat
  | error => 0
  | warn => 0
  | info => 1
  | debug => 2
  | trace => 3

end Level

/-- A message with its level. -/
structure LogRecord where
  /-- How important the message is. -/
  level : Level
  /-- The message. -/
  message : String
  deriving DecidableEq, Repr

/-- The spelling of a character in a log. Characters that could steer a terminal are written by their
codes: escape, bell, backspace, form feed and delete with two digits, the controls after ASCII in
braces. -/
def logChar (c : Char) : String :=
  if c = '\x1b' || c = '\x07' || c = '\x08' || c = '\x0c' || c = '\x7f' then
    "\\x" ++ Text.hexByte (UInt8.ofNat c.toNat)
  else if 0x80 ≤ c.toNat && c.toNat ≤ 0x9F then "\\u\x7b" ++ Text.hex c.toNat ++ "\x7d"
  else c.toString

/-- A record as one line of a log: the level right-aligned to five columns, then the message. -/
def LogRecord.line (r : LogRecord) : String :=
  String.ofList (List.replicate (5 - r.level.text.length) ' ') ++ r.level.text ++ " " ++
    String.join (r.message.toList.map logChar)

end Pegwork
