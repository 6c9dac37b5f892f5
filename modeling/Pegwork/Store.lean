import Pegwork.Word

/-!
# Stores

Rules keep no state of their own. What they change lives in a store that is handed from rule to
rule: boolean flags, variables that binary reads fill, and the trail of events that happened on the
way.

The trail is the only record of semantic actions, failure hooks, traces and warnings. A caller that
wants to act on them reads the trail afterwards, in order.
-/

namespace Pegwork

/-! ## Events -/

/-- Something that went wrong without stopping the parse. -/
inductive Warning where
  /-- A cell was used before it had a definition. -/
  | undefinedCell (name : String)
  /-- A handle outlived its cell. -/
  | droppedCell (name : String)
  /-- An array could not be written because it is lent out. -/
  | lentArray
  /-- A sequence could not be written because it is lent out. -/
  | lentSequence
  deriving DecidableEq, Repr

/-- The wording of a warning. -/
def Warning.message : Warning → String
  | undefinedCell name => "rule `" ++ name ++ "` used before it was defined"
  | droppedCell name => "rule `" ++ name ++ "` was dropped before use"
  | lentArray => "array read skipped: target is borrowed elsewhere"
  | lentSequence => "sequence read skipped: target is borrowed elsewhere"

/-- What a parse leaves behind, over cursors of type `κ` and labels of type `β`. -/
inductive Event (κ β : Type) where
  /-- A semantic action ran on the consumed range. -/
  | action (label : β) (start position : κ)
  /-- A failure hook ran on the range that was offered. -/
  | failure (label : β) (start limit : κ)
  /-- A flag was probed. -/
  | probe (flag : String) (value : Bool)
  /-- A labelled call was made on the range that was offered. -/
  | call (label : β) (start limit : κ)
  /-- A traced rule was entered. -/
  | entered (name : String) (start : κ)
  /-- A traced rule matched. -/
  | matched (name : String) (start position : κ)
  /-- A traced rule failed. -/
  | failed (name : String) (start : κ)
  /-- A warning was given. -/
  | warning (cause : Warning)
  deriving DecidableEq, Repr

/-! ## Variables -/

/-- How many words a variable holds. -/
inductive Shape where
  /-- Exactly one. -/
  | single
  /-- A fixed number. -/
  | array
  /-- As many as were read last. -/
  | sequence
  deriving DecidableEq, Repr

/-- A variable that binary reads write to. -/
structure Variable where
  /-- The type of its words. -/
  type : WordType
  /-- How many words it holds. -/
  shape : Shape
  /-- The words it holds. -/
  words : List (Word type)
  /-- Whether someone is looking at it, so that it must not be written. -/
  lent : Bool := false
  deriving DecidableEq, Repr

/-- The bytes of all words of a variable, one word after the other. -/
def Variable.image (v : Variable) : List UInt8 := v.words.flatMap Word.image

/-! ## Stores -/

/-- The state that a parse reads and changes. -/
structure Store (κ β : Type) where
  /-- The flags that are up. -/
  raised : List String := []
  /-- The variables by name. -/
  memory : List (String × Variable) := []
  /-- What happened so far, the latest first. -/
  trail : List (Event κ β) := []
  deriving DecidableEq, Repr

namespace Store

variable {κ β : Type}

/-- The events in the order in which they happened. -/
def events (s : Store κ β) : List (Event κ β) := s.trail.reverse

/-- Adds an event to the trail. -/
def record (s : Store κ β) (e : Event κ β) : Store κ β := { s with trail := e :: s.trail }

/-- Whether a flag is up. Flags start down. -/
def flag (s : Store κ β) (name : String) : Bool := s.raised.contains name

/-- Puts a flag up or down. -/
def setFlag (s : Store κ β) (name : String) (value : Bool) : Store κ β :=
  let others := s.raised.filter (· != name)
  { s with raised := if value then name :: others else others }

/-- The variable with a given name. -/
def content? (s : Store κ β) (name : String) : Option Variable := s.memory.lookup name

/-- Replaces a variable. -/
def setVariable (s : Store κ β) (name : String) (v : Variable) : Store κ β :=
  { s with memory := s.memory.map fun e => if e.1 == name then (e.1, v) else e }

end Store

/-- Looking up a name after the entries of one name have been replaced. -/
theorem lookup_replace {τ : Type} (entries : List (String × τ)) (name k : String) (new : τ) :
    (entries.map fun e => if e.1 == name then (e.1, new) else e).lookup k =
      (entries.lookup k).map fun old => if k = name then new else old := by
  induction entries with
  | nil => rfl
  | cons entry entries ih =>
    obtain ⟨first, old⟩ := entry
    have hentry : (if first == name then (first, new) else (first, old)) =
        (first, if first = name then new else old) := by
      by_cases hfirst : first = name
      · simp [hfirst]
      · simp [hfirst]
    rw [List.map_cons, hentry, List.lookup_cons, List.lookup_cons, ih]
    by_cases hk : k = first
    · simp [hk]
    · simp [beq_eq_false_iff_ne.2 hk]

namespace Store

variable {κ β : Type}

theorem content?_setVariable (s : Store κ β) (name k : String) (v : Variable) :
    (s.setVariable name v).content? k =
      (s.content? k).map fun old => if k = name then v else old :=
  lookup_replace s.memory name k v

end Store

end Pegwork
