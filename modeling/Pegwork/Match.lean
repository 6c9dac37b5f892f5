/-!
# Outcomes of rules

A match says whether a rule matched, where it was started and where the input goes on. Between
`start` and `position` lies what the rule consumed; a failed rule consumes nothing.
-/

namespace Pegwork

/-- The outcome of applying a rule at a cursor of type `κ`. -/
structure Match (κ : Type) where
  /-- Whether the rule matched. -/
  matched : Bool
  /-- Where the input goes on. -/
  position : κ
  /-- Where the rule was started. -/
  start : κ
  deriving DecidableEq, Repr

namespace Match

variable {κ : Type}

/-- An outcome that consumes nothing. -/
def stay (matched : Bool) (position : κ) : Match κ := ⟨matched, position, position⟩

/-- A successful match of everything from `start` to `position`. -/
def success (start position : κ) : Match κ := ⟨true, position, start⟩

/-- A failure at `start`. -/
def failure (start : κ) : Match κ := stay false start

/-- The consumed range. -/
def consumed (m : Match κ) : κ × κ := (m.start, m.position)

/-- The same outcome, reported as if the rule had been started at `start`. A failure is drawn back
to `start`. -/
def restart (m : Match κ) (start : κ) : Match κ :=
  if m.matched then success start m.position else failure start

@[simp] theorem stay_matched (b : Bool) (c : κ) : (stay b c).matched = b := rfl
@[simp] theorem stay_position (b : Bool) (c : κ) : (stay b c).position = c := rfl
@[simp] theorem stay_start (b : Bool) (c : κ) : (stay b c).start = c := rfl
@[simp] theorem success_matched (c d : κ) : (success c d).matched = true := rfl
@[simp] theorem success_position (c d : κ) : (success c d).position = d := rfl
@[simp] theorem success_start (c d : κ) : (success c d).start = c := rfl
@[simp] theorem failure_matched (c : κ) : (failure c).matched = false := rfl
@[simp] theorem failure_position (c : κ) : (failure c).position = c := rfl
@[simp] theorem failure_start (c : κ) : (failure c).start = c := rfl

@[simp] theorem restart_matched (m : Match κ) (c : κ) : (m.restart c).matched = m.matched := by
  unfold restart
  split <;> simp_all

@[simp] theorem restart_start (m : Match κ) (c : κ) : (m.restart c).start = c := by
  unfold restart
  split <;> rfl

end Match

end Pegwork
