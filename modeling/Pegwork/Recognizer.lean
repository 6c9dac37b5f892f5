import Pegwork.Terminal

/-!
# Recognizers and their combinators

A recognizer is a rule as a function: from the start and the end of a range to an outcome, changing
a state on the way. The combinators build the composite rule shapes out of recognizers and know
nothing about the state, the input or how their parts came about.

Every combinator hands its own start back on failure, so that an enclosing choice always retries
from a clean cursor. `negation`, `lookahead` and `optional` never consume input on a failure of
their part.

Loops are bounded by counters: a repetition by its own upper limit, a search by the number of
sizes there are.
-/

namespace Pegwork

/-- A computation that changes a state of type `σ` and may halt. What it did to the state before it halted
can still be seen. -/
abbrev Run (σ : Type) := ExceptT Halt (StateM σ)

/-- A rule as a function of the two cursors that delimit its range. -/
abbrev Recognizer (κ σ : Type) := κ → κ → Run σ (Match κ)

/-- How often a part may be repeated. -/
structure Bounds where
  /-- The least number of occurrences. -/
  least : Nat
  /-- The greatest number of occurrences. -/
  most : Nat
  least_le_most : least ≤ most
  deriving DecidableEq, Repr

namespace Bounds

/-- Bounds in which a lower limit above the upper one is lowered to it. -/
def clamp (least most : Nat) : Bounds := ⟨min least most, most, Nat.min_le_right _ _⟩

/-- The number of occurrences to report when the last of `count` passes consumed nothing, so that all
further ones would match too: as many as allowed, or as many as needed if there is no limit. -/
def saturate (b : Bounds) (count : Nat) : Nat :=
  if b.most = Size.top then max count b.least else b.most

end Bounds

namespace Recognizer

variable {κ α σ : Type}

/-- A rule without effects. -/
def ofTerminal (t : Terminal κ) : Recognizer κ σ := fun i j => (t i j : Except Halt (Match κ))

/-- A rule given by any function of the cursors. -/
def ofFunction (f : κ → κ → Match κ) : Recognizer κ σ := fun i j => pure (f i j)

/-! ## Sequences and choices -/

/-- Matches `a`, then `b` from where `a` stopped. -/
def seq (a b : Recognizer κ σ) : Recognizer κ σ := fun i j => do
  let first ← a i j
  if first.matched then
    let second ← b first.position j
    return second.restart i
  else return .failure i

/-- Ordered choice: `b` is tried only when `a` fails. -/
def choice (a b : Recognizer κ σ) : Recognizer κ σ := fun i j => do
  let first ← a i j
  if first.matched then return first.restart i
  else
    let second ← b i j
    return second.restart i

/-- Matches if exactly one of the two matches. Both are always tried. -/
def exclusive (a b : Recognizer κ σ) : Recognizer κ σ := fun i j => do
  let first ← a i j
  let second ← b i j
  match first.matched, second.matched with
  | true, false => return first.restart i
  | false, true => return second.restart i
  | _, _ => return .failure i

/-- Matches `then_` after `probe` if `probe` matches, and `otherwise` from the start if not. The probe
runs once. -/
def select (probe then_ otherwise : Recognizer κ σ) : Recognizer κ σ := fun i j => do
  let first ← probe i j
  if first.matched then
    let second ← then_ first.position j
    return second.restart i
  else
    let second ← otherwise i j
    return second.restart i

/-! ## Looking ahead -/

/-- Matches exactly when `a` fails. Consumes nothing. -/
def negation (a : Recognizer κ σ) : Recognizer κ σ := fun i j => do
  let m ← a i j
  return .stay (!m.matched) i

/-- Matches exactly when `a` does. Consumes nothing. -/
def lookahead (a : Recognizer κ σ) : Recognizer κ σ := fun i j => do
  let m ← a i j
  return .stay m.matched i

/-- Always matches, consuming whatever `a` matched. -/
def optional (a : Recognizer κ σ) : Recognizer κ σ := fun i j => do
  let m ← a i j
  return if m.matched then m.restart i else .stay true i

/-! ## Repetition and search -/

section Loops

variable [Walk κ α]

/-- One pass of a repetition: the item, after a separator unless it is the first. -/
def pass (item separator : Recognizer κ σ) (limit : κ) (count : Nat) (position : κ) :
    Run σ (Match κ) :=
  if count = 0 then item position limit
  else do
    let gap ← separator position limit
    if gap.matched then item gap.position limit else return .failure position

/-- The loop of a repetition: at most `left` further passes, `count` done so far. Gives back where the
last occurrence ended and how many there were.

Once a pass after the first consumes nothing every later one would match the same empty range. The
loop stops there and counts those passes as done. -/
def repeatFrom (item separator : Recognizer κ σ) (bounds : Bounds) (limit : κ) :
    (left count : Nat) → κ → Run σ (κ × Nat)
  | 0, count, position => return (position, count)
  | left + 1, count, position => do
    let next ← pass item separator limit count position
    if next.matched then
      if Walk.same next.position position && 0 < count then
        return (next.position, bounds.saturate (count + 1))
      else repeatFrom item separator bounds limit left (count + 1) next.position
    else return (position, count)

/-- Repeats an item with separators in between and counts the occurrences; none on failure. A
separator is consumed only if the item after it matches. -/
def counted (item separator : Recognizer κ σ) (bounds : Bounds) (i j : κ) :
    Run σ (Match κ × Nat) := do
  let (position, count) ← repeatFrom item separator bounds j bounds.most 0 i
  return if bounds.least ≤ count then (.success i position, count) else (.failure i, 0)

/-- Repeats an item with separators in between. -/
def repetition (item separator : Recognizer κ σ) (bounds : Bounds) : Recognizer κ σ := fun i j => do
  let (m, _) ← counted item separator bounds i j
  return m

/-- The loop of a search that began at `start`. A search that does not come to an end is given up. -/
def findFrom (a : Recognizer κ σ) (start limit : κ) : (left : Nat) → κ → Run σ (Match κ)
  | 0, _ => throw .unending
  | left + 1, position => do
    let m ← a position limit
    if m.matched then return .success start m.position
    else if Walk.same position limit then return .failure start
    else
      let next ← (Walk.advance position : Except Halt κ)
      findFrom a start limit left next

/-- Skips elements until `a` matches, the end of the range included. -/
def find (a : Recognizer κ σ) : Recognizer κ σ := fun i j => findFrom a i j Size.bound i

end Loops

/-! ## Observers -/

/-- Calls `hook` on the offered range when `a` fails. -/
def onFailure (a : Recognizer κ σ) (hook : κ → κ → Run σ Unit) : Recognizer κ σ := fun i j => do
  let m ← a i j
  if m.matched then return m.restart i
  else
    hook i j
    return m.restart i

/-- Calls `act` on the consumed range when `a` matches. -/
def onSuccess (a : Recognizer κ σ) (act : κ → κ → Run σ Unit) : Recognizer κ σ := fun i j => do
  let m ← a i j
  if m.matched then
    act i m.position
    return m.restart i
  else return m.restart i

/-- Calls `enter` before and `leave` after `a`, and passes the outcome on as it is. -/
def observed (a : Recognizer κ σ) (enter : κ → κ → Run σ Unit) (leave : κ → Match κ → Run σ Unit) :
    Recognizer κ σ := fun i j => do
  enter i j
  let m ← a i j
  leave i m
  return m

end Recognizer

end Pegwork
