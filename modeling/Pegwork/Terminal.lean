import Pegwork.Cursor
import Pegwork.Element
import Pegwork.Match
import Pegwork.Word

/-!
# Terminals

Rules that look at the input directly. A terminal is a pure function of the two cursors that
delimit its range; the only thing that can go wrong apart from a failure to match is a halt of the
cursor itself. A terminal that fails leaves the cursor at its start.

The reading terminals at the end give back the words they read beside the match.
-/

namespace Pegwork

/-- A rule without effects: from the start and the end of a range to the outcome. -/
abbrev Terminal (κ : Type) := κ → κ → Except Halt (Match κ)

namespace Terminal

variable {κ α : Type} [Cursor κ α]

/-! ## No elements -/

/-- Consumes nothing, with a fixed outcome. -/
def constant (value : Bool) : Terminal κ := fun i _ => .ok (.stay value i)

/-- Matches only at the end of the range. -/
def ending : Terminal κ := fun i j => .ok (.stay (Walk.same i j) i)

/-! ## Single elements -/

/-- Matches one element that satisfies `p`. -/
def satisfy (p : α → Bool) : Terminal κ := fun i j => do
  match ← Cursor.next i j with
  | some (a, next) => return if p a then .success i next else .failure i
  | none => return .failure i

/-- Matches any single element. -/
def any : Terminal κ := satisfy fun _ => true

/-! ## Several elements -/

/-- Walks past elements that satisfy the given conditions one after the other. -/
def literalFrom (limit : κ) : List (α → Bool) → κ → Except Halt (Option κ)
  | [], position => .ok (some position)
  | p :: conditions, position => do
    match ← Cursor.next position limit with
    | some (a, next) => if p a then literalFrom limit conditions next else return none
    | none => return none

/-- Matches a fixed number of elements, each with its own condition. -/
def literal (conditions : List (α → Bool)) : Terminal κ := fun i j => do
  match ← literalFrom j conditions i with
  | some position => return .success i position
  | none => return .failure i

/-- Walks past at most `left` elements that satisfy `p`, counting them. -/
def runFrom (limit : κ) (p : α → Bool) : (left count : Nat) → κ → Except Halt (κ × Nat)
  | 0, count, position => .ok (position, count)
  | left + 1, count, position => do
    match ← Cursor.next position limit with
    | some (a, next) => if p a then runFrom limit p left (count + 1) next else return (position, count)
    | none => return (position, count)

/-- Matches a run of elements that satisfy `p`. The run stops at the first other element or after
`max` elements, and at least `min` elements are needed. -/
def run (p : α → Bool) (min max : Nat) : Terminal κ := fun i j => do
  let (position, count) ← runFrom j p max 0 i
  return if min ≤ count then .success i position else .failure i

/-- Walks past elements that satisfy `p`. No range holds more than `left` elements. -/
def skipWhile (limit : κ) (p : α → Bool) : (left : Nat) → κ → Except Halt κ
  | 0, position => .ok position
  | left + 1, position => do
    match ← Cursor.next position limit with
    | some (a, next) => if p a then skipWhile limit p left next else return position
    | none => return position

/-- Matches a letter and the letters and numbers after it. -/
def identifier [Classify α] : Terminal κ := fun i j => do
  match ← Cursor.next i j with
  | some (a, next) =>
    if Classify.isAlphabetic a then
      return .success i (← skipWhile j Classify.isAlphanumeric Size.top next)
    else return .failure i
  | none => return .failure i

/-- Skips `n` elements, if there are as many. -/
def advance (n : Nat) : Terminal κ := fun i j => do
  if Cursor.hasAtLeast i n j then return .success i (← Cursor.advanceBy i n)
  else return .failure i

/-! ## Reading words -/

variable [Element α]

/-- Copies bytes of the input over `old`, as far as both reach. Also says where the copying stopped
and whether all of `old` was overwritten. -/
def overlay (limit : κ) : (old : List UInt8) → κ → Except Halt (List UInt8 × κ × Bool)
  | [], position => .ok ([], position, true)
  | byte :: old, position => do
    match ← Cursor.next position limit with
    | some (a, next) =>
      match Element.byte? a with
      | some new => do
        let (bytes, stop, complete) ← overlay limit old next
        return (new :: bytes, stop, complete)
      | none => return (byte :: old, position, false)
    | none => return (byte :: old, position, false)

/-- Reads one word over the image of an old one. If the input runs out the rest of the old image
stays, and the read fails. -/
def readWord {t : WordType} (old : Word t) (i j : κ) : Except Halt (Word t × Match κ) := do
  let (bytes, stop, complete) ← overlay j old.image i
  return (.ofImage t bytes, if complete then .success i stop else .failure i)

/-- Reads words over old ones, up to the first that cannot be read in full. Gives back the words
and, if all were read, the place after the last. -/
def readWordsFrom {t : WordType} (limit : κ) :
    (old : List (Word t)) → κ → Except Halt (List (Word t) × Option κ)
  | [], position => .ok ([], some position)
  | word :: old, position => do
    let (new, m) ← readWord word position limit
    if m.matched then
      let (words, stop) ← readWordsFrom limit old m.position
      return (new :: words, stop)
    else return (new :: old, none)

/-- Reads a fixed number of words. -/
def readWords {t : WordType} (old : List (Word t)) (i j : κ) :
    Except Halt (List (Word t) × Match κ) := do
  let (words, stop) ← readWordsFrom j old i
  match stop with
  | some position => return (words, .success i position)
  | none => return (words, .failure i)

/-- Reads at most `left` further words until the input runs out or a word is incomplete. Gives back
the words and the place after the last complete one. -/
def readManyFrom (t : WordType) (limit : κ) : (left : Nat) → κ → Except Halt (List (Word t) × κ)
  | 0, position => .ok ([], position)
  | left + 1, position =>
    if Walk.same position limit then .ok ([], position)
    else do
      let (new, m) ← readWord (Word.zero t) position limit
      if m.matched then
        let (words, stop) ← readManyFrom t limit left m.position
        return (new :: words, stop)
      else return ([], position)

/-- Reads as many words as the range holds, at most `max`; at least `min` are needed. -/
def readMany (t : WordType) (min max : Nat) (i j : κ) : Except Halt (List (Word t) × Match κ) := do
  let (words, stop) ← readManyFrom t j max i
  return (words, if min ≤ words.length then .success i stop else .failure i)

end Terminal

end Pegwork
