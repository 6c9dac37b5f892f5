import Pegwork.Proofs.Cursor.Steps
import Pegwork.Whole

/-!
# Disciplined trails

What a parse of a window may leave on the trail: events whose cursors stand in the window and in order, with
the end of the window wherever a limit is given, and traces that are nested.

* `Event.Within` says what the cursors of an event may be, for each kind of event.
* `Event.Nested` is the grammar of traces: an entry, the events inside it, and the one record that closes it.
* `Window.Disciplined` puts the two together for the latest part of a trail.
-/

namespace Pegwork

variable {κ α β β' : Type} [Cursor κ α]

namespace Event

/-! ## Cursors of events -/

section Within

variable [Track κ α]

/-- The cursors of the event stand in the window, in order, and a limit is the end of the window. -/
inductive Within (w : Window α) : Event κ β → Prop where
  | action (label : β) {x y : Nat} : x ≤ y → y ≤ w.length → Within w (.action label (w.cursor x) (w.cursor y))
  | failure (label : β) {x : Nat} : x ≤ w.length → Within w (.failure label (w.cursor x) w.limit)
  | probe (flag : String) (value : Bool) : Within w (.probe flag value)
  | call (label : β) {x : Nat} : x ≤ w.length → Within w (.call label (w.cursor x) w.limit)
  | entered (name : String) {x : Nat} : x ≤ w.length → Within w (.entered name (w.cursor x))
  | matched (name : String) {x y : Nat} : x ≤ y → y ≤ w.length →
      Within w (.matched name (w.cursor x) (w.cursor y))
  | failed (name : String) {x : Nat} : x ≤ w.length → Within w (.failed name (w.cursor x))
  | warning (cause : Warning) : Within w (.warning cause)

end Within

/-! ## Traces -/

/-- Whether the event leaves a trace record in the log. -/
def traces (e : Event κ β) : Bool := e.log?.any fun r => r.level = .trace

/-- Events, the first of them in front, in which traces are nested. -/
inductive Nested : List (Event κ β) → Prop where
  | nil : Nested []
  /-- Events that leave no trace may stand anywhere. -/
  | other {e : Event κ β} {rest : List (Event κ β)} : e.traces = false → Nested rest → Nested (e :: rest)
  /-- A rule that was entered has matched, from where it was entered. -/
  | matched (name : String) (start position : κ) {inside rest : List (Event κ β)} : Nested inside →
      Nested rest → Nested (.entered name start :: (inside ++ .matched name start position :: rest))
  /-- A rule that was entered has failed where it was entered. -/
  | failed (name : String) (start : κ) {inside rest : List (Event κ β)} : Nested inside →
      Nested rest → Nested (.entered name start :: (inside ++ .failed name start :: rest))

theorem Nested.append {first second : List (Event κ β)} (h : Nested first) (h' : Nested second) :
    Nested (first ++ second) := by
  induction h with
  | nil => exact h'
  | other htraces _ ih => exact .other htraces ih
  | matched name start position hinside _ _ ih =>
    rw [List.cons_append, List.append_assoc, List.cons_append]
    exact .matched name start position hinside ih
  | failed name start hinside _ _ ih =>
    rw [List.cons_append, List.append_assoc, List.cons_append]
    exact .failed name start hinside ih

/-- The record that closes the trace of a rule with the given outcome. -/
def closing (name : String) (start : κ) (m : Match κ) : Event κ β :=
  if m.matched then .matched name m.start m.position else .failed name start

/-- A rule is traced around nested events. -/
theorem Nested.traced {inside : List (Event κ β)} (h : Nested inside) (name : String) {start : κ}
    {m : Match κ} (hstart : m.matched = true → m.start = start) :
    Nested (.entered name start :: (inside ++ [closing name start m])) := by
  cases hm : m.matched with
  | true =>
    rw [closing, if_pos hm, hstart hm]
    exact .matched name start m.position h .nil
  | false =>
    rw [closing, if_neg (by simp [hm])]
    exact .failed name start h .nil

end Event

/-! ## Trails -/

variable [Track κ α]

open Event

/-- What has been added to a trail, the latest first: all events are within the window, and the traces are
nested. -/
structure Window.Disciplined (w : Window α) (new : List (Event κ β)) : Prop where
  within : ∀ e ∈ new, e.Within w
  nested : Nested new.reverse

namespace Window.Disciplined

variable {w : Window α} {new inside : List (Event κ β)}

theorem nil : w.Disciplined ([] : List (Event κ β)) := ⟨nofun, .nil⟩

/-- One event more that leaves no trace. -/
theorem cons (h : w.Disciplined new) {e : Event κ β} (hwithin : e.Within w) (htraces : e.traces = false) :
    w.Disciplined (e :: new) := by
  constructor
  · exact List.forall_mem_cons.2 ⟨hwithin, h.within⟩
  · rw [List.reverse_cons]
    exact h.nested.append (.other htraces .nil)

theorem within_closing (name : String) {x : Nat} {m : Match κ} (hx : x ≤ w.length)
    (hstart : m.matched = true → m.start = w.cursor x)
    (hposition : m.matched = true → ∃ y, x ≤ y ∧ y ≤ w.length ∧ m.position = w.cursor y) :
    (closing name (w.cursor x) m : Event κ β).Within w := by
  cases hm : m.matched with
  | true =>
    obtain ⟨y, hxy, hy, hposition⟩ := hposition hm
    rw [closing, if_pos hm, hstart hm, hposition]
    exact .matched name hxy hy
  | false =>
    rw [closing, if_neg (by simp [hm])]
    exact .failed name hx

/-- A traced rule more, with the events inside it. -/
theorem traced (h : w.Disciplined new) (hinside : w.Disciplined inside) (name : String) {x : Nat}
    {m : Match κ} (hx : x ≤ w.length) (hstart : m.matched = true → m.start = w.cursor x)
    (hposition : m.matched = true → ∃ y, x ≤ y ∧ y ≤ w.length ∧ m.position = w.cursor y) :
    w.Disciplined (closing name (w.cursor x) m :: (inside ++ .entered name (w.cursor x) :: new)) := by
  constructor
  · intro e he
    simp only [List.mem_cons, List.mem_append] at he
    rcases he with rfl | hinner | rfl | hnew
    · exact within_closing name hx hstart hposition
    · exact hinside.within e hinner
    · exact .entered name hx
    · exact h.within e hnew
  · have hnested := h.nested.append (hinside.nested.traced name hstart)
    simpa using hnested

end Window.Disciplined

end Pegwork
