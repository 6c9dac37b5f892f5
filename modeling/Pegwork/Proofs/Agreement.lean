import Pegwork.Proofs.Range

/-!
# What a parse depends on

Two windows with the same elements are twins, wherever they lie in their inputs and whatever kind of
cursors walks through them. Without foreign rules nothing else is asked for: a rule does the same in both.
What it does is compared completely, from the outcome over flags and variables to the events, whose
cursors stand behind the same numbers of elements (`Window.Level`) and therefore enclose the same elements.

Two uses are made of this. With cursors of one kind it says that a parse sees its window and nothing else.
With a text on one side and the sequence of its characters on the other it says that the two kinds of
cursors can be exchanged for each other.
-/

namespace Pegwork

variable {κ ρ α β γ : Type} [Cursor κ α] [Track κ α] [Steps κ α] [Cursor ρ α] [Track ρ α] [Steps ρ α]

open Recognizer Run

/-! ## Windows with the same elements -/

/-- The two cursors stand behind the same number of elements of their windows. -/
def Window.Level (v w : Window α) (c : κ) (d : ρ) : Prop :=
  ∃ n, n ≤ v.length ∧ n ≤ w.length ∧ c = v.cursor n ∧ d = w.cursor n

/-- Between cursors of the same level lie the same elements. -/
theorem Window.Level.slice_eq {v w : Window α} (heq : v.elements = w.elements) {c d : κ} {c' d' : ρ}
    (hc : v.Level w c c') (hd : v.Level w d d') : Cursor.slice c d = Cursor.slice c' d' := by
  obtain ⟨x, hx, hx', rfl, rfl⟩ := hc
  obtain ⟨y, hy, hy', rfl, rfl⟩ := hd
  rw [v.slice_cursor hx hy, w.slice_cursor hx' hy', heq]

/-- Two windows with the same elements as twins. Linked cursors are on the same level. -/
def Twin.ofWindows (v w : Window α) (hv : Steps.Fits κ v.data) (hw : Steps.Fits ρ w.data)
    (heq : v.elements = w.elements) : Twin κ ρ where
  left := v
  right := w
  fits_left := hv
  fits_right := hw
  elements_eq := heq
  Linked := v.Level w
  linked_cursor n hn := by
    have hlength : v.length = w.length := by rw [← v.length_elements, heq, w.length_elements]
    exact ⟨n, hn, hlength ▸ hn, rfl, rfl⟩

/-! ## Reports -/

/-- What semantic actions, failure hooks and probes tell their caller. -/
inductive Report (α β : Type) where
  /-- An action with its label, on the consumed elements. -/
  | action (label : β) (elements : List α)
  /-- A failure hook with its label, on the offered elements. -/
  | failure (label : β) (elements : List α)
  /-- A probe of a flag. -/
  | probe (flag : String) (value : Bool)

/-- The report of an event that has one. -/
def Event.report? {κ : Type} [Cursor κ α] : Event κ β → Option (Report α β)
  | .action label start position => some (.action label (Cursor.slice start position))
  | .failure label start limit => some (.failure label (Cursor.slice start limit))
  | .probe flag value => some (.probe flag value)
  | _ => none

theorem Event.Alike.report?_eq {v w : Window α} (heq : v.elements = w.elements) {e : Event κ β}
    {e' : Event ρ β} (h : Event.Alike (v.Level w) e e') : e.report? = e'.report? := by
  cases h with
  | action label hstart hposition => simp only [report?, hstart.slice_eq heq hposition]
  | failure label hstart hlimit => simp only [report?, hstart.slice_eq heq hlimit]
  | probe flag value => rfl
  | call label hstart hlimit => rfl
  | entered name hstart => rfl
  | matched name hstart hposition => rfl
  | failed name hstart => rfl
  | warning cause => rfl

theorem filterMap_report?_eq {v w : Window α} (heq : v.elements = w.elements) {new : List (Event κ β)}
    {new' : List (Event ρ β)} (h : List.Forall₂ (Event.Alike (v.Level w)) new new') :
    new.filterMap Event.report? = new'.filterMap Event.report? := by
  induction h with
  | nil => rfl
  | cons he _ ih => rw [List.filterMap_cons, List.filterMap_cons, he.report?_eq heq, ih]

/-! ## Agreement -/

/-- Two runs in windows with the same elements have come to the same end. -/
structure Agreement (v w : Window α) (before after : Store κ β) (before' after' : Store ρ β)
    (m : Match κ) (m' : Match ρ) : Prop where
  matched_eq : m.matched = m'.matched
  start : v.Level w m.start m'.start
  /-- The same number of elements is consumed. -/
  position : v.Level w m.position m'.position
  raised_eq : after.raised = after'.raised
  memory_eq : after.memory = after'.memory
  /-- The new events correspond to each other one by one, and tell the same. -/
  events : ∃ new new', after.trail = new ++ before.trail ∧ after'.trail = new' ++ before'.trail ∧
    List.Forall₂ (Event.Alike (v.Level w)) new new' ∧
    new.filterMap Event.report? = new'.filterMap Event.report?

/-- Started at the beginnings of their windows, both recognizers come to the same end, or neither comes
to one. -/
def Meaning.Agree (v w : Window α) (before : Store κ β) (before' : Store ρ β) (a : Meaning κ β)
    (b : Meaning ρ β) : Prop :=
  (∃ m m' after after', (a (v.cursor 0) v.limit).Ends before m after ∧
    (b (w.cursor 0) w.limit).Ends before' m' after' ∧ Agreement v w before after before' after' m m') ∨
  ∃ after after', (a (v.cursor 0) v.limit).Halts before .unending after ∧
    (b (w.cursor 0) w.limit).Halts before' .unending after'

namespace Rule

variable [Element α] [DecidableEq α] {cells : Cells α β γ} {rule : Rule α β γ}

/-- Rules without foreign rules agree in windows with the same elements. -/
theorem agree_parse (hforeign : ∀ f, ¬ Mentions cells rule f) (foreign : γ → κ → κ → Match κ)
    (foreign' : γ → ρ → ρ → Match ρ) (depth : Nat) {v w : Window α} (hv : Steps.Fits κ v.data)
    (hw : Steps.Fits ρ w.data) (heq : v.elements = w.elements) {before : Store κ β}
    {before' : Store ρ β} (hraised : before.raised = before'.raised)
    (hmemory : before.memory = before'.memory) :
    Meaning.Agree v w before before' (rule.parse foreign cells depth)
      (rule.parse foreign' cells depth) := by
  have halike : Meaning.Alike (Twin.ofWindows v w hv hw heq) before before' (· = .unending) 0 0
      (rule.parse foreign cells depth) (rule.parse foreign' cells depth) :=
    alike_parse depth fun f hf => absurd hf (hforeign f)
  rcases halike 0 (Nat.le_refl 0) (Nat.zero_le _) before before' (Store.alike_refl hraised hmemory) with
    ⟨m, m', after, after', hend, hend', hm, hafter⟩ | ⟨_, after, after', hhalt, hhalt', rfl⟩
  · obtain ⟨new, new', htrail, htrail', hnew⟩ := hafter.trail
    exact .inl ⟨m, m', after, after', hend, hend', hm.matched_eq, hm.start, hm.position,
      hafter.raised_eq, hafter.memory_eq, new, new', htrail, htrail', hnew,
      filterMap_report?_eq heq hnew⟩
  · exact .inr ⟨after, after', hhalt, hhalt'⟩

/-! ## One kind of input -/

/-- **A parse depends only on its window.** In two inputs of one kind, a rule without foreign rules does
the same in any two windows with the same elements, from the same flags, variables and cells on. In
particular it does in a window of a larger input what it does in an input that has nothing but the elements
of this window. -/
theorem parse_depends_on_window (cells : Cells α β γ) (rule : Rule α β γ)
    (hforeign : ∀ f, ¬ Mentions cells rule f) (foreign : γ → κ → κ → Match κ) (depth : Nat)
    (before before' : Store κ β) (hraised : before.raised = before'.raised)
    (hmemory : before.memory = before'.memory) :
    (∀ v w : Window α, Steps.Fits κ v.data → Steps.Fits κ w.data → v.elements = w.elements →
      Meaning.Agree v w before before' (rule.parse foreign cells depth)
        (rule.parse foreign cells depth)) ∧
    ∀ (v : Window α) (source : Nat), Steps.Fits κ v.data →
      Meaning.Agree v (.whole source v.elements) before before' (rule.parse foreign cells depth)
        (rule.parse foreign cells depth) := by
  have hagree : ∀ v w : Window α, Steps.Fits κ v.data → Steps.Fits κ w.data → v.elements = w.elements →
      Meaning.Agree v w before before' (rule.parse foreign cells depth)
        (rule.parse foreign cells depth) :=
    fun v w hv hw heq => agree_parse hforeign foreign foreign depth hv hw heq hraised hmemory
  refine ⟨hagree, fun v source hv => hagree v _ hv ?_ (Window.elements_whole _ _).symm⟩
  exact Steps.fits_part v.first v.length hv

/-- A recursive rule for everything up to the end, with a hook for a parenthesis that is not there: inside a
larger text it stops in front of the closing one, as it does where there is none. -/
theorem parse_depends_on_window_inside :
    let tail : Rule Char String Empty := .choice (.seq .any (.cell "tail")) .ending
    let cells : Cells Char String Empty := [("tail", ⟨"tail", .defined tail, true⟩)]
    let rule : Rule Char String Empty :=
      .onSuccess (.seq (.optional (.onFailure (.element ')') "open")) (.cell "tail")) (.record "all")
    let parse : Meaning TextCursor String := rule.parse nofun cells 3
    let v : Window Char := ⟨0, ['x', '(', 'é', ')'], 1, 2, by decide⟩
    let w : Window Char := .whole 1 ['(', 'é']
    ∃ m m' after after', (parse (v.cursor 0) v.limit).Ends {} m after ∧
      (parse (w.cursor 0) w.limit).Ends {} m' after' ∧ Agreement v w {} after {} after' m m' ∧
      m.matched = true ∧ m.position = v.cursor 2 ∧
      after.trail.filterMap Event.report? =
        [.action "all" ['(', 'é'], .failure "open" ['(', 'é']] := by
  intro tail cells rule parse v w
  have hfits : Steps.Fits TextCursor v.data := by
    show Text.bytes _ < 2 ^ 63
    decide
  have hrun : ∃ m after, (parse (v.cursor 0) v.limit).Ends {} m after ∧ m.matched = true ∧
      m.position = v.cursor 2 ∧ after.trail.filterMap Event.report? =
        [.action "all" ['(', 'é'], .failure "open" ['(', 'é']] := ⟨_, _, rfl, rfl, rfl, rfl⟩
  obtain ⟨m, after, hend, hmatched, hposition, hreports⟩ := hrun
  obtain ⟨-, halone⟩ := parse_depends_on_window cells rule nofun nofun 3
    ({} : Store TextCursor String) {} rfl rfl
  rcases halone v 1 hfits with ⟨m', m'', after', after'', hend', hend'', hagree⟩ | ⟨_, _, hhalt, -⟩
  · obtain ⟨rfl, rfl⟩ := hend.unique hend'
    exact ⟨m, m'', after, after'', hend, hend'', hagree, hmatched, hposition, hreports⟩
  · exact absurd hend (not_ends_of_halts hhalt)

end Rule

/-! ## Texts and sequences of characters -/

/-- The answers about a text and about the sequence of its characters fall into the same case. -/
inductive SameCase (text : List Char) :
    Except ParseError TextCursor → Except ParseError (SliceCursor Char) → Prop where
  /-- Both are accepted, up to their ends. -/
  | accepted {c : TextCursor} {d : SliceCursor Char} : c.offset = Text.bytes text →
      d.index = text.length → SameCase text (.ok c) (.ok d)
  /-- In both the rule fails. -/
  | noMatch : SameCase text (.error (.noMatch ⟨1, 1, 0⟩)) (.error (.noMatch ⟨1, 1, 0⟩))
  /-- In both the rule stops behind `n` characters, in front of the end. -/
  | trailing {n : Nat} : n < text.length →
      SameCase text (.error (.trailingInput (Position.behind (text.take n))))
        (.error (.trailingInput ⟨1, n + 1, n⟩))

/-- The place where the rule has stopped determines the answer. -/
theorem Recognizer.Verdict.eq_of_position {source n : Nat} {data : List α} {m : Match κ}
    {answer : Except ParseError κ} (h : Verdict source data m answer) (hn : n ≤ data.length)
    (hposition : m.position = (Window.whole source data).cursor n) :
    answer =
      if m.matched = true then
        if n = data.length then .ok (Window.whole source data).limit
        else .error (.trailingInput (Steps.locate κ data n))
      else .error (.noMatch (Steps.locate κ data 0)) := by
  cases h with
  | noMatch hfailed => rw [hfailed, if_neg Bool.false_ne_true]
  | accepted hmatched hlimit =>
    have hall : n = data.length :=
      (Window.whole source data).eq_of_cursor_eq hn (Nat.le_refl _) (hposition.symm.trans hlimit)
    rw [if_pos hmatched, if_pos hall]
  | @trailing k hmatched hk hstop =>
    have hsame : n = k :=
      (Window.whole source data).eq_of_cursor_eq hn (Nat.le_of_lt hk) (hposition.symm.trans hstop)
    rw [if_pos hmatched, if_neg (by omega), hsame]

/-- From outcomes on the same level come answers of the same case. -/
theorem sameCase_of_verdicts {source source' : Nat} {text : List Char} {m : Match TextCursor}
    {m' : Match (SliceCursor Char)} (hmatched : m.matched = m'.matched)
    (hposition : (Window.whole source text).Level (Window.whole source' text) m.position m'.position)
    {answer : Except ParseError TextCursor} {answer' : Except ParseError (SliceCursor Char)}
    (hanswer : Verdict source text m answer) (hanswer' : Verdict source' text m' answer') :
    SameCase text answer answer' := by
  obtain ⟨n, hn, hn', hleft, hright⟩ := hposition
  rw [hanswer.eq_of_position hn hleft, hanswer'.eq_of_position hn' hright, ← hmatched]
  split
  · split
    · refine .accepted ?_ ?_
      · rw [TextCursor.whole_limit, TextCursor.behind_offset]
      · rw [SliceCursor.whole_limit, SliceCursor.ending]
    · next hpart => exact .trailing (Nat.lt_of_le_of_ne hn hpart)
  · exact .noMatch

/-- Rules that agree give answers of the same case about the whole inputs, or none. -/
theorem Meaning.Agree.sameCase {source source' : Nat} {text : List Char} {a : Meaning TextCursor β}
    {b : Meaning (SliceCursor Char) β} {before : Store TextCursor β} {before' : Store (SliceCursor Char) β}
    (h : Meaning.Agree (.whole source text) (.whole source' text) before before' a b)
    (hlength : text.length < Size.bound) :
    let run := a.whole ((Window.whole source text).cursor 0) (Window.whole source text).limit
    let run' := b.whole ((Window.whole source' text).cursor 0) (Window.whole source' text).limit
    (∃ answer answer' after after', run.Ends before answer after ∧ run'.Ends before' answer' after' ∧
      SameCase text answer answer') ∨
    ∃ after after', run.Halts before .unending after ∧ run'.Halts before' .unending after' := by
  rcases h with ⟨m, m', after, after', hend, hend', h⟩ | ⟨after, after', hhalt, hhalt'⟩
  · obtain ⟨n, hn, hn', hposition, hposition'⟩ := h.position
    obtain ⟨answer, hanswer, hverdict⟩ := whole_ends hlength hend fun _ => ⟨n, hn, hposition⟩
    obtain ⟨answer', hanswer', hverdict'⟩ := whole_ends hlength hend' fun _ => ⟨n, hn', hposition'⟩
    exact .inl ⟨answer, answer', after, after', hanswer, hanswer',
      sameCase_of_verdicts h.matched_eq h.position hverdict hverdict'⟩
  · exact .inr ⟨after, after', hhalt.bind _, hhalt'.bind _⟩

/-- **Texts and sequences of characters agree.** Between any two places of a text, a rule without foreign
rules does over text cursors what it does over the sequence of the characters, from the same flags,
variables and cells on: it matches in both or in neither, stops at the same character, and leaves the same
reports in the same order. Consequently the answers about the whole inputs fall into the same case. -/
theorem Rule.parse_text_as_sequence (text : List Char) (hfits : TextCursor.Fits text)
    (cells : Cells Char β γ) (rule : Rule Char β γ) (hforeign : ∀ f, ¬ Mentions cells rule f)
    (foreign : γ → TextCursor → TextCursor → Match TextCursor)
    (foreign' : γ → SliceCursor Char → SliceCursor Char → Match (SliceCursor Char)) (depth : Nat)
    (before : Store TextCursor β) (before' : Store (SliceCursor Char) β)
    (hraised : before.raised = before'.raised) (hmemory : before.memory = before'.memory)
    (source source' : Nat) :
    (∀ i j, i ≤ j → j ≤ text.length →
      let run := rule.parse foreign cells depth (.behind source (text.take i) (text.drop i))
        (.behind source (text.take j) (text.drop j))
      let run' := rule.parse foreign' cells depth ⟨source', i, text.length, text.drop i⟩
        ⟨source', j, text.length, text.drop j⟩
      (∃ m m' after after', run.Ends before m after ∧ run'.Ends before' m' after' ∧
        m.matched = m'.matched ∧
        m'.position.index ≤ j ∧ m.position.offset = Text.bytes (text.take m'.position.index) ∧
        after.raised = after'.raised ∧ after.memory = after'.memory ∧
        ∃ new new', after.trail = new ++ before.trail ∧ after'.trail = new' ++ before'.trail ∧
          new.filterMap Event.report? = new'.filterMap Event.report?) ∨
      ∃ after after', run.Halts before .unending after ∧ run'.Halts before' .unending after') ∧
    ∃ stop, TextCursor.ending source text = .ok stop ∧
      let run := Recognizer.whole (rule.parse foreign cells depth) (.beginning source text) stop
      let run' := Recognizer.whole (rule.parse foreign' cells depth) (.beginning source' text)
        (.ending source' text)
      (∃ answer answer' after after', run.Ends before answer after ∧ run'.Ends before' answer' after' ∧
        SameCase text answer answer') ∨
      ∃ after after', run.Halts before .unending after ∧ run'.Halts before' .unending after' := by
  have hlength : text.length < Size.bound := Steps.length_lt (κ := TextCursor) hfits
  have hagree : ∀ v w : Window Char, v.data = text → w.data = text → v.elements = w.elements →
      Meaning.Agree v w before before' (rule.parse foreign cells depth)
        (rule.parse foreign' cells depth) := by
    intro v w hv hw heq
    exact agree_parse hforeign foreign foreign' depth (hv ▸ hfits) (hw ▸ hlength) heq hraised hmemory
  refine ⟨?_, _, TextCursor.ending_eq source hfits, ?_⟩
  · intro i j hij hj
    have hboth := hagree (.between source text hij hj) (.between source' text hij hj) rfl rfl rfl
    rw [Meaning.Agree, Window.limit_between, Window.limit_between] at hboth
    rcases hboth with ⟨m, m', after, after', hend, hend', h⟩ | hhalts
    · obtain ⟨n, hn, -, hposition, hposition'⟩ := h.position
      obtain ⟨new, new', htrail, htrail', -, hreports⟩ := h.events
      have hindex : m'.position.index = i + n := by
        rw [hposition']
        rfl
      have hoffset : m.position.offset = Text.bytes (text.take (i + n)) := by
        rw [hposition]
        rfl
      have hinside : n ≤ j - i := hn
      refine .inl ⟨m, m', after, after', hend, hend', h.matched_eq, by omega, ?_, h.raised_eq,
        h.memory_eq, new, new', htrail, htrail', hreports⟩
      rw [hoffset, hindex]
    · exact .inr hhalts
  · have hwhole := (hagree (.whole source text) (.whole source' text) rfl rfl rfl).sameCase hlength
    rwa [TextCursor.whole_limit, SliceCursor.whole_limit] at hwhole

/-- From the newline of a text up to the letter behind it, which has two bytes: over the characters the rule
stops behind three of them, and therefore over the text behind four bytes, with the same report. -/
theorem Rule.parse_text_as_sequence_line :
    let text : List Char := ['a', '\n', 'é', 'b']
    let rule : Rule Char String Empty :=
      .onSuccess (.seq (.onFailure (.element '\n') "same line") (.star .any)) (.record "line")
    let parse : Meaning TextCursor String := rule.parse nofun [] 0
    let parse' : Meaning (SliceCursor Char) String := rule.parse nofun [] 0
    ∃ m m' after after',
      (parse (.behind 0 (text.take 1) (text.drop 1)) (.behind 0 (text.take 3) (text.drop 3))).Ends {} m
        after ∧
      (parse' ⟨1, 1, 4, text.drop 1⟩ ⟨1, 3, 4, text.drop 3⟩).Ends {} m' after' ∧
      m.matched = true ∧ m'.position.index = 3 ∧ m.position.offset = 4 ∧
      after.trail.filterMap Event.report? = [.action "line" ['\n', 'é']] := by
  intro text rule parse parse'
  have hfits : TextCursor.Fits text := by
    show Text.bytes _ < 2 ^ 63
    decide
  have hrun : ∃ m' after', (parse' ⟨1, 1, 4, text.drop 1⟩ ⟨1, 3, 4, text.drop 3⟩).Ends {} m' after' ∧
      m'.matched = true ∧ m'.position.index = 3 ∧ after'.trail.filterMap Event.report? =
        [.action "line" ['\n', 'é']] := ⟨_, _, rfl, rfl, rfl, rfl⟩
  obtain ⟨m', after', hend', hmatched, hindex, hreports⟩ := hrun
  obtain ⟨hranges, -⟩ := Rule.parse_text_as_sequence text hfits [] rule nofun nofun nofun 0 {} {} rfl
    rfl 0 1
  -- The run over the text is not evaluated: all that is said about it comes from the other one.
  rcases hranges 1 3 (by decide) (by decide) with
    ⟨m, m'', after, after'', hend, hend'', hsame, -, hoffset, -, -, new, new', htrail, htrail', hnew⟩ |
      ⟨_, _, -, hhalt⟩
  · obtain ⟨rfl, rfl⟩ := hend'.unique hend''
    refine ⟨m, m', after, after', hend, hend', hsame.trans hmatched, hindex, ?_, ?_⟩
    · rw [hoffset, hindex]
      rfl
    · rw [htrail, List.append_nil, hnew, ← hreports, htrail', List.append_nil]
  · exact absurd hend' (not_ends_of_halts hhalt)

end Pegwork
