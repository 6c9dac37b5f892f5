import Pegwork.Proofs.Twin.Rule
import Pegwork.Whole

/-!
# Parses stay in their range

A window is its own twin. Seen that way, what is known about rules in twin windows becomes a statement
about one run: it never overflows, and a match ends behind some number of elements of the window. Foreign
rules may take part as long as they stay in the window themselves (`Window.Keeps`).

For texts this means that every position a parse gives back is the true one: the newlines, the characters
since the last of them and the bytes of what lies before it. `Recognizer.Answered` says what follows for
the answers about whole inputs.
-/

namespace Pegwork

variable {κ α β γ : Type} [Cursor κ α] [Track κ α] [Steps κ α]

open Recognizer Run

/-! ## A window and itself -/

/-- Wherever it is started in the window, a match of the function ends in the window, not before its
start. -/
def Window.Keeps (w : Window α) (f : κ → κ → Match κ) : Prop :=
  ∀ x, x ≤ w.length → (f (w.cursor x) w.limit).matched = true →
    ∃ y, x ≤ y ∧ y ≤ w.length ∧ (f (w.cursor x) w.limit).position = w.cursor y

/-- A window as its own twin. Linked cursors are equal. -/
def Twin.self (w : Window α) (hfits : Steps.Fits κ w.data) : Twin κ κ where
  left := w
  right := w
  fits_left := hfits
  fits_right := hfits
  elements_eq := rfl
  Linked := Eq
  linked_cursor _ _ := rfl

/-- Outcomes that agree in a window and itself are equal. -/
theorem Match.Alike.eq_of_self {w : Window α} {hfits : Steps.Fits κ w.data} {x : Nat} {m m' : Match κ}
    (h : Match.Alike (Twin.self w hfits) x m m') : m = m' := by
  obtain ⟨hmatched, hstart, hposition, -⟩ := h
  obtain ⟨matched, position, start⟩ := m
  cases hmatched
  cases hstart
  cases hposition
  rfl

theorem Window.Keeps.alike {w : Window α} {f : κ → κ → Match κ} (hf : w.Keeps f)
    (hfits : Steps.Fits κ w.data) {σ τ : Type} {S : σ → τ → Prop} {H : Halt → Prop} :
    Recognizer.Alike (Twin.self w hfits) S H 0 0 (ofFunction f) (ofFunction f) := by
  intro x _ hx
  refine paired_pure ⟨rfl, rfl, rfl, fun hmatched => ?_⟩
  obtain ⟨y, hxy, hy, hposition⟩ := hf x hx hmatched
  exact ⟨y, hxy, hy, hposition, hposition⟩

/-- A run of a rule in a window ends in the window, or it is given up because of its depth. -/
theorem Rule.parse_cases [Element α] [DecidableEq α] {w : Window α} (hfits : Steps.Fits κ w.data)
    {foreign : γ → κ → κ → Match κ} {cells : Cells α β γ} {rule : Rule α β γ}
    (hforeign : ∀ f, Mentions cells rule f → w.Keeps (foreign f)) (depth : Nat) (before : Store κ β) :
    (∃ m after, (rule.parse foreign cells depth (w.cursor 0) w.limit).Ends before m after ∧
      (m.matched = true → ∃ n, n ≤ w.length ∧ m.position = w.cursor n)) ∨
    ∃ after, (rule.parse foreign cells depth (w.cursor 0) w.limit).Halts before .unending after := by
  have halike : Meaning.Alike (Twin.self w hfits) before before (· = .unending) 0 0
      (rule.parse foreign cells depth) (rule.parse foreign cells depth) :=
    Rule.alike_parse depth fun f hf => (hforeign f hf).alike hfits
  rcases halike 0 (Nat.le_refl 0) (Nat.zero_le _) before before (Store.alike_refl rfl rfl) with
    ⟨m, m', after, after', hend, -, hm, -⟩ | ⟨-, after, after', hhalt, -, rfl⟩
  · refine .inl ⟨m, after, hend, fun hmatched => ?_⟩
    obtain ⟨n, -, hn, hposition, -⟩ := hm.level hmatched
    exact ⟨n, hn, hposition⟩
  · exact .inr ⟨after, hhalt⟩

/-! ## One range -/

/-- In a window the recognizer never overflows, and its matches end at places inside. The places of the
input are given by their indices. -/
structure Recognizer.Ranged {σ : Type} (a : Recognizer κ σ) (w : Window α) (place : Nat → κ) : Prop where
  no_overflow : ∀ before after, ¬ (a (w.cursor 0) w.limit).Halts before .overflow after
  inside : ∀ before m after, (a (w.cursor 0) w.limit).Ends before m after → m.matched = true →
    ∃ n, w.first ≤ n ∧ n ≤ w.first + w.length ∧ m.position = place n

theorem Rule.ranged_parse [Element α] [DecidableEq α] {w : Window α} (hfits : Steps.Fits κ w.data)
    {foreign : γ → κ → κ → Match κ} {cells : Cells α β γ} {rule : Rule α β γ}
    (hforeign : ∀ f, Mentions cells rule f → w.Keeps (foreign f)) (depth : Nat) :
    (rule.parse foreign cells depth : Meaning κ β).Ranged w (Track.place w.source w.data) := by
  constructor
  · intro before after hoverflow
    rcases parse_cases hfits hforeign depth before with ⟨m, t, hend, -⟩ | ⟨t, hhalt⟩
    · exact not_ends_of_halts hoverflow hend
    · have heq := hoverflow.symm.trans hhalt
      simp at heq
  · intro before m after hend hmatched
    rcases parse_cases hfits hforeign depth before with ⟨m', t, hend', hinside⟩ | ⟨t, hhalt⟩
    · obtain ⟨rfl, rfl⟩ := hend.unique hend'
      obtain ⟨n, hn, hposition⟩ := hinside hmatched
      exact ⟨w.first + n, by omega, by omega, hposition⟩
    · exact absurd hend (not_ends_of_halts hhalt)

/-! ## Whole inputs -/

/-- How the answer about a whole input is made from the outcome of the rule. -/
inductive Recognizer.Verdict (source : Nat) (data : List α) (m : Match κ) :
    Except ParseError κ → Prop where
  /-- The rule has failed. -/
  | noMatch : m.matched = false → Verdict source data m (.error (.noMatch (Steps.locate κ data 0)))
  /-- The rule has come to the end. -/
  | accepted : m.matched = true → m.position = (Window.whole source data).limit →
      Verdict source data m (.ok (Window.whole source data).limit)
  /-- The rule has stopped before the end. -/
  | trailing {n : Nat} : m.matched = true → n < data.length →
      m.position = (Window.whole source data).cursor n →
      Verdict source data m (.error (.trailingInput (Steps.locate κ data n)))

/-- A rule that ends inside the input has an answer made from its outcome, in the same state. -/
theorem Recognizer.whole_ends {σ : Type} {a : Recognizer κ σ} {source : Nat} {data : List α}
    (hdata : data.length < Size.bound) {before after : σ} {m : Match κ}
    (hend : (a ((Window.whole source data).cursor 0) (Window.whole source data).limit).Ends before m after)
    (hinside : m.matched = true → ∃ n, n ≤ data.length ∧ m.position = (Window.whole source data).cursor n) :
    ∃ answer, (a.whole ((Window.whole source data).cursor 0) (Window.whole source data).limit).Ends
      before answer after ∧ Verdict source data m answer := by
  have hlocate : ∀ n, n + 1 < Size.bound → Cursor.position ((Window.whole source data).cursor n : κ) =
      .ok (Steps.locate κ data n) := by
    intro n hn
    rw [← Nat.zero_add n] at hn
    simpa [Window.cursor, Window.whole] using Steps.position_place (κ := κ) source data hn
  by_cases hmatched : m.matched = true
  · obtain ⟨n, hn, hposition⟩ := hinside hmatched
    have hsame : Walk.same m.position (Window.whole source data).limit = decide (n = data.length) := by
      rw [hposition]
      exact (Window.whole source data).same_cursor hn (Nat.le_refl _)
    by_cases hall : n = data.length
    · refine ⟨_, ends_bind.2 ⟨m, after, hend, ?_⟩, .accepted hmatched ?_⟩
      · simp only [hmatched, hsame, hall, decide_true, Bool.not_true, Bool.false_eq_true, if_false]
        exact ends_pure.2 ⟨rfl, rfl⟩
      · rw [hposition, hall]
        rfl
    · refine ⟨_, ends_bind.2 ⟨m, after, hend, ?_⟩, .trailing hmatched (by omega) hposition⟩
      simp only [hmatched, hsame, hall, decide_false, Bool.not_true, Bool.not_false, Bool.false_eq_true,
        if_false, if_true]
      exact ends_bind.2 ⟨_, after, ends_lift.2 ⟨hposition ▸ hlocate n (by omega), rfl⟩,
        ends_pure.2 ⟨rfl, rfl⟩⟩
  · have hfailed : m.matched = false := Bool.eq_false_iff.2 hmatched
    refine ⟨_, ends_bind.2 ⟨m, after, hend, ?_⟩, .noMatch hfailed⟩
    simp only [hfailed, Bool.not_false, if_true]
    exact ends_bind.2 ⟨_, after, ends_lift.2 ⟨hlocate 0 (by decide), rfl⟩, ends_pure.2 ⟨rfl, rfl⟩⟩

/-- What the answers about a whole input say. The input has `length` elements and ends at the offset
`size`; the place behind its first `n` elements is `place n`, and messages call it `locate n`. -/
structure Recognizer.Answered {σ : Type} (a : Recognizer κ σ) (start stop : κ) (length size : Nat)
    (place : Nat → κ) (locate : Nat → Position) : Prop where
  no_overflow : ∀ before after, ¬ (a.whole start stop).Halts before .overflow after
  /-- An accepted input is consumed up to its end, which is the answer. -/
  accepted : ∀ before c after, (a.whole start stop).Ends before (.ok c) after →
    c = stop ∧ ∃ m, (a start stop).Ends before m after ∧ m.matched = true ∧ m.position = stop
  /-- A rule that fails is reported at the beginning. -/
  noMatch : ∀ before p after, (a.whole start stop).Ends before (.error (.noMatch p)) after →
    p = ⟨1, 1, 0⟩ ∧ ∃ m, (a start stop).Ends before m after ∧ m.matched = false
  /-- A rule that stops too early is reported where it has stopped, in front of the end. -/
  trailing : ∀ before p after, (a.whole start stop).Ends before (.error (.trailingInput p)) after →
    ∃ m n, (a start stop).Ends before m after ∧ m.matched = true ∧ n < length ∧
      m.position = place n ∧ p = locate n ∧ p.offset < size

namespace Rule

variable [Element α] [DecidableEq α] {foreign : γ → κ → κ → Match κ} {cells : Cells α β γ}
  {rule : Rule α β γ}

/-- A rule over a whole input has an answer, or it is given up because of its depth. -/
theorem whole_cases {source : Nat} {data : List α} (hfits : Steps.Fits κ data)
    (hforeign : ∀ f, Mentions cells rule f → (Window.whole source data).Keeps (foreign f)) (depth : Nat)
    (before : Store κ β) :
    (∃ m answer after,
      (rule.parse foreign cells depth ((Window.whole source data).cursor 0)
        (Window.whole source data).limit).Ends before m after ∧
      (Recognizer.whole (rule.parse foreign cells depth) ((Window.whole source data).cursor 0)
        (Window.whole source data).limit).Ends before answer after ∧
      Verdict source data m answer) ∨
    ∃ after, (Recognizer.whole (rule.parse foreign cells depth) ((Window.whole source data).cursor 0)
      (Window.whole source data).limit).Halts before .unending after := by
  rcases parse_cases (w := Window.whole source data) hfits hforeign depth before with
    ⟨m, after, hend, hinside⟩ | ⟨after, hhalt⟩
  · obtain ⟨answer, hanswer, hverdict⟩ := whole_ends (Steps.length_lt hfits) hend hinside
    exact .inl ⟨m, answer, after, hend, hanswer, hverdict⟩
  · exact .inr ⟨after, hhalt.bind _⟩

/-- Behind an answer there is an outcome of the rule. -/
theorem verdict_of_whole_ends {source : Nat} {data : List α} (hfits : Steps.Fits κ data)
    (hforeign : ∀ f, Mentions cells rule f → (Window.whole source data).Keeps (foreign f)) {depth : Nat}
    {before after : Store κ β} {answer : Except ParseError κ}
    (hanswer : (Recognizer.whole (rule.parse foreign cells depth) ((Window.whole source data).cursor 0)
      (Window.whole source data).limit).Ends before answer after) :
    ∃ m, (rule.parse foreign cells depth ((Window.whole source data).cursor 0)
      (Window.whole source data).limit).Ends before m after ∧ Verdict source data m answer := by
  rcases whole_cases hfits hforeign depth before with ⟨m, answer', t, hend, hanswer', hverdict⟩ | ⟨t, hhalt⟩
  · obtain ⟨rfl, rfl⟩ := hanswer.unique hanswer'
    exact ⟨m, hend, hverdict⟩
  · exact absurd hanswer (not_ends_of_halts hhalt)

theorem answered_parse {source size : Nat} {data : List α} (hfits : Steps.Fits κ data)
    (hforeign : ∀ f, Mentions cells rule f → (Window.whole source data).Keeps (foreign f)) (depth : Nat)
    (hstart : Steps.locate κ data 0 = ⟨1, 1, 0⟩)
    (hsize : ∀ n, n < data.length → (Steps.locate κ data n).offset < size) :
    (rule.parse foreign cells depth : Meaning κ β).Answered ((Window.whole source data).cursor 0)
      (Window.whole source data).limit data.length size (Track.place source data)
      (Steps.locate κ data) := by
  constructor
  · intro before after hoverflow
    rcases whole_cases hfits hforeign depth before with ⟨m, answer, t, -, hanswer, -⟩ | ⟨t, hhalt⟩
    · exact not_ends_of_halts hoverflow hanswer
    · have heq := hoverflow.symm.trans hhalt
      simp at heq
  · intro before c after hc
    obtain ⟨m, hend, hverdict⟩ := verdict_of_whole_ends hfits hforeign hc
    cases hverdict with
    | accepted hmatched hposition => exact ⟨rfl, m, hend, hmatched, hposition⟩
  · intro before q after hq
    obtain ⟨m, hend, hverdict⟩ := verdict_of_whole_ends hfits hforeign hq
    cases hverdict with
    | noMatch hfailed => exact ⟨hstart, m, hend, hfailed⟩
  · intro before q after hq
    obtain ⟨m, hend, hverdict⟩ := verdict_of_whole_ends hfits hforeign hq
    cases hverdict with
    | @trailing n hmatched hn hposition =>
      refine ⟨m, n, hend, hmatched, hn, ?_, rfl, hsize n hn⟩
      rw [hposition, Window.cursor, Window.whole, Nat.zero_add]

end Rule

/-! ## Texts and sequences -/

theorem TextCursor.whole_limit (source : Nat) (text : List Char) :
    (Window.whole source text).limit = behind source text [] := by
  simp [Window.limit, Window.cursor, Window.whole, Track.place]

theorem SliceCursor.whole_limit (source : Nat) (data : List α) :
    (Window.whole source data).limit = ending source data := by
  simp [Window.limit, Window.cursor, Window.whole, Track.place, ending]

/-- **Parses stay in their range, with true cursors.** In every window of a text or of a sequence a rule
never overflows, and a match ends at a place inside. Over a text that place has the line, the column and
the offset of the characters before it. Consequently the answers about whole inputs are at the beginning,
at the place where the rule has stopped in front of the end, or at the end; and cursors of one text with
the same offset have the same line and column. Foreign rules may take part if they stay in the window. -/
theorem Rule.parse_keeps_range {α β γ : Type} [Element α] [DecidableEq α] :
    (∀ (w : Window Char) (foreign : γ → TextCursor → TextCursor → Match TextCursor)
      (cells : Cells Char β γ) (rule : Rule Char β γ) (depth : Nat), TextCursor.Fits w.data →
      (∀ f, Mentions cells rule f → w.Keeps (foreign f)) →
      (rule.parse foreign cells depth : Meaning TextCursor β).Ranged w fun n =>
        .behind w.source (w.data.take n) (w.data.drop n)) ∧
    (∀ (w : Window α) (foreign : γ → SliceCursor α → SliceCursor α → Match (SliceCursor α))
      (cells : Cells α β γ) (rule : Rule α β γ) (depth : Nat), w.data.length < Size.bound →
      (∀ f, Mentions cells rule f → w.Keeps (foreign f)) →
      (rule.parse foreign cells depth : Meaning (SliceCursor α) β).Ranged w fun n =>
        ⟨w.source, n, w.data.length, w.data.drop n⟩) ∧
    (∀ (source : Nat) (text : List Char) (foreign : γ → TextCursor → TextCursor → Match TextCursor)
      (cells : Cells Char β γ) (rule : Rule Char β γ) (depth : Nat), TextCursor.Fits text →
      (∀ f, Mentions cells rule f → (Window.whole source text).Keeps (foreign f)) →
      ∃ stop, TextCursor.ending source text = .ok stop ∧ stop.position = Position.behind text ∧
        (rule.parse foreign cells depth : Meaning TextCursor β).Answered (.beginning source text) stop
          text.length (Text.bytes text) (fun n => .behind source (text.take n) (text.drop n))
          fun n => Position.behind (text.take n)) ∧
    (∀ (source : Nat) (data : List α)
      (foreign : γ → SliceCursor α → SliceCursor α → Match (SliceCursor α))
      (cells : Cells α β γ) (rule : Rule α β γ) (depth : Nat), data.length < Size.bound →
      (∀ f, Mentions cells rule f → (Window.whole source data).Keeps (foreign f)) →
      (rule.parse foreign cells depth : Meaning (SliceCursor α) β).Answered (.beginning source data)
        (.ending source data) data.length data.length (fun n => ⟨source, n, data.length, data.drop n⟩)
        fun n => ⟨1, n + 1, n⟩) ∧
    (∀ (source : Nat) (before rest before' rest' : List Char), before ++ rest = before' ++ rest' →
      (TextCursor.behind source before rest).offset = (TextCursor.behind source before' rest').offset →
      (TextCursor.behind source before rest).position =
        (TextCursor.behind source before' rest').position) := by
  refine ⟨?_, ?_, ?_, ?_, ?_⟩
  · intro w foreign cells rule depth hfits hforeign
    exact ranged_parse hfits hforeign depth
  · intro w foreign cells rule depth hfits hforeign
    exact ranged_parse hfits hforeign depth
  · intro source text foreign cells rule depth hfits hforeign
    refine ⟨_, TextCursor.ending_eq source hfits, rfl, ?_⟩
    have hsize : ∀ n, n < text.length → Text.bytes (text.take n) < Text.bytes text := by
      intro n hn
      have hlt := TextCursor.bytes_take_lt hn hn
      rwa [List.take_length] at hlt
    have hanswered := answered_parse (β := β) hfits hforeign depth rfl hsize
    rw [TextCursor.whole_limit] at hanswered
    exact hanswered
  · intro source data foreign cells rule depth hfits hforeign
    have hanswered := answered_parse (β := β) (κ := SliceCursor α) hfits hforeign depth rfl
      fun n hn => hn
    rw [SliceCursor.whole_limit] at hanswered
    exact hanswered
  · intro source before rest before' rest' hwhole hoffset
    obtain ⟨rfl, -⟩ := Text.append_inj_of_bytes hwhole hoffset
    rfl

/-- A foreign rule that stays where it is, a two-byte letter with a newline, and one more character: the
rest of the text is reported on the second line, behind four bytes. -/
theorem Rule.parse_keeps_range_second_line :
    let text : List Char := ['é', '\n', 'b', 'c']
    let rule : Rule Char String Unit := .seq (.foreign ()) (.seq (.literal "é\n") .any)
    let parse : Meaning TextCursor String := rule.parse (fun _ i _ => .stay true i) [] 0
    ∃ stop after m n, TextCursor.ending 0 text = .ok stop ∧
      (parse.whole (.beginning 0 text) stop).Ends {} (.error (.trailingInput ⟨2, 2, 4⟩)) after ∧
      (parse (.beginning 0 text) stop).Ends {} m after ∧ m.matched = true ∧ n < 4 ∧
      m.position = .behind 0 (text.take n) (text.drop n) ∧
      ⟨2, 2, 4⟩ = Position.behind (text.take n) := by
  intro text rule parse
  have hfits : TextCursor.Fits text := by
    show Text.bytes _ < 2 ^ 63
    decide
  have hkeeps : ∀ f, Mentions [] rule f → (Window.whole 0 text).Keeps
      fun i (_ : TextCursor) => Match.stay true i :=
    fun _ _ x hx _ => ⟨x, Nat.le_refl x, hx, rfl⟩
  obtain ⟨-, -, htext, -, -⟩ := @Rule.parse_keeps_range Char String Unit _ _
  obtain ⟨stop, hstop, -, hanswered⟩ :=
    htext 0 text (fun _ i _ => .stay true i) [] rule 0 hfits hkeeps
  -- The run itself is evaluated; what its answer means comes from the theorem.
  have hend : ∃ after, (parse.whole (.beginning 0 text) stop).Ends {}
      (.error (.trailingInput ⟨2, 2, 4⟩)) after := by
    rw [TextCursor.ending_eq 0 hfits] at hstop
    cases hstop
    exact ⟨_, rfl⟩
  obtain ⟨after, hend⟩ := hend
  obtain ⟨m, n, hm, hmatched, hn, hposition, hlocate, -⟩ := hanswered.trailing _ _ _ hend
  exact ⟨stop, after, m, n, hstop, hend, hm, hmatched, hn, hposition, hlocate⟩

end Pegwork
