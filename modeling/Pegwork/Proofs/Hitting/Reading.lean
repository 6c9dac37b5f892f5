import Pegwork.Hitting.Reader
import Pegwork.Proofs.Cursor.Place

/-!
# Rules of the model grammar on a text

How the rules that the model grammar is built from behave between the characters `before` and the
characters that are left, with the end of the whole text as their limit.

* `Matches rule before text rest c d`: the rule consumes exactly `text` in front of `rest`.
* `Misses rule before rest c d`: the rule fails in front of `rest`.

In both cases the marks on the trail amount to the captures `c` before and to `d` after, so that the
trail itself need not be mentioned. There is one lemma for each shape and outcome; a rule of the
grammar is then followed by following its shape.
-/

namespace Pegwork.Hitting

open TextCursor Run

/-- What a rule of the grammar does. -/
def meaning (rule : MarkedRule) : Meaning TextCursor Mark := rule.parse nofun [] 0

/-- What the marks on a trail amount to. -/
def captured (s : Store TextCursor Mark) : Captures := Captures.replay s.events

theorem captured_record (s : Store TextCursor Mark) (e : Event TextCursor Mark) :
    captured (s.record e) = (captured s).event e := by
  simp [captured, Captures.replay, Store.events, Store.record]

/-- The rule consumes `text` in front of `rest`, and takes the captures from `c` to `d`. -/
def Matches (rule : MarkedRule) (before text rest : List Char) (c d : Captures) : Prop :=
  Fits (before ++ (text ++ rest)) → ∀ s, captured s = c → ∃ t, captured t = d ∧
    (meaning rule (behind 0 before (text ++ rest)) (behind 0 (before ++ (text ++ rest)) [])).Ends s
      (.success (behind 0 before (text ++ rest)) (behind 0 (before ++ text) rest)) t

/-- The rule fails in front of `rest`, and takes the captures from `c` to `d`. -/
def Misses (rule : MarkedRule) (before rest : List Char) (c d : Captures) : Prop :=
  Fits (before ++ rest) → ∀ s, captured s = c → ∃ t, captured t = d ∧
    (meaning rule (behind 0 before rest) (behind 0 (before ++ rest) [])).Ends s
      (.failure (behind 0 before rest)) t

variable {a b : MarkedRule} {before text more rest : List Char} {c d e : Captures}

/-! ## Sequences and choices -/

theorem matches_seq (ha : Matches a before text (more ++ rest) c d)
    (hb : Matches b (before ++ text) more rest d e) :
    Matches (.seq a b) before (text ++ more) rest c e := by
  intro hfits s hs
  rw [List.append_assoc text more rest] at hfits ⊢
  obtain ⟨t, ht, hfirst⟩ := ha hfits s hs
  -- The second rule starts where the first has stopped, in front of what is left of the text.
  rw [← List.append_assoc before text] at hfits
  obtain ⟨u, hu, hsecond⟩ := hb hfits t ht
  rw [List.append_assoc] at hsecond
  refine ⟨u, hu, ends_bind.2 ⟨_, t, hfirst, ?_⟩⟩
  refine ends_bind.2 ⟨_, u, hsecond, ends_pure.2 ⟨?_, rfl⟩⟩
  rw [← List.append_assoc before text more]
  rfl

theorem misses_seq_first (ha : Misses a before rest c d) : Misses (.seq a b) before rest c d := by
  intro hfits s hs
  obtain ⟨t, ht, hfirst⟩ := ha hfits s hs
  exact ⟨t, ht, ends_bind.2 ⟨_, t, hfirst, ends_pure.2 ⟨rfl, rfl⟩⟩⟩

theorem misses_seq_second (ha : Matches a before text rest c d)
    (hb : Misses b (before ++ text) rest d e) :
    Misses (.seq a b) before (text ++ rest) c e := by
  intro hfits s hs
  obtain ⟨t, ht, hfirst⟩ := ha hfits s hs
  rw [← List.append_assoc before text] at hfits
  obtain ⟨u, hu, hsecond⟩ := hb hfits t ht
  rw [List.append_assoc] at hsecond
  refine ⟨u, hu, ends_bind.2 ⟨_, t, hfirst, ?_⟩⟩
  exact ends_bind.2 ⟨_, u, hsecond, ends_pure.2 ⟨rfl, rfl⟩⟩

theorem matches_choice_first (ha : Matches a before text rest c d) :
    Matches (.choice a b) before text rest c d := by
  intro hfits s hs
  obtain ⟨t, ht, hfirst⟩ := ha hfits s hs
  exact ⟨t, ht, ends_bind.2 ⟨_, t, hfirst, ends_pure.2 ⟨rfl, rfl⟩⟩⟩

theorem matches_choice_second (ha : Misses a before (text ++ rest) c d)
    (hb : Matches b before text rest d e) : Matches (.choice a b) before text rest c e := by
  intro hfits s hs
  obtain ⟨t, ht, hfirst⟩ := ha hfits s hs
  obtain ⟨u, hu, hsecond⟩ := hb hfits t ht
  refine ⟨u, hu, ends_bind.2 ⟨_, t, hfirst, ?_⟩⟩
  exact ends_bind.2 ⟨_, u, hsecond, ends_pure.2 ⟨rfl, rfl⟩⟩

theorem misses_choice (ha : Misses a before rest c d) (hb : Misses b before rest d e) :
    Misses (.choice a b) before rest c e := by
  intro hfits s hs
  obtain ⟨t, ht, hfirst⟩ := ha hfits s hs
  obtain ⟨u, hu, hsecond⟩ := hb hfits t ht
  refine ⟨u, hu, ends_bind.2 ⟨_, t, hfirst, ?_⟩⟩
  exact ends_bind.2 ⟨_, u, hsecond, ends_pure.2 ⟨rfl, rfl⟩⟩

theorem matches_optional_some (ha : Matches a before text rest c d) :
    Matches (.optional a) before text rest c d := by
  intro hfits s hs
  obtain ⟨t, ht, hfirst⟩ := ha hfits s hs
  exact ⟨t, ht, ends_bind.2 ⟨_, t, hfirst, ends_pure.2 ⟨rfl, rfl⟩⟩⟩

theorem matches_optional_none (ha : Misses a before rest c d) :
    Matches (.optional a) before [] rest c d := by
  intro hfits s hs
  obtain ⟨t, ht, hfirst⟩ := ha hfits s hs
  refine ⟨t, ht, ends_bind.2 ⟨_, t, hfirst, ends_pure.2 ⟨?_, rfl⟩⟩⟩
  rw [List.append_nil]
  rfl

/-! ## Looking ahead -/

theorem matches_negation (ha : Misses a before rest c d) :
    Matches (.negation a) before [] rest c d := by
  intro hfits s hs
  obtain ⟨t, ht, hinner⟩ := ha hfits s hs
  refine ⟨t, ht, ends_bind.2 ⟨_, t, hinner, ends_pure.2 ⟨?_, rfl⟩⟩⟩
  rw [List.append_nil]
  rfl

theorem misses_negation (ha : Matches a before text rest c d) :
    Misses (.negation a) before (text ++ rest) c d := by
  intro hfits s hs
  obtain ⟨t, ht, hinner⟩ := ha hfits s hs
  exact ⟨t, ht, ends_bind.2 ⟨_, t, hinner, ends_pure.2 ⟨rfl, rfl⟩⟩⟩

/-! ## Marks -/

theorem matches_marked (mark : Mark) (ha : Matches a before text rest c d) :
    Matches (Grammar.marked a mark) before text rest c
      (d.step (1 + before.count '\n') (String.ofList text) mark) := by
  intro hfits s hs
  obtain ⟨t, ht, hinner⟩ := ha hfits s hs
  -- The mark comes after all marks that the rule itself has left.
  refine ⟨t.record (.action mark (behind 0 before (text ++ rest)) (behind 0 (before ++ text) rest)),
    ?_, ends_bind.2 ⟨_, t, hinner, ?_⟩⟩
  · -- The slice that an action sees is the text that its rule consumed.
    rw [captured_record, ht, Captures.event, slice_behind]
    rfl
  · exact ends_modify_pure _ _ t

theorem misses_marked (mark : Mark) (ha : Misses a before rest c d) :
    Misses (Grammar.marked a mark) before rest c d := by
  intro hfits s hs
  obtain ⟨t, ht, hinner⟩ := ha hfits s hs
  exact ⟨t, ht, ends_bind.2 ⟨_, t, hinner, ends_pure.2 ⟨rfl, rfl⟩⟩⟩

/-! ## Terminals -/

/-- A terminal leaves the captures alone. -/
theorem matches_terminal {rule : MarkedRule} {t : Terminal TextCursor}
    (hrule : meaning rule = Recognizer.ofTerminal t)
    (h : Fits (before ++ (text ++ rest)) →
      t (behind 0 before (text ++ rest)) (behind 0 (before ++ (text ++ rest)) []) =
        .ok (.success (behind 0 before (text ++ rest)) (behind 0 (before ++ text) rest))) :
    Matches rule before text rest c c := by
  intro hfits s hs
  refine ⟨s, hs, ?_⟩
  rw [hrule]
  exact ends_lift.2 ⟨h hfits, rfl⟩

theorem misses_terminal {rule : MarkedRule} {t : Terminal TextCursor}
    (hrule : meaning rule = Recognizer.ofTerminal t)
    (h : Fits (before ++ rest) → t (behind 0 before rest) (behind 0 (before ++ rest) []) =
      .ok (.failure (behind 0 before rest))) :
    Misses rule before rest c c := by
  intro hfits s hs
  refine ⟨s, hs, ?_⟩
  rw [hrule]
  exact ends_lift.2 ⟨h hfits, rfl⟩

theorem matches_empty : Matches .empty before [] rest c c := by
  apply matches_terminal (t := Terminal.constant true) rfl
  intro _
  rw [List.append_nil]
  rfl

theorem cursor_next {x : Char} (h : Fits (before ++ x :: rest)) :
    Cursor.next (behind 0 before (x :: rest)) (behind 0 (before ++ x :: rest) []) =
      .ok (some (x, behind 0 (before ++ [x]) rest)) :=
  next_behind 0 h

theorem cursor_next_nil : Cursor.next (behind 0 before []) (behind 0 (before ++ []) []) = .ok none := by
  rw [List.append_nil]
  exact next_behind_limit 0 before []

theorem matches_satisfy {p : Char → Bool} {x : Char} (hx : p x = true) :
    Matches (.satisfy p) before [x] rest c c := by
  apply matches_terminal (t := Terminal.satisfy p) rfl
  intro hfits
  rw [List.singleton_append] at hfits ⊢
  rw [Terminal.satisfy, cursor_next hfits]
  simp [bind, Except.bind, pure, Except.pure, hx]

theorem misses_satisfy {p : Char → Bool} (hstop : ∀ x more, rest = x :: more → p x = false) :
    Misses (.satisfy p) before rest c c := by
  apply misses_terminal (t := Terminal.satisfy p) rfl
  intro hfits
  cases rest with
  | nil =>
    rw [Terminal.satisfy, cursor_next_nil]
    rfl
  | cons x more =>
    rw [Terminal.satisfy, cursor_next hfits]
    simp [bind, Except.bind, pure, Except.pure, hstop x more rfl]

/-- A literal walks past its characters one by one. -/
theorem literalFrom_word (word : List Char) (h : Fits (before ++ (word ++ rest))) :
    Terminal.literalFrom (behind 0 (before ++ (word ++ rest)) [])
      (word.map fun x y => Element.isChar y x) (behind 0 before (word ++ rest)) =
      .ok (some (behind 0 (before ++ word) rest)) := by
  induction word generalizing before with
  | nil => simp [Terminal.literalFrom]
  | cons x word ih =>
    rw [List.cons_append] at h ⊢
    have hassoc : before ++ x :: (word ++ rest) = (before ++ [x]) ++ (word ++ rest) := by simp
    -- The first character is the one that is asked for, and the rest follows from behind it.
    have hself : Element.isChar x x = true := by simp [Element.isChar]
    rw [List.map_cons, Terminal.literalFrom, cursor_next h]
    simp only [bind, Except.bind, hself, if_true]
    rw [hassoc, ih (hassoc ▸ h)]
    simp

theorem literalFrom_none (word : List Char) (h : Fits (before ++ rest)) (hword : ¬ word <+: rest) :
    Terminal.literalFrom (behind 0 (before ++ rest) []) (word.map fun x y => Element.isChar y x)
      (behind 0 before rest) = .ok none := by
  induction word generalizing before rest with
  | nil => exact absurd (List.nil_prefix) hword
  | cons x word ih =>
    cases rest with
    | nil =>
      rw [List.map_cons, Terminal.literalFrom, cursor_next_nil]
      rfl
    | cons y rest =>
      have hassoc : before ++ y :: rest = (before ++ [y]) ++ rest := by simp
      rw [List.map_cons, Terminal.literalFrom, cursor_next h]
      by_cases hxy : y = x
      · subst hxy
        have hshort : ¬ word <+: rest := by simpa using hword
        have hself : Element.isChar y y = true := by simp [Element.isChar]
        simp only [bind, Except.bind, hself, if_true]
        rw [hassoc, ih (hassoc ▸ h) hshort]
      · have hother : Element.isChar y x = false := by simp [Element.isChar, hxy]
        simp [bind, Except.bind, pure, Except.pure, hother]

theorem matches_literal (word : String) : Matches (.literal word) before word.toList rest c c := by
  apply matches_terminal (t := Terminal.literal (word.toList.map fun x y => Element.isChar y x)) rfl
  intro hfits
  rw [Terminal.literal, literalFrom_word word.toList hfits]
  rfl

theorem misses_literal {word : String} (hword : ¬ word.toList <+: rest) :
    Misses (.literal word) before rest c c := by
  apply misses_terminal (t := Terminal.literal (word.toList.map fun x y => Element.isChar y x)) rfl
  intro hfits
  rw [Terminal.literal, literalFrom_none word.toList hfits hword]
  rfl

theorem matches_element (x : Char) : Matches (.element x) before [x] rest c c :=
  matches_satisfy (p := fun y => y = x) (by simp)

theorem misses_element {x : Char} (hother : ∀ more, rest ≠ x :: more) :
    Misses (.element x) before rest c c := by
  apply misses_satisfy (p := fun y => y = x)
  rintro y more rfl
  have hxy : y ≠ x := fun h => hother more (h ▸ rfl)
  simpa using hxy

/-- No text is so long that the upper limit of a run or of a loop could matter. -/
theorem length_lt_top (h : Fits (before ++ rest)) : rest.length < Size.top := by
  have hlt := h.length_lt
  rw [List.length_append] at hlt
  unfold Size.top Size.bound
  omega

/-- A run takes all characters up to the first that does not satisfy its condition. -/
theorem runFrom_takeWhile {p : Char → Bool} {left count : Nat} (h : Fits (before ++ rest))
    (hleft : rest.length ≤ left) :
    Terminal.runFrom (behind 0 (before ++ rest) []) p left count (behind 0 before rest) =
      .ok (behind 0 (before ++ rest.takeWhile p) (rest.dropWhile p),
        count + (rest.takeWhile p).length) := by
  induction left generalizing before rest count with
  | zero =>
    -- There is as much left to try as there are characters, so nothing is left to read.
    have hnil : rest = [] := List.eq_nil_of_length_eq_zero (by omega)
    subst hnil
    simp [Terminal.runFrom]
  | succ left ih =>
    cases rest with
    | nil =>
      rw [Terminal.runFrom, cursor_next_nil]
      simp [bind, Except.bind, pure, Except.pure]
    | cons x rest =>
      have hassoc : before ++ x :: rest = (before ++ [x]) ++ rest := by simp
      have hshort : rest.length ≤ left := by simpa using hleft
      rw [Terminal.runFrom, cursor_next h]
      by_cases hx : p x = true
      · simp only [bind, Except.bind, hx, if_true]
        rw [hassoc, ih (hassoc ▸ h) hshort]
        simp only [List.takeWhile_cons, List.dropWhile_cons, hx, if_true, List.append_assoc,
          List.singleton_append, List.length_cons, Nat.add_assoc, Nat.add_comm 1]
      · simp [bind, Except.bind, pure, Except.pure, hx]

theorem takeWhile_append_stop {p : Char → Bool} (htext : ∀ x ∈ text, p x = true)
    (hstop : ∀ x more, rest = x :: more → p x = false) : (text ++ rest).takeWhile p = text := by
  rw [List.takeWhile_append_of_pos htext]
  cases rest with
  | nil => simp
  | cons x more => simp [hstop x more rfl]

theorem dropWhile_append_stop {p : Char → Bool} (htext : ∀ x ∈ text, p x = true)
    (hstop : ∀ x more, rest = x :: more → p x = false) : (text ++ rest).dropWhile p = rest := by
  rw [List.dropWhile_append_of_pos htext]
  cases rest with
  | nil => simp
  | cons x more => simp [hstop x more rfl]

/-- A run without an upper limit on a text that starts with enough characters to take. -/
theorem matches_run {p : Char → Bool} {least : Nat} (htext : ∀ x ∈ text, p x = true)
    (hstop : ∀ x more, rest = x :: more → p x = false) (hleast : least ≤ text.length) :
    Matches (.run p least Size.top) before text rest c c := by
  apply matches_terminal (t := Terminal.run p least Size.top) rfl
  intro hfits
  have hlength : (text ++ rest).length ≤ Size.top := Nat.le_of_lt (length_lt_top hfits)
  rw [Terminal.run, runFrom_takeWhile hfits hlength, takeWhile_append_stop htext hstop,
    dropWhile_append_stop htext hstop]
  simp [bind, Except.bind, pure, Except.pure, hleast]

theorem misses_run {p : Char → Bool} (hstop : ∀ x more, rest = x :: more → p x = false) :
    Misses (.run p 1 Size.top) before rest c c := by
  have htake : rest.takeWhile p = [] := by
    cases rest with
    | nil => rfl
    | cons x more => simp [hstop x more rfl]
  apply misses_terminal (t := Terminal.run p 1 Size.top) rfl
  intro hfits
  have hlength : rest.length ≤ Size.top := Nat.le_of_lt (length_lt_top hfits)
  rw [Terminal.run, runFrom_takeWhile hfits hlength, htake]
  simp [bind, Except.bind, pure, Except.pure]

/-! ## Searches -/

/-- One step of a search: its rule fails, and one character is skipped. -/
theorem findFrom_skip {x : Char} {start : TextCursor} {left : Nat} {m : Match TextCursor}
    (hfits : Fits (before ++ x :: rest)) (hmiss : Misses a before (x :: rest) c d)
    (htail : ∀ t, captured t = d → ∃ u, captured u = e ∧
      (Recognizer.findFrom (meaning a) start (behind 0 (before ++ [x] ++ rest) []) left
        (behind 0 (before ++ [x]) rest)).Ends t m u)
    {s : Store TextCursor Mark} (hs : captured s = c) :
    ∃ u, captured u = e ∧
      (Recognizer.findFrom (meaning a) start (behind 0 (before ++ x :: rest) []) (left + 1)
        (behind 0 before (x :: rest))).Ends s m u := by
  obtain ⟨t, ht, hinner⟩ := hmiss hfits s hs
  obtain ⟨u, hu, hrest⟩ := htail t ht
  -- There is a character in front of the limit, so the search goes on.
  have hopen : Walk.same (behind 0 before (x :: rest)) (behind 0 (before ++ x :: rest) []) = false := by
    apply Bool.eq_false_iff.2
    intro hsame
    obtain ⟨-, hnil⟩ := (same_behind_iff (by simp)).1 hsame
    cases hnil
  have hadvance : Walk.advance (behind 0 before (x :: rest)) = .ok (behind 0 (before ++ [x]) rest) :=
    advance_behind 0 hfits
  refine ⟨u, hu, ends_bind.2 ⟨_, t, hinner, ?_⟩⟩
  simp only [Match.failure_matched, Bool.false_eq_true, if_false, hopen]
  rw [hadvance]
  refine ends_bind.2 ⟨_, t, ends_lift.2 ⟨rfl, rfl⟩, ?_⟩
  rwa [← List.append_cons] at hrest

/-- A search skips what its rule fails at every place of, and then matches what its rule matches. -/
theorem findFrom_append {skipped : List Char} {start : TextCursor} {left : Nat}
    (hskip : ∀ l r, skipped = l ++ r → r ≠ [] → Misses a (before ++ l) (r ++ (text ++ rest)) c c)
    (hmatch : Matches a (before ++ skipped) text rest c c)
    (hfits : Fits (before ++ (skipped ++ (text ++ rest)))) (hleft : skipped.length < left)
    {s : Store TextCursor Mark} (hs : captured s = c) :
    ∃ t, captured t = c ∧
      (Recognizer.findFrom (meaning a) start (behind 0 (before ++ (skipped ++ (text ++ rest))) []) left
        (behind 0 before (skipped ++ (text ++ rest)))).Ends s
        (.success start (behind 0 (before ++ (skipped ++ text)) rest)) t := by
  induction skipped generalizing before left s with
  | nil =>
    cases left with
    | zero => cases hleft
    | succ left =>
      rw [List.append_nil] at hmatch
      obtain ⟨t, ht, hinner⟩ := hmatch hfits s hs
      exact ⟨t, ht, ends_bind.2 ⟨_, t, hinner, ends_pure.2 ⟨rfl, rfl⟩⟩⟩
  | cons x skipped ih =>
    cases left with
    | zero => cases hleft
    | succ left =>
      -- The rule fails at the first place, and the rest of what is skipped is one shorter.
      have hmiss := hskip [] (x :: skipped) rfl (by simp)
      rw [List.append_nil] at hmiss
      refine findFrom_skip hfits hmiss ?_ hs
      intro t ht
      have hskip' : ∀ l r, skipped = l ++ r → r ≠ [] →
          Misses a (before ++ [x] ++ l) (r ++ (text ++ rest)) c c := by
        intro l r hcut hr
        have hmiss := hskip (x :: l) r (by rw [hcut]; rfl) hr
        rwa [List.append_cons] at hmiss
      rw [List.append_cons] at hmatch
      rw [List.cons_append, List.append_cons] at hfits
      have htail := ih hskip' hmatch hfits (by simpa using hleft) ht
      rwa [List.cons_append, List.append_cons before x (skipped ++ text)]

theorem matches_find {skipped : List Char}
    (hskip : ∀ l r, skipped = l ++ r → r ≠ [] → Misses a (before ++ l) (r ++ (text ++ rest)) c c)
    (hmatch : Matches a (before ++ skipped) text rest c c) :
    Matches (.find a) before (skipped ++ text) rest c c := by
  intro hfits s hs
  rw [List.append_assoc skipped] at hfits ⊢
  have hleft : skipped.length < Size.bound := by
    have hlt := length_lt_top hfits
    rw [List.length_append] at hlt
    unfold Size.top at hlt
    omega
  exact findFrom_append hskip hmatch hfits hleft hs

/-- A search fails if its rule fails at every place that is left, the end included. -/
theorem findFrom_none {start : TextCursor} {left : Nat}
    (hskip : ∀ l r, rest = l ++ r → Misses a (before ++ l) r c c)
    (hfits : Fits (before ++ rest)) (hleft : rest.length < left)
    {s : Store TextCursor Mark} (hs : captured s = c) :
    ∃ t, captured t = c ∧
      (Recognizer.findFrom (meaning a) start (behind 0 (before ++ rest) []) left
        (behind 0 before rest)).Ends s (.failure start) t := by
  induction rest generalizing before left s with
  | nil =>
    cases left with
    | zero => cases hleft
    | succ left =>
      have hmiss := hskip [] [] rfl
      rw [List.append_nil] at hmiss
      obtain ⟨t, ht, hinner⟩ := hmiss hfits s hs
      -- At the limit the rule is tried once more before the search gives up.
      have hlimit : Walk.same (behind 0 before []) (behind 0 (before ++ []) []) = true :=
        (same_behind_iff (by simp)).2 ⟨by simp, rfl⟩
      refine ⟨t, ht, ends_bind.2 ⟨_, t, hinner, ?_⟩⟩
      simp only [Match.failure_matched, Bool.false_eq_true, if_false, hlimit, if_true]
      exact ends_pure.2 ⟨rfl, rfl⟩
  | cons x rest ih =>
    cases left with
    | zero => cases hleft
    | succ left =>
      have hmiss := hskip [] (x :: rest) rfl
      rw [List.append_nil] at hmiss
      refine findFrom_skip hfits hmiss ?_ hs
      intro t ht
      have hskip' : ∀ l r, rest = l ++ r → Misses a (before ++ [x] ++ l) r c c := by
        intro l r hcut
        have hmiss := hskip (x :: l) r (by rw [hcut]; rfl)
        rwa [List.append_cons] at hmiss
      rw [List.append_cons] at hfits
      exact ih hskip' hfits (by simpa using hleft) ht

theorem misses_find (hskip : ∀ l r, rest = l ++ r → Misses a (before ++ l) r c c) :
    Misses (.find a) before rest c c := by
  intro hfits s hs
  have hleft : rest.length < Size.bound :=
    Nat.lt_of_lt_of_le (length_lt_top hfits) (Nat.sub_le _ _)
  exact findFrom_none hskip hfits hleft hs

/-! ## Repetitions -/

/-- Any number of passes that consume something, and then a failure. -/
inductive Iterates (rule : MarkedRule) :
    (before text rest : List Char) → (c d : Captures) → Prop where
  | stop {before rest : List Char} {c d : Captures} :
      Misses rule before rest c d → Iterates rule before [] rest c d
  | pass {before text more rest : List Char} {c d e : Captures} : text ≠ [] →
      Matches rule before text (more ++ rest) c d → Iterates rule (before ++ text) more rest d e →
      Iterates rule before (text ++ more) rest c e

/-- One pass of the loop, with an empty separator in front of it or none. -/
theorem pass_empty {a : Recognizer TextCursor (Store TextCursor Mark)} {limit position : TextCursor}
    {count : Nat} {s t : Store TextCursor Mark} {m : Match TextCursor}
    (h : (a position limit).Ends s m t) :
    (Recognizer.pass a (meaning .empty) limit count position).Ends s m t := by
  unfold Recognizer.pass
  split
  · exact h
  · exact ends_bind.2 ⟨_, s, ends_lift.2 ⟨rfl, rfl⟩, h⟩

theorem repeatFrom_iterates {left : Nat} (count : Nat) (h : Iterates a before text rest c d)
    (hfits : Fits (before ++ (text ++ rest))) (hleft : text.length < left)
    {s : Store TextCursor Mark} (hs : captured s = c) :
    ∃ n t, captured t = d ∧
      (Recognizer.repeatFrom (meaning a) (meaning .empty) (.clamp 0 Size.top)
        (behind 0 (before ++ (text ++ rest)) []) left count (behind 0 before (text ++ rest))).Ends s
        (behind 0 (before ++ text) rest, n) t := by
  induction h generalizing left count s with
  | stop hmiss =>
    cases left with
    | zero => cases hleft
    | succ left =>
      obtain ⟨t, ht, hinner⟩ := hmiss hfits s hs
      refine ⟨count, t, ht, ends_bind.2 ⟨_, t, pass_empty hinner, ends_pure.2 ⟨?_, rfl⟩⟩⟩
      rw [List.append_nil]
      rfl
  | @pass before text more rest c d e htext hmatch _ ih =>
    cases left with
    | zero => cases hleft
    | succ left =>
      rw [List.append_assoc text more rest] at hfits ⊢
      obtain ⟨t, ht, hinner⟩ := hmatch hfits s hs
      -- The pass has moved, so the loop goes on.
      have hmoved : Walk.same (behind 0 (before ++ text) (more ++ rest))
          (behind 0 before (text ++ (more ++ rest))) = false := by
        apply Bool.eq_false_iff.2
        intro hsame
        obtain ⟨hnil, -⟩ := (same_behind_iff (by simp)).1 hsame
        exact htext (by simpa using hnil)
      -- Each pass consumes at least one character, so the passes do not run out.
      have hshort : more.length < left := by
        have hpos := List.length_pos_iff.2 htext
        rw [List.length_append] at hleft
        omega
      rw [← List.append_assoc before text] at hfits
      obtain ⟨n, u, hu, htail⟩ := ih (count + 1) hfits hshort ht
      refine ⟨n, u, hu, ends_bind.2 ⟨_, t, pass_empty hinner, ?_⟩⟩
      simp only [Match.success_matched, Match.success_position, if_true, hmoved, Bool.false_and,
        Bool.false_eq_true, if_false]
      rwa [List.append_assoc before text, List.append_assoc before text] at htail

theorem matches_star (h : Iterates a before text rest c d) :
    Matches (Rule.star a) before text rest c d := by
  intro hfits s hs
  have hleft : text.length < Size.top := by
    have hlt := length_lt_top hfits
    rw [List.length_append] at hlt
    omega
  obtain ⟨n, t, ht, hloop⟩ := repeatFrom_iterates 0 h hfits hleft hs
  refine ⟨t, ht, ends_bind.2 ⟨(_, n), t, ends_bind.2 ⟨_, t, hloop, ?_⟩, ends_pure.2 ⟨rfl, rfl⟩⟩⟩
  -- No lower limit: any number of passes is a match.
  have hleast : (Bounds.clamp 0 Size.top).least ≤ n := Nat.zero_le n
  simp only [hleast, if_true]
  exact ends_pure.2 ⟨rfl, rfl⟩

end Pegwork.Hitting
