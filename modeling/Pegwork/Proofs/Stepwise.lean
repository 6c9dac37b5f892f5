import Pegwork.Proofs.Reads
import Pegwork.Proofs.Twin.Rule

/-!
# Terminals element by element

A terminal for several elements goes over them in a loop of its own. It could be written with terminals for
single elements, sequences and repetitions instead; this module says that nothing would change.

* `Window.taken` counts the elements that a run takes. The loop of a run, that of an identifier and the
  repetition of a single element all stop behind this number of elements.
* A literal followed by one element is the longer literal (`seq_literal`), from any cursors. A literal is
  therefore the sequence of its elements (`denote_sequence`).

`Rule.terminals_stepwise` collects the expansions.
-/

namespace Pegwork

variable {κ α : Type} [Cursor κ α]

/-! ## Runs -/

namespace Window

/-- How many elements a run takes that starts behind the first `x` elements and takes at most `left`. -/
def taken (w : Window α) (p : α → Bool) (x left : Nat) : Nat :=
  (((w.elements.drop x).take left).takeWhile p).length

theorem taken_le (w : Window α) (p : α → Bool) (x left : Nat) : w.taken p x left ≤ left :=
  Nat.le_trans (List.takeWhile_prefix p).length_le (List.length_take_le left _)

@[simp] theorem taken_zero (w : Window α) (p : α → Bool) (x : Nat) : w.taken p x 0 = 0 := by
  simp [taken]

/-- Every element is taken if the run may have all of them. -/
theorem taken_true (w : Window α) (x left : Nat) :
    w.taken (fun _ => true) x left = min left (w.length - x) := by
  have hall : ((w.elements.drop x).take left).takeWhile (fun _ => true) = (w.elements.drop x).take left :=
    List.takeWhile_eq_self_iff.2 fun _ _ => rfl
  rw [taken, hall, List.length_take, List.length_drop, w.length_elements]

variable [Track κ α]

/-- The outcome of a run that starts behind the first `x` elements and needs at least `least` elements. -/
def run (w : Window α) (p : α → Bool) (x least most : Nat) : Match κ :=
  if least ≤ w.taken p x most then .success (w.cursor x) (w.cursor (x + w.taken p x most))
  else .failure (w.cursor x)

variable [Steps κ α]

/-- A run with room for another element stops at the limit, stops at an element that it does not take, or
takes one and goes on. -/
theorem taken_cases (w : Window α) (hfits : Steps.Fits κ w.data) (p : α → Bool) {x : Nat}
    (hx : x ≤ w.length) (left : Nat) :
    (Cursor.next (w.cursor x : κ) w.limit = .ok none ∧ w.taken p x (left + 1) = 0) ∨
    (∃ a, Cursor.next (w.cursor x : κ) w.limit = .ok (some (a, w.cursor (x + 1))) ∧ p a = false ∧
      w.taken p x (left + 1) = 0) ∨
    ∃ a, Cursor.next (w.cursor x : κ) w.limit = .ok (some (a, w.cursor (x + 1))) ∧ p a = true ∧
      x + 1 ≤ w.length ∧ w.taken p x (left + 1) = w.taken p (x + 1) left + 1 := by
  cases hrest : w.elements.drop x with
  | nil => exact .inl ⟨w.next_of_drop_nil hx hrest, by simp [taken, hrest]⟩
  | cons a rest =>
    obtain ⟨hnext, hlt, hdrop⟩ := w.next_of_drop_cons (κ := κ) hfits hrest
    cases hp : p a with
    | false => exact .inr (.inl ⟨a, hnext, hp, by simp [taken, hrest, hp]⟩)
    | true => exact .inr (.inr ⟨a, hnext, hp, hlt, by simp [taken, hrest, hdrop, hp]⟩)

end Window

namespace Terminal

theorem satisfy_of_next {i j next : κ} {a : α} (h : Cursor.next i j = .ok (some (a, next)))
    (p : α → Bool) : satisfy p i j = .ok (if p a then .success i next else .failure i) := by
  rw [satisfy, h]
  rfl

theorem satisfy_of_next_none {i j : κ} (h : Cursor.next i j = .ok none) (p : α → Bool) :
    satisfy p i j = .ok (.failure i) := by
  rw [satisfy, h]
  rfl

section Runs

variable [Track κ α] [Steps κ α] {w : Window α} {x : Nat}

theorem runFrom_cursor (hfits : Steps.Fits κ w.data) (p : α → Bool) (hx : x ≤ w.length)
    (left count : Nat) :
    runFrom w.limit p left count (w.cursor x : κ) =
      .ok (w.cursor (x + w.taken p x left), count + w.taken p x left) := by
  induction left generalizing x count with
  | zero => rw [runFrom, w.taken_zero, Nat.add_zero, Nat.add_zero]
  | succ left ih =>
    rw [runFrom]
    rcases w.taken_cases hfits p hx left with
      ⟨hnext, hnone⟩ | ⟨a, hnext, hp, hnone⟩ | ⟨a, hnext, hp, hlt, hmore⟩
    · rw [hnext, hnone]
      rfl
    · rw [hnext, hnone]
      simp only [bind, Except.bind, hp]
      rfl
    · rw [hnext, hmore]
      simp only [bind, Except.bind, hp, if_true, ih hlt, Except.ok.injEq, Prod.mk.injEq]
      exact ⟨congrArg w.cursor (by omega), by omega⟩

theorem skipWhile_cursor (hfits : Steps.Fits κ w.data) (p : α → Bool) (hx : x ≤ w.length)
    (left : Nat) :
    skipWhile w.limit p left (w.cursor x : κ) = .ok (w.cursor (x + w.taken p x left)) := by
  induction left generalizing x with
  | zero => rw [skipWhile, w.taken_zero, Nat.add_zero]
  | succ left ih =>
    rw [skipWhile]
    rcases w.taken_cases hfits p hx left with
      ⟨hnext, hnone⟩ | ⟨a, hnext, hp, hnone⟩ | ⟨a, hnext, hp, hlt, hmore⟩
    · rw [hnext, hnone]
      rfl
    · rw [hnext, hnone]
      simp only [bind, Except.bind, hp]
      rfl
    · rw [hnext, hmore]
      simp only [bind, Except.bind, hp, if_true, ih hlt, Except.ok.injEq]
      exact congrArg w.cursor (by omega)

theorem run_cursor (hfits : Steps.Fits κ w.data) (p : α → Bool) (hx : x ≤ w.length) (min max : Nat) :
    run p min max (w.cursor x : κ) w.limit = .ok (w.run p x min max) := by
  rw [run, runFrom_cursor hfits p hx, Nat.zero_add]
  rfl

theorem advance_cursor (hfits : Steps.Fits κ w.data) (hx : x ≤ w.length) (n : Nat) :
    advance n (w.cursor x : κ) w.limit = .ok (w.run (fun _ => true) x n n) := by
  rw [advance, w.hasAtLeast_cursor n hx, Window.run, w.taken_true]
  by_cases hn : n ≤ w.length - x
  · simp only [hn, decide_true, if_true, w.advanceBy_cursor hfits (show x + n ≤ w.length by omega),
      Nat.min_eq_left hn, Nat.le_refl]
    rfl
  · have hmin : ¬ n ≤ min n (w.length - x) := by omega
    simp only [hn, decide_false, hmin, if_false]
    rfl

end Runs

end Terminal

namespace Recognizer

variable {σ : Type}

open Terminal

/-- A terminal that gives an outcome is a rule that gives it. -/
theorem ofTerminal_eq {t : Terminal κ} {i j : κ} {m : Match κ} (h : t i j = .ok m) :
    ofTerminal t i j = (pure m : Run σ (Match κ)) := by
  rw [ofTerminal, h]
  rfl

/-! ## Repeated elements -/

section Repetition

variable [Track κ α] [Steps κ α] {w : Window α} {x : Nat}

/-- A pass over an empty separator is a pass over the item. -/
theorem pass_constant (item : Recognizer κ σ) (limit : κ) (count : Nat) (position : κ) :
    pass item (ofTerminal (constant true)) limit count position = item position limit := by
  unfold pass
  split
  · rfl
  · rfl

/-- Each pass takes one element, so no pass stalls. -/
theorem repeatFrom_cursor (hfits : Steps.Fits κ w.data) (p : α → Bool) (bounds : Bounds)
    (hx : x ≤ w.length) (left count : Nat) :
    repeatFrom (ofTerminal (satisfy p)) (ofTerminal (constant true)) bounds w.limit left count
        (w.cursor x : κ) =
      (pure (w.cursor (x + w.taken p x left), count + w.taken p x left) : Run σ (κ × Nat)) := by
  induction left generalizing x count with
  | zero => rw [repeatFrom, w.taken_zero, Nat.add_zero, Nat.add_zero]
  | succ left ih =>
    rw [repeatFrom, pass_constant]
    rcases w.taken_cases hfits p hx left with
      ⟨hnext, hnone⟩ | ⟨a, hnext, hp, hnone⟩ | ⟨a, hnext, hp, hlt, hmore⟩
    · rw [ofTerminal_eq (satisfy_of_next_none hnext p), pure_bind, hnone]
      rfl
    · rw [ofTerminal_eq (satisfy_of_next hnext p), pure_bind, hp, hnone]
      rfl
    -- The pass has moved on by one element, so it is not taken for a stalled one.
    · rw [ofTerminal_eq (satisfy_of_next hnext p), pure_bind]
      simp only [hp, if_true, Match.success_matched, Match.success_position, w.same_cursor hlt hx,
        Nat.succ_ne_self, decide_false, Bool.false_and, Bool.false_eq_true, if_false]
      rw [ih hlt, hmore]
      congr 2
      · exact congrArg w.cursor (by omega)
      · omega

/-- Repeating one element takes the elements that a run takes. -/
theorem repetition_cursor (hfits : Steps.Fits κ w.data) (p : α → Bool) (bounds : Bounds)
    (hx : x ≤ w.length) :
    repetition (ofTerminal (satisfy p)) (ofTerminal (constant true)) bounds (w.cursor x : κ) w.limit =
      (pure (w.run p x bounds.least bounds.most) : Run σ (Match κ)) := by
  rw [repetition, counted, repeatFrom_cursor hfits p bounds hx, pure_bind, Nat.zero_add, pure_bind,
    Window.run]
  by_cases hleast : bounds.least ≤ w.taken p x bounds.most
  · rw [if_pos hleast, if_pos hleast]
  · rw [if_neg hleast, if_neg hleast]

/-- An identifier is a letter and a run behind it. -/
theorem identifier_cursor [Classify α] (hfits : Steps.Fits κ w.data) (hx : x ≤ w.length) :
    ∃ m, identifier (w.cursor x : κ) w.limit = .ok m ∧
      (ofTerminal (satisfy Classify.isAlphabetic)).seq
        (ofTerminal (run Classify.isAlphanumeric 0 Size.top)) (w.cursor x) w.limit =
      (pure m : Run σ (Match κ)) := by
  rw [identifier, seq]
  rcases w.taken_cases (κ := κ) hfits Classify.isAlphabetic hx 0 with
    ⟨hnext, -⟩ | ⟨a, hnext, hp, -⟩ | ⟨a, hnext, hp, hlt, -⟩
  · rw [ofTerminal_eq (satisfy_of_next_none hnext _), hnext]
    exact ⟨_, rfl, rfl⟩
  · rw [ofTerminal_eq (satisfy_of_next hnext _), hnext, hp]
    simp only [bind, Except.bind, hp]
    exact ⟨_, rfl, rfl⟩
  -- Behind the letter, skipping and running take the same elements, and a run of any length will do.
  · rw [ofTerminal_eq (satisfy_of_next hnext _), hnext, pure_bind, hp, if_pos rfl]
    simp only [Match.success_matched, Match.success_position, if_true, hp, bind, Except.bind]
    rw [skipWhile_cursor hfits _ hlt, ofTerminal_eq (run_cursor hfits _ hlt 0 _)]
    exact ⟨_, rfl, rfl⟩

end Repetition

/-! ## Literals -/

theorem literalFrom_append (limit : κ) (conditions more : List (α → Bool)) (position : κ) :
    literalFrom limit (conditions ++ more) position =
      (do
        match ← literalFrom limit conditions position with
        | some next => literalFrom limit more next
        | none => return none) := by
  induction conditions generalizing position with
  | nil => rfl
  | cons p conditions ih =>
    rw [List.cons_append, literalFrom, literalFrom]
    rcases Cursor.next position limit with h | _ | ⟨a, next⟩
    · rfl
    · rfl
    · cases hp : p a with
      | false => simp [bind, Except.bind, pure, Except.pure, hp]
      | true => simpa [bind, Except.bind, pure, Except.pure, hp] using ih next

/-- One element more after a literal is a longer literal. -/
theorem seq_literal (conditions : List (α → Bool)) (p : α → Bool) :
    (ofTerminal (literal conditions)).seq (ofTerminal (satisfy p)) =
      (ofTerminal (literal (conditions ++ [p])) : Recognizer κ σ) := by
  funext i j
  rw [seq, ofTerminal, ofTerminal, literal, literal, literalFrom_append]
  rcases literalFrom j conditions i with h | _ | position
  · rfl
  · rfl
  -- Behind the literal, the longer one asks for one more element, as the sequence does.
  · show ofTerminal (satisfy p) position j >>= (fun m => pure (m.restart i)) = _
    rw [ofTerminal, satisfy]
    simp only [bind, Except.bind, literalFrom]
    rcases Cursor.next position j with h | _ | ⟨a, next⟩
    · rfl
    · rfl
    · cases hp : p a <;> simp only [hp] <;> rfl

theorem literal_nil : (ofTerminal (literal []) : Recognizer κ σ) = ofTerminal (constant true) := by
  funext i j
  rfl

theorem literal_singleton (p : α → Bool) :
    (ofTerminal (literal [p]) : Recognizer κ σ) = ofTerminal (satisfy p) := by
  funext i j
  rw [ofTerminal, ofTerminal, literal, satisfy, literalFrom]
  simp only [bind, Except.bind, literalFrom]
  rcases Cursor.next i j with h | _ | ⟨a, next⟩
  · rfl
  · rfl
  · cases hp : p a <;> simp only [hp] <;> rfl

end Recognizer

/-! ## Rules -/

namespace Rule

open Recognizer

variable {β γ : Type} [Element α] [DecidableEq α]

section Sequences

variable {foreign : γ → κ → κ → Match κ} {handle : String → Meaning κ β}

/-- Elements one after the other, behind a literal, make a longer literal. -/
theorem denote_sequence {τ : Type} (one : τ → Rule α β γ) (condition : τ → α → Bool)
    (hone : ∀ t, (one t).denote foreign handle = ofTerminal (Terminal.satisfy (condition t)))
    (ts : List τ) {first : Rule α β γ} {conditions : List (α → Bool)}
    (hfirst : first.denote foreign handle = ofTerminal (Terminal.literal conditions)) :
    (sequence first (ts.map one)).denote foreign handle =
      ofTerminal (Terminal.literal (conditions ++ ts.map condition)) := by
  induction ts generalizing first conditions with
  | nil => rw [List.map_nil, List.map_nil, List.append_nil, sequence, List.foldl_nil, hfirst]
  | cons t ts ih =>
    -- The first two rules are a literal again, and the others stand behind it.
    have hnext : (seq first (one t)).denote foreign handle =
        ofTerminal (Terminal.literal (conditions ++ [condition t])) := by
      rw [← seq_literal, ← hfirst, ← hone]
      rfl
    have hrest := ih hnext
    rwa [List.append_assoc, List.singleton_append, ← List.map_cons] at hrest

theorem denote_empty :
    (empty : Rule α β γ).denote foreign handle = ofTerminal (Terminal.literal []) :=
  literal_nil.symm

theorem denote_sequence_elements (as : List α) :
    (sequence empty (as.map element) : Rule α β γ).denote foreign handle =
      (elements as).denote foreign handle :=
  denote_sequence element (fun a b => b = a) (fun _ => rfl) as denote_empty

theorem denote_element (a : α) :
    (element a : Rule α β γ).denote foreign handle = ofTerminal (Terminal.literal [fun b => b = a]) :=
  (literal_singleton _).symm

theorem denote_sequence_element (a : α) (as : List α) :
    (sequence (element a) (as.map element) : Rule α β γ).denote foreign handle =
      (elements (a :: as)).denote foreign handle :=
  denote_sequence element (fun a b => b = a) (fun _ => rfl) as (denote_element a)

end Sequences

/-- A literal of characters, over characters, is the list of these characters. -/
theorem denote_literal {κ : Type} [Cursor κ Char] {foreign : γ → κ → κ → Match κ}
    {handle : String → Meaning κ β} (text : String) :
    (literal text : Rule Char β γ).denote foreign handle = (elements text.toList).denote foreign handle :=
  rfl

/-- A fixed value, over bytes, is the list of its bytes. -/
theorem denote_image {κ : Type} [Cursor κ UInt8] {foreign : γ → κ → κ → Match κ}
    {handle : String → Meaning κ β} {t : WordType} (word : Word t) :
    (image word : Rule UInt8 β γ).denote foreign handle = (elements word.image).denote foreign handle := by
  -- An element that is a byte is compared as the byte it stands for, which is itself.
  have hbyte : (fun b a : UInt8 => Element.byte? a == some b) = fun b a => decide (a = b) := by
    funext b a
    rw [Bool.eq_iff_iff, beq_iff_eq, decide_eq_true_iff]
    exact Option.some_inj
  rw [denote, denote, hbyte]

section Windows

variable [Track κ α]

/-- At the start of a window the two rules give the same outcome, and neither of them does anything else. -/
def Interchangeable (foreign : γ → κ → κ → Match κ) (cells : Cells α β γ) (depth : Nat) (w : Window α)
    (a b : Rule α β γ) : Prop :=
  ∃ m : Match κ, (a.parse foreign cells depth : Meaning κ β) (w.cursor 0) w.limit = pure m ∧
    (b.parse foreign cells depth : Meaning κ β) (w.cursor 0) w.limit = pure m

variable [Steps κ α] {w : Window α} {foreign : γ → κ → κ → Match κ} {cells : Cells α β γ} {depth : Nat}

/-- Rules that mean the same as a list of elements can be put in each other's place. -/
theorem interchangeable_elements (hfits : Steps.Fits κ w.data) {as : List α} {a b : Rule α β γ}
    (ha : ∀ handle : String → Meaning κ β, a.denote foreign handle = (elements as).denote foreign handle)
    (hb : ∀ handle : String → Meaning κ β, b.denote foreign handle = (elements as).denote foreign handle) :
    Interchangeable foreign cells depth w a b := by
  have houtcome := ofTerminal_eq (σ := Store κ β)
    (Terminal.literal_cursor w hfits (as.map fun a b => b = a))
  rw [Interchangeable, parse_eq, parse_eq, ha, hb]
  exact ⟨_, houtcome, houtcome⟩

/-- The repetition of one element can be put in the place of a rule with the outcome of a run. -/
theorem interchangeable_many (hfits : Steps.Fits κ w.data) {p : α → Bool} {a item : Rule α β γ}
    (hitem : ∀ handle : String → Meaning κ β,
      item.denote foreign handle = ofTerminal (Terminal.satisfy p))
    {least min max : Nat} (hleast : Nat.min min max = least)
    (ha : (a.parse foreign cells depth : Meaning κ β) (w.cursor 0) w.limit =
      pure (w.run p 0 least max)) :
    Interchangeable foreign cells depth w a (.many item .empty min max) := by
  subst hleast
  refine ⟨_, ha, ?_⟩
  rw [parse_eq, many, denote, hitem]
  exact repetition_cursor hfits p (.clamp min max) (Nat.zero_le _)

end Windows

/-- **Terminals mean their expansions.** In every window, over texts and over sequences: a run of elements is
the repetition of one, as long as its limits are in order; an identifier is a letter and a run; a literal is
the sequence of its elements; skipping a number of elements is repeating any element this often. Over
characters a literal text is the sequence of its characters, and over bytes a fixed value is the literal of
its bytes. -/
theorem terminals_stepwise {β γ : Type} :
    (∀ {κ α : Type} [Cursor κ α] [Track κ α] [Steps κ α] [Element α] [DecidableEq α]
      (foreign : γ → κ → κ → Match κ) (cells : Cells α β γ) (depth : Nat) (w : Window α),
      Steps.Fits κ w.data →
      let Same := Interchangeable foreign cells depth w
      (∀ p min max, min ≤ max → Same (.run p min max) (.many (.satisfy p) .empty min max)) ∧
      (∀ p min max, max < min →
        (parse foreign cells depth (.run p min max) : Meaning κ β) (w.cursor 0) w.limit =
          pure (.failure (w.cursor 0)) ∧
        Same (.run p max max) (.many (.satisfy p) .empty min max)) ∧
      Same .identifier (.seq (.satisfy Classify.isAlphabetic) (.runOf Classify.isAlphanumeric)) ∧
      (∀ as, Same (.elements as) (.sequence .empty (as.map .element))) ∧
      (∀ a as, Same (.elements (a :: as)) (.sequence (.element a) (as.map .element))) ∧
      ∀ n, Same (.advance n) (.many .any .empty n n)) ∧
    (∀ {κ : Type} [Cursor κ Char] [Track κ Char] [Steps κ Char] (foreign : γ → κ → κ → Match κ)
      (cells : Cells Char β γ) (depth : Nat) (w : Window Char), Steps.Fits κ w.data →
      ∀ text : String, Interchangeable foreign cells depth w (.literal text)
        (.sequence .empty (text.toList.map .element))) ∧
    ∀ {κ : Type} [Cursor κ UInt8] [Track κ UInt8] [Steps κ UInt8] (foreign : γ → κ → κ → Match κ)
      (cells : Cells UInt8 β γ) (depth : Nat) (w : Window UInt8), Steps.Fits κ w.data →
      ∀ {t : WordType} (word : Word t), Interchangeable foreign cells depth w (.image word)
        (.elements word.image) := by
  refine ⟨?_, ?_, ?_⟩
  · intro κ α _ _ _ _ _ foreign cells depth w hfits Same
    have hstart : 0 ≤ w.length := Nat.zero_le _
    have hrun : ∀ p min max,
        (parse foreign cells depth (.run p min max) : Meaning κ β) (w.cursor 0) w.limit =
          pure (w.run p 0 min max) := fun p min max => by
      rw [parse_eq]
      exact ofTerminal_eq (Terminal.run_cursor hfits p hstart min max)
    refine ⟨?_, ?_, ?_, ?_, ?_, ?_⟩
    · intro p min max hle
      exact interchangeable_many hfits (fun _ => rfl) (Nat.min_eq_left hle) (hrun p min max)
    · intro p min max hlt
      have hfew := w.taken_le p 0 max
      constructor
      · rw [hrun p min max, Window.run, if_neg (by omega)]
      · exact interchangeable_many hfits (fun _ => rfl) (Nat.min_eq_right (Nat.le_of_lt hlt)) (hrun p max max)
    · obtain ⟨m, hidentifier, hexpansion⟩ := identifier_cursor (σ := Store κ β) hfits hstart
      refine ⟨m, ?_, ?_⟩
      · rw [parse_eq]
        exact ofTerminal_eq hidentifier
      · rw [parse_eq]
        exact hexpansion
    · exact fun as => interchangeable_elements hfits (fun _ => rfl) fun _ => denote_sequence_elements as
    · exact fun a as => interchangeable_elements hfits (fun _ => rfl) fun _ => denote_sequence_element a as
    · intro n
      refine interchangeable_many hfits (fun _ => rfl) (Nat.min_self n) ?_
      rw [parse_eq]
      exact ofTerminal_eq (Terminal.advance_cursor hfits hstart n)
  · intro κ _ _ _ foreign cells depth w hfits text
    exact interchangeable_elements hfits (fun _ => denote_literal text)
      fun _ => denote_sequence_elements text.toList
  · intro κ _ _ _ foreign cells depth w hfits t word
    exact interchangeable_elements hfits (fun _ => denote_image word) fun _ => rfl

/-- Two letters, one of them with two bytes, in front of a blank. The run of letters and the repetition of a
letter both end at the third byte; where at least five letters and at most one are asked for, only the
repetition still matches. -/
theorem terminals_stepwise_letters :
    let w : Window Char := .whole 0 ['n', 'é', ' ', 'x']
    let foreign : Empty → TextCursor → TextCursor → Match TextCursor := nofun
    let run (min max : Nat) : Rule Char String Empty := .run (fun c => c ≠ ' ') min max
    let many (min max : Nat) : Rule Char String Empty := .many (.satisfy fun c => c ≠ ' ') .empty min max
    Steps.Fits TextCursor w.data ∧
      (2 ≤ 7 ∧ Interchangeable foreign [] 0 w (run 2 7) (many 2 7)) ∧
      (run 2 7).parse foreign [] 0 (w.cursor 0) w.limit = pure (.success (w.cursor 0) (w.cursor 2)) ∧
      (w.cursor 2 : TextCursor).offset = 3 ∧
      1 < 5 ∧ (run 5 1).parse foreign [] 0 (w.cursor 0) w.limit = pure (.failure (w.cursor 0)) ∧
      Interchangeable foreign [] 0 w (run 1 1) (many 5 1) := by
  intro w foreign run many
  have hfits : Steps.Fits TextCursor w.data := by
    show Text.bytes _ < 2 ^ 63
    decide
  obtain ⟨hrun, hclamped, -⟩ := (terminals_stepwise (β := String) (γ := Empty)).1 foreign [] 0 w hfits
  exact ⟨hfits, ⟨by decide, hrun _ 2 7 (by decide)⟩, rfl, rfl, by decide, hclamped _ 5 1 (by decide)⟩

end Rule

end Pegwork
