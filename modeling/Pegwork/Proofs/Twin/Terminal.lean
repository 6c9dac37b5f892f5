import Pegwork.Proofs.Cursor.Steps
import Pegwork.Proofs.Pairing
import Pegwork.Terminal

/-!
# Terminals in twin windows

Twin windows are two windows with the same elements, perhaps of different inputs and even of different
kinds of cursors. A terminal that is run in both of them goes the same number of elements forward in
both, and halts in neither.

* `Twin` is such a pair of windows, with a relation that links at least the cursors that stand behind
  the same number of elements. What lies outside the windows is not constrained.
* `Match.Alike` compares two outcomes: both rules match or both fail, and a match ends behind the same
  number of elements.
* `Terminal.Alike` says that two terminals have such outcomes wherever they are started. There is one
  lemma for each terminal, with a lower bound for the number of elements that a match takes.
-/

namespace Pegwork

/-! ## Twin windows -/

/-- Two windows with the same elements, over cursors of the types `κ` and `ρ`. -/
structure Twin (κ ρ : Type) {α : Type} [Cursor κ α] [Track κ α] [Steps κ α] [Cursor ρ α] [Track ρ α]
    [Steps ρ α] where
  /-- The one window. -/
  left : Window α
  /-- The other window. -/
  right : Window α
  fits_left : Steps.Fits κ left.data
  fits_right : Steps.Fits ρ right.data
  elements_eq : left.elements = right.elements
  /-- Which cursors are linked. -/
  Linked : κ → ρ → Prop
  linked_cursor : ∀ x, x ≤ left.length → Linked (left.cursor x) (right.cursor x)

section

variable {κ ρ α : Type} [Cursor κ α] [Track κ α] [Steps κ α] [Cursor ρ α] [Track ρ α] [Steps ρ α]

namespace Twin

variable (p : Twin κ ρ)

/-- The number of elements in either window. -/
def length : Nat := p.left.length

theorem length_right : p.right.length = p.length := by
  rw [length, ← p.left.length_elements, p.elements_eq, p.right.length_elements]

theorem limit_left : p.left.limit = (p.left.cursor p.length : κ) := rfl

theorem limit_right : p.right.limit = (p.right.cursor p.length : ρ) := by
  rw [Window.limit, p.length_right]

theorem length_lt : p.length < Size.bound := by
  have hinside := p.left.inside
  have hlength := Steps.length_lt p.fits_left
  unfold length
  omega

/-- Both cursors stand behind the same number of elements of their windows, `x` of them at least. -/
def Level (x : Nat) (c : κ) (d : ρ) : Prop :=
  ∃ y, x ≤ y ∧ y ≤ p.length ∧ c = p.left.cursor y ∧ d = p.right.cursor y

variable {p}

theorem level_cursor {x y : Nat} (hxy : x ≤ y) (hy : y ≤ p.length) :
    p.Level x (p.left.cursor y) (p.right.cursor y) := ⟨y, hxy, hy, rfl, rfl⟩

theorem Level.mono {x y : Nat} {c : κ} {d : ρ} (h : p.Level y c d) (hxy : x ≤ y) :
    p.Level x c d := by
  obtain ⟨z, hz, hlength, hc, hd⟩ := h
  exact ⟨z, Nat.le_trans hxy hz, hlength, hc, hd⟩

theorem Level.linked {x : Nat} {c : κ} {d : ρ} (h : p.Level x c d) : p.Linked c d := by
  obtain ⟨y, -, hy, rfl, rfl⟩ := h
  exact p.linked_cursor y hy

/-- Two cursors of one window are compared as their twins are. -/
theorem same_eq {x y : Nat} (hx : x ≤ p.length) (hy : y ≤ p.length) :
    Walk.same (p.left.cursor x : κ) (p.left.cursor y) =
      Walk.same (p.right.cursor x : ρ) (p.right.cursor y) := by
  have hlength := p.length_right
  rw [p.left.same_cursor hx hy, p.right.same_cursor (by omega) (by omega)]

theorem same_limit {x : Nat} (hx : x ≤ p.length) :
    Walk.same (p.left.cursor x : κ) p.left.limit = decide (x = p.length) ∧
      Walk.same (p.right.cursor x : ρ) p.right.limit = decide (x = p.length) := by
  have hlength := p.length_right
  rw [p.limit_right, p.right.same_cursor (by omega) (by omega)]
  exact ⟨p.left.same_cursor hx (Nat.le_refl _), rfl⟩

/-- Both cursors have the same element before them, or both are at the limit. -/
theorem next_cases {x : Nat} (hx : x ≤ p.length) :
    (Cursor.next (p.left.cursor x : κ) p.left.limit = .ok none ∧
      Cursor.next (p.right.cursor x : ρ) p.right.limit = .ok none) ∨
    ∃ a, x < p.length ∧
      Cursor.next (p.left.cursor x : κ) p.left.limit = .ok (some (a, p.left.cursor (x + 1))) ∧
      Cursor.next (p.right.cursor x : ρ) p.right.limit = .ok (some (a, p.right.cursor (x + 1))) := by
  rcases Nat.lt_or_eq_of_le hx with hlt | rfl
  · right
    have hleft : x < p.left.elements.length := by rwa [p.left.length_elements]
    obtain ⟨a, ha⟩ : ∃ a, p.left.elements[x]? = some a := ⟨_, List.getElem?_eq_getElem hleft⟩
    have ha' : p.right.elements[x]? = some a := by rwa [← p.elements_eq]
    exact ⟨a, hlt, p.left.next_cursor p.fits_left ha, p.right.next_cursor p.fits_right ha'⟩
  · rw [← p.limit_left, ← p.limit_right]
    exact .inl ⟨p.left.next_limit, p.right.next_limit⟩

end Twin

/-! ## Outcomes -/

/-- Two outcomes agree: both rules match or both fail, their cursors are linked, and matches end behind
the same number of elements, at least `x`. -/
structure Match.Alike (p : Twin κ ρ) (x : Nat) (m : Match κ) (m' : Match ρ) : Prop where
  matched_eq : m.matched = m'.matched
  start : p.Linked m.start m'.start
  position : p.Linked m.position m'.position
  level : m.matched = true → p.Level x m.position m'.position

namespace Match

variable {p : Twin κ ρ}

theorem alike_success {x y : Nat} {c : κ} {d : ρ} (hy : y ≤ p.length) (h : p.Level x c d) :
    Alike p x (success (p.left.cursor y) c) (success (p.right.cursor y) d) :=
  ⟨rfl, p.linked_cursor y hy, h.linked, fun _ => h⟩

theorem alike_failure {x y : Nat} (hy : y ≤ p.length) :
    Alike p x (failure (p.left.cursor y)) (failure (p.right.cursor y)) :=
  ⟨rfl, p.linked_cursor y hy, p.linked_cursor y hy, nofun⟩

theorem alike_stay {x y : Nat} (hy : y ≤ p.length) (b : Bool) (hx : b = true → x ≤ y) :
    Alike p x (stay b (p.left.cursor y)) (stay b (p.right.cursor y)) :=
  ⟨rfl, p.linked_cursor y hy, p.linked_cursor y hy, fun hb => Twin.level_cursor (hx hb) hy⟩

theorem alike_ite {x y : Nat} {c : κ} {d : ρ} (b : Prop) [Decidable b] (hy : y ≤ p.length)
    (h : b → p.Level x c d) :
    Alike p x (if b then success (p.left.cursor y) c else failure (p.left.cursor y))
      (if b then success (p.right.cursor y) d else failure (p.right.cursor y)) := by
  by_cases hb : b
  · rw [if_pos hb, if_pos hb]
    exact alike_success hy (h hb)
  · rw [if_neg hb, if_neg hb]
    exact alike_failure hy

theorem Alike.mono {x y : Nat} {m : Match κ} {m' : Match ρ} (h : Alike p y m m') (hxy : x ≤ y) :
    Alike p x m m' :=
  ⟨h.matched_eq, h.start, h.position, fun hm => (h.level hm).mono hxy⟩

theorem Alike.restart {x y : Nat} {m : Match κ} {m' : Match ρ} (h : Alike p x m m')
    (hy : y ≤ p.length) :
    Alike p x (m.restart (p.left.cursor y)) (m'.restart (p.right.cursor y)) := by
  rw [Match.restart, Match.restart, ← h.matched_eq]
  exact alike_ite _ hy h.level

end Match

/-! ## Terminals -/

/-- Wherever they are started in their windows, the two terminals have outcomes that agree, and their
matches take `n` elements at least. -/
def Terminal.Alike (p : Twin κ ρ) (n : Nat) (t : Terminal κ) (t' : Terminal ρ) : Prop :=
  ∀ y, y ≤ p.length → Both (Match.Alike p (y + n)) (t (p.left.cursor y) p.left.limit)
    (t' (p.right.cursor y) p.right.limit)

namespace Terminal

variable {p : Twin κ ρ}

open Match Twin

theorem alike_constant {value : Bool} {n : Nat} (hn : value = true → n = 0) :
    Alike p n (constant value) (constant value) := by
  intro y hy
  refine both_ok (alike_stay hy value ?_)
  intro hvalue
  rw [hn hvalue, Nat.add_zero]

theorem alike_ending : Alike p 0 ending ending := by
  intro y hy
  obtain ⟨hleft, hright⟩ := same_limit hy
  unfold ending
  rw [hleft, hright]
  exact both_ok (alike_stay hy _ fun _ => Nat.le_refl y)

theorem alike_satisfy (f : α → Bool) : Alike p 1 (satisfy f) (satisfy f) := by
  intro y hy
  unfold satisfy
  rcases next_cases hy with ⟨hleft, hright⟩ | ⟨a, hlt, hleft, hright⟩
  · rw [hleft, hright]
    exact both_ok (alike_failure hy)
  · rw [hleft, hright]
    exact both_ok (alike_ite _ hy fun _ => level_cursor (Nat.le_refl _) hlt)

theorem both_literalFrom (conditions : List (α → Bool)) {y : Nat} (hy : y ≤ p.length) :
    Both (Option.Rel (p.Level (y + conditions.length)))
      (literalFrom p.left.limit conditions (p.left.cursor y))
      (literalFrom p.right.limit conditions (p.right.cursor y)) := by
  induction conditions generalizing y with
  | nil => exact both_ok (.some (level_cursor (Nat.le_refl y) hy))
  | cons f conditions ih =>
    rw [literalFrom, literalFrom]
    rcases next_cases hy with ⟨hleft, hright⟩ | ⟨a, hlt, hleft, hright⟩
    · rw [hleft, hright]
      exact both_ok .none
    · rw [hleft, hright]
      by_cases hf : f a = true
      · have hrest := ih (y := y + 1) hlt
        rw [Nat.add_right_comm, Nat.add_assoc, ← List.length_cons (a := f)] at hrest
        simpa only [bind, Except.bind, hf, if_true] using hrest
      · simp only [bind, Except.bind, hf]
        exact both_ok .none

theorem alike_literal (conditions : List (α → Bool)) :
    Alike p conditions.length (literal conditions) (literal conditions) := by
  intro y hy
  refine (both_literalFrom conditions hy).bind ?_
  rintro _ _ (hlevel | -)
  · exact both_ok (alike_success hy hlevel)
  · exact both_ok (alike_failure hy)

/-- A run goes one element forward each time it counts. -/
theorem both_runFrom (f : α → Bool) {left count y : Nat} (hy : y ≤ p.length) :
    Both (fun r r' => r.2 = r'.2 ∧ count ≤ r.2 ∧ p.Level (y + (r.2 - count)) r.1 r'.1)
      (runFrom p.left.limit f left count (p.left.cursor y))
      (runFrom p.right.limit f left count (p.right.cursor y)) := by
  have hstop : p.Level (y + (count - count)) (p.left.cursor y) (p.right.cursor y) :=
    level_cursor (by omega) hy
  induction left generalizing count y with
  | zero => exact both_ok ⟨rfl, Nat.le_refl _, hstop⟩
  | succ left ih =>
    rw [runFrom, runFrom]
    rcases next_cases hy with ⟨hleft, hright⟩ | ⟨a, hlt, hleft, hright⟩
    · rw [hleft, hright]
      exact both_ok ⟨rfl, Nat.le_refl _, hstop⟩
    · rw [hleft, hright]
      by_cases hf : f a = true
      · have hrest := @ih (count + 1) (y + 1) hlt (level_cursor (by omega) hlt)
        simp only [bind, Except.bind, hf, if_true]
        refine hrest.mono ?_
        rintro r r' ⟨hcount, hle, hlevel⟩
        exact ⟨hcount, by omega, hlevel.mono (by omega)⟩
      · simp only [bind, Except.bind, hf]
        exact both_ok ⟨rfl, Nat.le_refl _, hstop⟩

theorem alike_run (f : α → Bool) (min max : Nat) : Alike p min (run f min max) (run f min max) := by
  intro y hy
  refine (both_runFrom f hy).bind ?_
  rintro ⟨c, count⟩ ⟨d, count'⟩ ⟨hcount, -, hlevel⟩
  simp only at hcount hlevel
  subst hcount
  exact both_ok (alike_ite _ hy fun hmin => hlevel.mono (by omega))

theorem both_skipWhile (f : α → Bool) {left y : Nat} (hy : y ≤ p.length) :
    Both (p.Level y) (skipWhile p.left.limit f left (p.left.cursor y))
      (skipWhile p.right.limit f left (p.right.cursor y)) := by
  induction left generalizing y with
  | zero => exact both_ok (level_cursor (Nat.le_refl y) hy)
  | succ left ih =>
    rw [skipWhile, skipWhile]
    rcases next_cases hy with ⟨hleft, hright⟩ | ⟨a, hlt, hleft, hright⟩
    · rw [hleft, hright]
      exact both_ok (level_cursor (Nat.le_refl y) hy)
    · rw [hleft, hright]
      by_cases hf : f a = true
      · simp only [bind, Except.bind, hf, if_true]
        exact (ih hlt).mono fun c d hlevel => hlevel.mono (Nat.le_succ y)
      · simp only [bind, Except.bind, hf]
        exact both_ok (level_cursor (Nat.le_refl y) hy)

theorem alike_identifier [Classify α] : Alike p 1 identifier identifier := by
  intro y hy
  unfold identifier
  rcases next_cases hy with ⟨hleft, hright⟩ | ⟨a, hlt, hleft, hright⟩
  · rw [hleft, hright]
    exact both_ok (alike_failure hy)
  · rw [hleft, hright]
    by_cases ha : Classify.isAlphabetic a = true
    · simp only [bind, Except.bind, ha, if_true]
      exact (both_skipWhile _ hlt).bind fun c d hlevel => both_ok (alike_success hy hlevel)
    · simp only [bind, Except.bind, ha]
      exact both_ok (alike_failure hy)

theorem alike_advance (n : Nat) : Alike p n (advance n) (advance n) := by
  intro y hy
  have hlength := p.length_right
  have hleft := p.left.hasAtLeast_cursor (κ := κ) n hy
  have hright := p.right.hasAtLeast_cursor (κ := ρ) (x := y) n (by omega)
  rw [hlength] at hright
  unfold advance
  rw [hleft, hright]
  by_cases hn : n ≤ p.length - y
  -- With enough elements left, the jump stays in front of the limit.
  · have hend : y + n ≤ p.length := by omega
    have hjump := p.left.advanceBy_cursor p.fits_left hend
    have hjump' := p.right.advanceBy_cursor p.fits_right (x := y) (n := n) (by omega)
    have hn' : n ≤ p.left.length - y := hn
    simp only [hn, hn', decide_true, if_true, hjump, hjump']
    exact both_ok (alike_success hy (level_cursor (Nat.le_refl _) hend))
  · have hn' : ¬ n ≤ p.left.length - y := hn
    simp only [hn, hn', decide_false]
    exact both_ok (alike_failure hy)

/-! ## Reads -/

section Reads

variable [Element α]

theorem both_overlay (old : List UInt8) {y : Nat} (hy : y ≤ p.length) :
    Both (fun r r' => r.1 = r'.1 ∧ r.2.2 = r'.2.2 ∧
        (r.2.2 = true → p.Level (y + old.length) r.2.1 r'.2.1))
      (overlay p.left.limit old (p.left.cursor y)) (overlay p.right.limit old (p.right.cursor y)) := by
  induction old generalizing y with
  | nil => exact both_ok ⟨rfl, rfl, fun _ => level_cursor (Nat.le_refl y) hy⟩
  | cons byte old ih =>
    rw [overlay, overlay]
    rcases next_cases hy with ⟨hleft, hright⟩ | ⟨a, hlt, hleft, hright⟩
    · rw [hleft, hright]
      exact both_ok ⟨rfl, rfl, nofun⟩
    · rw [hleft, hright]
      cases hbyte : Element.byte? a with
      | none =>
        simp only [bind, Except.bind, hbyte]
        exact both_ok ⟨rfl, rfl, nofun⟩
      | some new =>
        simp only [bind, Except.bind, hbyte]
        refine (ih (y := y + 1) hlt).bind ?_
        rintro ⟨bytes, c, complete⟩ ⟨bytes', d, complete'⟩ ⟨hbytes, hcomplete, hlevel⟩
        simp only at hbytes hcomplete hlevel
        subst hbytes hcomplete
        refine both_ok ⟨rfl, rfl, fun hdone => (hlevel hdone).mono ?_⟩
        simp only [List.length_cons]
        omega

theorem both_readWord {t : WordType} (old : Word t) {y : Nat} (hy : y ≤ p.length) :
    Both (fun r r' => r.1 = r'.1 ∧ Match.Alike p (y + 1) r.2 r'.2)
      (readWord old (p.left.cursor y) p.left.limit) (readWord old (p.right.cursor y) p.right.limit) := by
  refine (both_overlay old.image hy).bind ?_
  rintro ⟨bytes, c, complete⟩ ⟨bytes', d, complete'⟩ ⟨hbytes, hcomplete, hlevel⟩
  simp only at hbytes hcomplete hlevel
  subst hbytes hcomplete
  -- No word is empty, so a complete one has taken an element.
  have hsize : 1 ≤ old.image.length := by
    rw [Word.length_image]
    exact t.size_pos
  exact both_ok ⟨rfl, alike_ite _ hy fun hdone => (hlevel hdone).mono (by omega)⟩

theorem both_readWordsFrom {t : WordType} (old : List (Word t)) {y : Nat} (hy : y ≤ p.length) :
    Both (fun r r' => r.1 = r'.1 ∧ Option.Rel (p.Level y) r.2 r'.2)
      (readWordsFrom p.left.limit old (p.left.cursor y))
      (readWordsFrom p.right.limit old (p.right.cursor y)) := by
  induction old generalizing y with
  | nil => exact both_ok ⟨rfl, .some (level_cursor (Nat.le_refl y) hy)⟩
  | cons word old ih =>
    refine (both_readWord word hy).bind ?_
    rintro ⟨new, m⟩ ⟨new', m'⟩ ⟨hnew, hm⟩
    simp only at hnew hm
    subst hnew
    simp only [← hm.matched_eq]
    by_cases hmatched : m.matched = true
    · obtain ⟨z, hz, hlength, hleft, hright⟩ := hm.level hmatched
      simp only [hmatched, if_true, hleft, hright]
      refine (ih hlength).bind ?_
      rintro ⟨words, stop⟩ ⟨words', stop'⟩ ⟨hwords, hstop⟩
      simp only at hwords hstop
      subst hwords
      refine both_ok ⟨rfl, ?_⟩
      rcases hstop with hlevel | -
      · exact .some (hlevel.mono (by omega))
      · exact .none
    · simp only [hmatched]
      exact both_ok ⟨rfl, .none⟩

theorem both_readWords {t : WordType} (old : List (Word t)) {y : Nat} (hy : y ≤ p.length) :
    Both (fun r r' => r.1 = r'.1 ∧ Match.Alike p y r.2 r'.2)
      (readWords old (p.left.cursor y) p.left.limit) (readWords old (p.right.cursor y) p.right.limit) := by
  refine (both_readWordsFrom old hy).bind ?_
  rintro ⟨words, stop⟩ ⟨words', stop'⟩ ⟨hwords, hstop⟩
  simp only at hwords hstop
  subst hwords
  rcases hstop with hlevel | -
  · exact both_ok ⟨rfl, alike_success hy hlevel⟩
  · exact both_ok ⟨rfl, alike_failure hy⟩

theorem both_readManyFrom (t : WordType) {left y : Nat} (hy : y ≤ p.length) :
    Both (fun r r' => r.1 = r'.1 ∧ p.Level (y + r.1.length) r.2 r'.2)
      (readManyFrom t p.left.limit left (p.left.cursor y))
      (readManyFrom t p.right.limit left (p.right.cursor y)) := by
  have hstop : p.Level (y + ([] : List (Word t)).length) (p.left.cursor y) (p.right.cursor y) :=
    level_cursor (Nat.le_refl y) hy
  induction left generalizing y with
  | zero => exact both_ok ⟨rfl, hstop⟩
  | succ left ih =>
    obtain ⟨hleft, hright⟩ := same_limit hy
    rw [readManyFrom, readManyFrom, hleft, hright]
    by_cases hend : y = p.length
    · simp only [hend, decide_true, if_true]
      rw [← hend]
      exact both_ok ⟨rfl, hstop⟩
    · simp only [hend, decide_false, Bool.false_eq_true, if_false]
      refine (both_readWord (Word.zero t) hy).bind ?_
      rintro ⟨new, m⟩ ⟨new', m'⟩ ⟨hnew, hm⟩
      simp only at hnew hm
      subst hnew
      simp only [← hm.matched_eq]
      by_cases hmatched : m.matched = true
      · obtain ⟨z, hz, hlength, hpos, hpos'⟩ := hm.level hmatched
        simp only [hmatched, if_true, hpos, hpos']
        refine (ih hlength (level_cursor (Nat.le_refl z) hlength)).bind ?_
        rintro ⟨words, c⟩ ⟨words', d⟩ ⟨hwords, hlevel⟩
        simp only at hwords hlevel
        subst hwords
        refine both_ok ⟨rfl, hlevel.mono ?_⟩
        simp only [List.length_cons]
        omega
      · simp only [hmatched]
        exact both_ok ⟨rfl, hstop⟩

theorem both_readMany (t : WordType) (min max : Nat) {y : Nat} (hy : y ≤ p.length) :
    Both (fun r r' => r.1 = r'.1 ∧ Match.Alike p (y + min) r.2 r'.2)
      (readMany t min max (p.left.cursor y) p.left.limit)
      (readMany t min max (p.right.cursor y) p.right.limit) := by
  refine (both_readManyFrom t hy).bind ?_
  rintro ⟨words, c⟩ ⟨words', d⟩ ⟨hwords, hlevel⟩
  simp only at hwords hlevel
  subst hwords
  exact both_ok ⟨rfl, alike_ite _ hy fun hmin => hlevel.mono (by omega)⟩

end Reads

end Terminal

end

end Pegwork
