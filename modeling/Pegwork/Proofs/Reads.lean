import Pegwork.Proofs.Cursor.Steps
import Pegwork.Proofs.Image

/-!
# Reading words in a window

The terminals for binary formats walk through a window of bytes with loops of their own: one compares,
one copies into a word, one goes over the words of an array, and one makes new words until the window
is used up. Here each of them is told by what is left of the window at its start.

* `literal_cursor`: a literal matches if its conditions hold of the next elements.
* `overlay_cursor`, `readWord_cursor`: a word is overwritten as far as the window reaches.
* `readWords_cursor`: the images of several words are overwritten as if they were one.
* `readMany_cursor`: as many words are made as the window holds whole, up to a limit.

None of them halts.
-/

namespace Pegwork.Terminal

section

variable {κ α : Type} [Cursor κ α] [Track κ α] [Steps κ α]

/-! ## Literals -/

/-- Each condition holds of the element at the same place, and there are enough elements. -/
def fulfilled : List (α → Bool) → List α → Bool
  | [], _ => true
  | _ :: _, [] => false
  | p :: conditions, a :: elements => p a && fulfilled conditions elements

/-- Comparing with the bytes of an image is looking for a prefix. -/
theorem fulfilled_bytes (bytes elements : List UInt8) :
    fulfilled (bytes.map fun b a => Element.byte? a == some b) elements =
      decide (bytes <+: elements) := by
  induction bytes generalizing elements with
  | nil => simp [fulfilled]
  | cons b bytes ih =>
    cases elements with
    | nil => simp [fulfilled]
    | cons a elements =>
      have hbyte : (Element.byte? a == some b) = decide (b = a) := by
        rw [Bool.eq_iff_iff, beq_iff_eq, decide_eq_true_iff]
        exact ⟨fun h => (Option.some.inj h).symm, fun h => h ▸ rfl⟩
      rw [List.map_cons, fulfilled, hbyte, ih, Bool.eq_iff_iff]
      simp [List.cons_prefix_cons]

theorem literalFrom_cursor (w : Window α) (hfits : Steps.Fits κ w.data)
    (conditions : List (α → Bool)) {x : Nat} (hx : x ≤ w.length) :
    literalFrom w.limit conditions (w.cursor x : κ) =
      .ok (if fulfilled conditions (w.elements.drop x) then some (w.cursor (x + conditions.length))
        else none) := by
  induction conditions generalizing x with
  | nil => rfl
  | cons p conditions ih =>
    rw [literalFrom]
    cases hrest : w.elements.drop x with
    | nil =>
      rw [w.next_of_drop_nil hx hrest]
      rfl
    | cons a rest =>
      obtain ⟨hnext, hlt, hdrop⟩ := w.next_of_drop_cons (κ := κ) hfits hrest
      rw [hnext]
      by_cases hp : p a = true
      · have hwhole := ih hlt
        rw [hdrop] at hwhole
        simp only [bind, Except.bind, hp, if_true, hwhole, fulfilled, Bool.true_and,
          List.length_cons, Nat.add_assoc, Nat.add_comm 1]
      · simp only [bind, Except.bind, hp, fulfilled, Bool.false_and]
        rfl

/-- A literal matches if its conditions hold of the first elements of the window. -/
theorem literal_cursor (w : Window α) (hfits : Steps.Fits κ w.data) (conditions : List (α → Bool)) :
    literal conditions (w.cursor 0 : κ) w.limit =
      .ok (if fulfilled conditions w.elements then .success (w.cursor 0) (w.cursor conditions.length)
        else .failure (w.cursor 0)) := by
  rw [literal, literalFrom_cursor w hfits conditions (Nat.zero_le _), List.drop_zero, Nat.zero_add]
  by_cases h : fulfilled conditions w.elements = true
  · simp only [h, if_true]
    rfl
  · simp only [h]
    rfl

end

variable {κ : Type} [Cursor κ UInt8] [Track κ UInt8] [Steps κ UInt8] {t : WordType}

/-! ## Single words -/

theorem overlay_cursor (w : Window UInt8) (hfits : Steps.Fits κ w.data) (old : List UInt8) {x : Nat}
    (hx : x ≤ w.length) :
    overlay w.limit old (w.cursor x : κ) =
      .ok (laid old (w.elements.drop x), w.cursor (x + min old.length (w.length - x)),
        decide (old.length ≤ w.length - x)) := by
  induction old generalizing x with
  | nil => simp [overlay]
  | cons byte old ih =>
    rw [overlay]
    cases hrest : w.elements.drop x with
    | nil =>
      -- The window ends here, and the byte stays with all that follow it.
      have hnone : w.length - x = 0 := by
        have hlength := congrArg List.length hrest
        simpa using hlength
      rw [w.next_of_drop_nil hx hrest, hnone]
      simp only [bind, Except.bind, laid_nil, Nat.min_zero, Nat.add_zero, List.length_cons,
        Nat.le_zero, Nat.succ_ne_zero, decide_false]
      rfl
    | cons a rest =>
      obtain ⟨hnext, hlt, hdrop⟩ := w.next_of_drop_cons (κ := κ) hfits hrest
      have hmin : x + min (old.length + 1) (w.length - x) =
          x + 1 + min old.length (w.length - (x + 1)) := by omega
      have henough : (old.length + 1 ≤ w.length - x) = (old.length ≤ w.length - (x + 1)) :=
        propext (by omega)
      have hbyte : Element.byte? a = some a := rfl
      rw [hnext]
      simp only [bind, Except.bind, hbyte, ih hlt, hdrop, laid_cons, List.length_cons, hmin, henough]
      rfl

/-- **Reading one word.** The image of the old word is overwritten as far as the window reaches, and the
read matches if that is all of it. -/
theorem readWord_cursor (w : Window UInt8) (hfits : Steps.Fits κ w.data) (old : Word t) {x : Nat}
    (hx : x ≤ w.length) :
    readWord old (w.cursor x : κ) w.limit =
      .ok (.ofImage t (laid old.image (w.elements.drop x)),
        if t.size ≤ w.length - x then .success (w.cursor x) (w.cursor (x + t.size))
        else .failure (w.cursor x)) := by
  rw [readWord, overlay_cursor w hfits old.image hx, Word.length_image]
  by_cases h : t.size ≤ w.length - x
  · simp only [h, decide_true, if_true, Nat.min_eq_left]
    rfl
  · simp only [h, decide_false]
    rfl

/-! ## A fixed number of words -/

theorem readWordsFrom_cursor (w : Window UInt8) (hfits : Steps.Fits κ w.data) (old : List (Word t))
    {x : Nat} (hx : x ≤ w.length) :
    ∃ words : List (Word t),
      readWordsFrom w.limit old (w.cursor x : κ) =
        .ok (words, if old.length * t.size ≤ w.length - x then
          some (w.cursor (x + old.length * t.size)) else none) ∧
      words.length = old.length ∧
      words.flatMap Word.image = laid (old.flatMap Word.image) (w.elements.drop x) := by
  induction old generalizing x with
  | nil => exact ⟨[], by simp [readWordsFrom], rfl, by simp⟩
  | cons word old ih =>
    have himage : ∀ bytes, (Word.ofImage t (laid word.image bytes)).image = laid word.image bytes :=
      fun bytes => Word.image_ofImage (by rw [length_laid, Word.length_image])
    have hsize : (old.length + 1) * t.size = t.size + old.length * t.size := by ring
    rw [readWordsFrom, readWord_cursor w hfits word hx]
    by_cases h : t.size ≤ w.length - x
    · -- The word is read whole, and the others go on behind it.
      obtain ⟨words, hread, hlength, hwords⟩ := ih (x := x + t.size) (by omega)
      refine ⟨.ofImage t (laid word.image (w.elements.drop x)) :: words, ?_, by simp [hlength], ?_⟩
      · have henough : (t.size + old.length * t.size ≤ w.length - x) =
            (old.length * t.size ≤ w.length - (x + t.size)) := propext (by omega)
        simp only [bind, Except.bind, h, if_true, Match.success_matched, Match.success_position,
          hread, List.length_cons, hsize, henough, ← Nat.add_assoc]
        rfl
      · rw [List.flatMap_cons, himage, hwords, List.flatMap_cons, laid_append, Word.length_image,
          List.drop_drop]
    · -- What is left of the window ends inside this word, and the others stay as they are.
      refine ⟨.ofImage t (laid word.image (w.elements.drop x)) :: old, ?_, rfl, ?_⟩
      · have hshort : ¬ (old.length + 1) * t.size ≤ w.length - x := by omega
        simp only [bind, Except.bind, h, if_false, Match.failure_matched, Bool.false_eq_true,
          List.length_cons, hshort]
        rfl
      · have hnone : (w.elements.drop x).drop word.image.length = [] := by
          rw [List.drop_eq_nil_iff, List.length_drop, Word.length_image, w.length_elements]
          omega
        rw [List.flatMap_cons, himage, List.flatMap_cons, laid_append, hnone, laid_nil]

/-- **Reading an array.** The images of all words together are overwritten as far as the window
reaches, and the read matches if that is all of them. -/
theorem readWords_cursor (w : Window UInt8) (hfits : Steps.Fits κ w.data) (old : List (Word t)) :
    ∃ words : List (Word t),
      readWords old (w.cursor 0 : κ) w.limit =
        .ok (words, if old.length * t.size ≤ w.length then
          .success (w.cursor 0) (w.cursor (old.length * t.size)) else .failure (w.cursor 0)) ∧
      words.length = old.length ∧
      words.flatMap Word.image = laid (old.flatMap Word.image) w.elements := by
  obtain ⟨words, hread, hlength, hwords⟩ := readWordsFrom_cursor w hfits old (Nat.zero_le _)
  rw [Nat.sub_zero, Nat.zero_add] at hread
  refine ⟨words, ?_, hlength, by simpa using hwords⟩
  rw [readWords, hread]
  by_cases h : old.length * t.size ≤ w.length
  · simp only [h, if_true]
    rfl
  · simp only [h, if_false]
    rfl

/-! ## As many words as there are -/

theorem readManyFrom_cursor (w : Window UInt8) (hfits : Steps.Fits κ w.data) (left : Nat) {x : Nat}
    (hx : x ≤ w.length) :
    readManyFrom t w.limit left (w.cursor x : κ) =
      .ok (Word.decode t (min left ((w.length - x) / t.size)) (w.elements.drop x),
        w.cursor (x + min left ((w.length - x) / t.size) * t.size)) := by
  have hpos := t.size_pos
  induction left generalizing x with
  | zero => simp [readManyFrom, Word.decode]
  | succ left ih =>
    have hsame : Walk.same (w.cursor x : κ) w.limit = decide (x = w.length) :=
      w.same_cursor hx (Nat.le_refl _)
    rw [readManyFrom, hsame]
    by_cases hend : x = w.length
    · simp [hend, Word.decode]
    · rw [readWord_cursor w hfits (Word.zero t) hx]
      by_cases h : t.size ≤ w.length - x
      · -- One word more, made of nothing but bytes of the window.
        have hrest : (w.length - x) / t.size = (w.length - (x + t.size)) / t.size + 1 := by
          rw [← Nat.sub_sub, ← Nat.div_eq_sub_div hpos h]
        have hword : laid (Word.zero t).image (w.elements.drop x) =
            (w.elements.drop x).take t.size := by
          rw [laid_of_length_le, Word.length_image]
          rwa [Word.length_image, List.length_drop, w.length_elements]
        have hcursor : ∀ k, x + (k + 1) * t.size = x + t.size + k * t.size := fun k => by ring
        simp only [bind, Except.bind, hend, decide_false, Bool.false_eq_true, if_false, h, if_true,
          Match.success_matched, Match.success_position, ih (x := x + t.size) (by omega), hrest,
          Nat.add_min_add_right, Word.decode, hword, List.drop_drop, hcursor]
        rfl
      · have hnone : (w.length - x) / t.size = 0 := Nat.div_eq_of_lt (by omega)
        simp only [bind, Except.bind, hend, decide_false, Bool.false_eq_true, if_false, h,
          Match.failure_matched, hnone, Nat.min_zero, Word.decode, Nat.zero_mul, Nat.add_zero]
        rfl

/-- **Reading a sequence.** The words are those that the window holds whole, up to the upper limit. -/
theorem readMany_cursor (w : Window UInt8) (hfits : Steps.Fits κ w.data) (least most : Nat) :
    readMany t least most (w.cursor 0 : κ) w.limit =
      .ok (Word.decode t (min most (w.length / t.size)) w.elements,
        if least ≤ min most (w.length / t.size) then
          .success (w.cursor 0) (w.cursor (min most (w.length / t.size) * t.size))
        else .failure (w.cursor 0)) := by
  rw [readMany, readManyFrom_cursor w hfits most (Nat.zero_le _)]
  simp only [bind, Except.bind, Word.length_decode, Nat.sub_zero, Nat.zero_add, List.drop_zero]
  rfl

end Pegwork.Terminal
