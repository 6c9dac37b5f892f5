import Pegwork.Proofs.Contract
import Pegwork.Proofs.Reads
import Pegwork.Proofs.Twin.Rule

/-!
# Variables that are read

The binary reads are the rules that write: into one word, into an array, or into a sequence. What they
write is told here by the bytes of the window they are offered, and all else in the store stays as it
is (`Store.Rewritten`).

* `Rule.fixed_reads_overlay`: a word or an array is overwritten byte by byte, as far as the window
  reaches, whether the read matches or not.
* `Rule.sequence_read_exact`: a sequence holds the whole words of the window afterwards, and nothing of
  what it held before.
* `Rule.image_and_read_agree`: images are in bijection with words, and comparing with the image of a word
  is reading that word.

A variable that is lent out is left alone, with one warning.
-/

namespace Pegwork

/-! ## Stores -/

namespace Store

variable {κ β : Type}

/-- The store `t` is the store `s` in which the variable `name`, which was `v`, has got new words. -/
structure Rewritten (s t : Store κ β) (name : String) (v : Variable) (words : List (Word v.type)) :
    Prop where
  /-- The variable holds the new words; its type, its shape and its being lent are the same. -/
  content : t.content? name = some { v with words }
  /-- No other variable has changed. -/
  others : ∀ other, other ≠ name → t.content? other = s.content? other
  /-- The flags are the same. -/
  raised : t.raised = s.raised
  /-- Nothing has been left on the trail. -/
  trail : t.trail = s.trail

theorem rewritten_setVariable {s : Store κ β} {name : String} {v : Variable}
    (hv : s.content? name = some v) (words : List (Word v.type)) :
    s.Rewritten (s.setVariable name { v with words }) name v words where
  content := by simp [content?_setVariable, hv]
  others other hother := by simp [content?_setVariable, hother]
  raised := rfl
  trail := rfl

end Store

/-! ## Reading rules -/

namespace Meaning

open Run

section Content

variable {κ α β : Type} [Cursor κ α] [Element α] {s t : Store κ β} {name : String} {v : Variable}
  {i j : κ} {m : Match κ}

theorem readWord_ends (hv : s.content? name = some v) (h : (overwrite name v i j).Ends s m t) :
    (readWord name i j).Ends s m t := by
  refine ends_bind.2 ⟨s, s, ends_get.2 ⟨rfl, rfl⟩, ?_⟩
  simp only [hv]
  exact h

theorem readArray_ends (hv : s.content? name = some v) (hfree : v.lent = false)
    (h : (overwrite name v i j).Ends s m t) : (readArray name i j).Ends s m t := by
  refine ends_bind.2 ⟨s, s, ends_get.2 ⟨rfl, rfl⟩, ?_⟩
  simp only [hv, hfree]
  exact h

theorem readArray_ends_of_lent (hv : s.content? name = some v) (hlent : v.lent = true) :
    (readArray name i j).Ends s (.failure i) (s.record (.warning .lentArray)) := by
  refine ends_bind.2 ⟨s, s, ends_get.2 ⟨rfl, rfl⟩, ?_⟩
  simp only [hv, hlent, if_true]
  exact (ends_warn i j s _ _).2 ⟨rfl, rfl⟩

theorem readSequence_ends {least most : Nat} {words : List (Word v.type)}
    (hv : s.content? name = some v) (hfree : v.lent = false)
    (h : Terminal.readMany v.type least most i j = .ok (words, m)) :
    (readSequence name least most i j).Ends s m (s.setVariable name { v with words }) := by
  refine ends_bind.2 ⟨s, s, ends_get.2 ⟨rfl, rfl⟩, ?_⟩
  simp only [hv, hfree]
  exact ends_bind.2 ⟨_, s, ends_lift.2 ⟨h, rfl⟩, ends_modify_pure _ m s⟩

theorem readSequence_ends_of_lent {least most : Nat} (hv : s.content? name = some v)
    (hlent : v.lent = true) :
    (readSequence name least most i j).Ends s (.failure i) (s.record (.warning .lentSequence)) := by
  refine ends_bind.2 ⟨s, s, ends_get.2 ⟨rfl, rfl⟩, ?_⟩
  simp only [hv, hlent, if_true]
  exact (ends_warn i j s _ _).2 ⟨rfl, rfl⟩

end Content

section Bytes

variable {κ β : Type} [Cursor κ UInt8] [Track κ UInt8] [Steps κ UInt8] {s : Store κ β}
  {name : String} {v : Variable}

/-- **Overwriting a variable.** Afterwards its image is what stands in memory after the window has been
copied over it. -/
theorem overwrite_ends (w : Window UInt8) (hfits : Steps.Fits κ w.data)
    (hv : s.content? name = some v) :
    ∃ (words : List (Word v.type)) (t : Store κ β),
      (overwrite name v (w.cursor 0 : κ) w.limit).Ends s
        (if v.words.length * v.type.size ≤ w.length then
          .success (w.cursor 0) (w.cursor (v.words.length * v.type.size))
        else .failure (w.cursor 0)) t ∧
      s.Rewritten t name v words ∧ words.length = v.words.length ∧
      words.flatMap Word.image = laid v.image w.elements := by
  obtain ⟨words, hread, hlength, hwords⟩ := Terminal.readWords_cursor w hfits v.words
  refine ⟨words, s.setVariable name { v with words }, ?_, Store.rewritten_setVariable hv words,
    hlength, hwords⟩
  exact ends_bind.2 ⟨_, s, ends_lift.2 ⟨hread, rfl⟩, ends_modify_pure _ _ s⟩

/-- **Reading into a variable of one word.** The image of the word is what stands in memory after the
window has been copied over it. -/
theorem readWord_overlays (w : Window UInt8) (hfits : Steps.Fits κ w.data) {old : Word v.type}
    (hv : s.content? name = some v) (hold : v.words = [old]) :
    ∃ (new : Word v.type) (t : Store κ β),
      (readWord name (w.cursor 0 : κ) w.limit).Ends s
        (if v.type.size ≤ w.length then .success (w.cursor 0) (w.cursor v.type.size)
        else .failure (w.cursor 0)) t ∧
      s.Rewritten t name v [new] ∧ new.image = laid old.image w.elements := by
  obtain ⟨words, t, hend, hrewritten, hlength, hwords⟩ := overwrite_ends w hfits hv
  obtain ⟨new, rfl⟩ : ∃ new, words = [new] := List.length_eq_one_iff.1 (by rw [hlength, hold]; rfl)
  have hone : v.words.length * v.type.size = v.type.size := by simp [hold]
  rw [hone] at hend
  exact ⟨new, t, readWord_ends hv hend, hrewritten, by simpa [Variable.image, hold] using hwords⟩

end Bytes

end Meaning

/-! ## Main results -/

theorem Variable.length_image (v : Variable) : v.image.length = v.words.length * v.type.size :=
  Word.length_flatMap_image v.words

namespace Rule

variable {κ β γ : Type} [Cursor κ UInt8] [Track κ UInt8] [Steps κ UInt8]

/-- **Reading words of a fixed number.** Reading an array matches if the window has as many bytes as the
array, and consumes just these. In every case the image of the array is afterwards the first bytes of the
window, as far as both reach, followed by the rest of the old image; after a match it does not depend on
the old image at all. Reading a single word is reading an array of one. An array that is lent out is left
alone, and the read fails with a warning. -/
theorem fixed_reads_overlay (foreign : γ → κ → κ → Match κ) (cells : Cells UInt8 β γ) (depth : Nat)
    (w : Window UInt8) (hfits : Steps.Fits κ w.data) (s : Store κ β) (name : String) (v : Variable)
    (hv : s.content? name = some v) :
    (v.lent = false → ∃ (words : List (Word v.type)) (t : Store κ β),
      ((readArray name).parse foreign cells depth (w.cursor 0) w.limit).Ends s
        (if v.words.length * v.type.size ≤ w.length then
          .success (w.cursor 0) (w.cursor (v.words.length * v.type.size))
        else .failure (w.cursor 0)) t ∧
      s.Rewritten t name v words ∧ words.length = v.words.length ∧
      words.flatMap Word.image = w.elements.take (min w.length (v.words.length * v.type.size)) ++
        v.image.drop (min w.length (v.words.length * v.type.size)) ∧
      (v.words.length * v.type.size ≤ w.length →
        words = Word.decode v.type v.words.length w.elements)) ∧
    (∀ old, v.words = [old] → ∃ (new : Word v.type) (t : Store κ β),
      ((readWord name).parse foreign cells depth (w.cursor 0) w.limit).Ends s
        (if v.type.size ≤ w.length then .success (w.cursor 0) (w.cursor v.type.size)
        else .failure (w.cursor 0)) t ∧
      s.Rewritten t name v [new] ∧
      new.image = w.elements.take (min w.length v.type.size) ++
        old.image.drop (min w.length v.type.size) ∧
      (v.type.size ≤ w.length → new = .ofImage v.type (w.elements.take v.type.size))) ∧
    (v.lent = true →
      ((readArray name).parse foreign cells depth (w.cursor 0) w.limit).Ends s (.failure (w.cursor 0))
        (s.record (.warning .lentArray))) := by
  simp only [parse_eq]
  refine ⟨?_, ?_, ?_⟩
  · intro hfree
    obtain ⟨words, t, hend, hrewritten, hlength, hwords⟩ := Meaning.overwrite_ends w hfits hv
    refine ⟨words, t, Meaning.readArray_ends hv hfree hend, hrewritten, hlength, ?_, ?_⟩
    · rw [hwords, laid_eq_take_append_drop, w.length_elements, v.length_image]
    · intro henough
      rw [← hlength]
      apply Word.eq_decode_of_flatMap_image
      rw [hwords, hlength, laid_of_length_le, v.length_image]
      rwa [v.length_image, w.length_elements]
  · intro old hold
    obtain ⟨new, t, hend, hrewritten, hnew⟩ := Meaning.readWord_overlays w hfits hv hold
    refine ⟨new, t, hend, hrewritten, ?_, ?_⟩
    · rw [hnew, laid_eq_take_append_drop, w.length_elements, Word.length_image]
    · intro henough
      have hwhole : new.image = w.elements.take v.type.size := by
        rw [hnew, laid_of_length_le, Word.length_image]
        rwa [Word.length_image, w.length_elements]
      rw [← hwhole, Word.ofImage_image]
  · intro hlent
    exact Meaning.readArray_ends_of_lent hv hlent

/-- Three bytes for an array of two words: the read fails and leaves the last old byte in place. -/
theorem fixed_reads_overlay_short :
    let w : Window UInt8 := ⟨0, [9, 1, 2, 3, 9], 1, 3, by decide⟩
    let v : Variable := ⟨.signed .bits16, .array, [⟨0x1122⟩, ⟨0xF344⟩], false⟩
    let s : Store (SliceCursor UInt8) String := { memory := [("other", v), ("a", v)] }
    ∃ (words : List (Word v.type)) (t : Store (SliceCursor UInt8) String),
      ((readArray "a" : Rule UInt8 String Unit).parse (fun _ i _ => .stay true i) [] 0
        (w.cursor 0) w.limit).Ends s (.failure (w.cursor 0)) t ∧
      s.Rewritten t "a" v words ∧ words.flatMap Word.image = [1, 2, 3, 0xF3] := by
  intro w v s
  obtain ⟨words, t, hend, hrewritten, -, hwords, -⟩ :=
    (fixed_reads_overlay (κ := SliceCursor UInt8) (β := String) (γ := Unit)
      (fun _ i _ => .stay true i) [] 0 w (by decide : 5 < Size.bound) s "a" v rfl).1 rfl
  exact ⟨words, t, hend, hrewritten, hwords.trans (by decide)⟩

/-- **Reading a sequence.** Afterwards the variable holds just the whole words of the window, as many as
the upper limit allows, in order, whatever it held before and whether the read matches or not. It matches
if they are as many as the lower limit asks for, and consumes their bytes. So words of which the images
were written one after the other are read back, unless the bytes behind them make up a word more. A
sequence that is lent out is left alone, and the read fails with a warning. -/
theorem sequence_read_exact (foreign : γ → κ → κ → Match κ) (cells : Cells UInt8 β γ) (depth : Nat)
    (w : Window UInt8) (hfits : Steps.Fits κ w.data) (s : Store κ β) (name : String) (v : Variable)
    (hv : s.content? name = some v) (least most : Nat) :
    (v.lent = false → ∃ t : Store κ β,
      ((readSequence name least most).parse foreign cells depth (w.cursor 0) w.limit).Ends s
        (if least ≤ min most (w.length / v.type.size) then
          .success (w.cursor 0) (w.cursor (min most (w.length / v.type.size) * v.type.size))
        else .failure (w.cursor 0)) t ∧
      s.Rewritten t name v (Word.decode v.type (min most (w.length / v.type.size)) w.elements) ∧
      ∀ (words : List (Word v.type)) (tail : List UInt8),
        w.elements = words.flatMap Word.image ++ tail → tail.length < v.type.size →
        words.length ≤ most →
          min most (w.length / v.type.size) = words.length ∧ s.Rewritten t name v words) ∧
    (v.lent = true →
      ((readSequence name least most).parse foreign cells depth (w.cursor 0) w.limit).Ends s
        (.failure (w.cursor 0)) (s.record (.warning .lentSequence))) := by
  simp only [parse_eq]
  constructor
  · intro hfree
    have hread := Terminal.readMany_cursor (t := v.type) w hfits least most
    have hrewritten := Store.rewritten_setVariable hv
      (Word.decode v.type (min most (w.length / v.type.size)) w.elements)
    refine ⟨_, Meaning.readSequence_ends hv hfree hread, hrewritten, ?_⟩
    intro words tail hwhole htail hmost
    -- The window holds these words and no other one whole.
    have hcount : w.length / v.type.size = words.length := by
      rw [← w.length_elements, hwhole, List.length_append, Word.length_flatMap_image, Nat.add_comm,
        Nat.add_mul_div_right _ _ v.type.size_pos, Nat.div_eq_of_lt htail, Nat.zero_add]
    rw [hcount, Nat.min_eq_right hmost, hwhole, Word.decode_flatMap_image] at hrewritten ⊢
    exact ⟨rfl, hrewritten⟩
  · intro hlent
    exact Meaning.readSequence_ends_of_lent hv hlent

/-- Two words and a byte where three words are needed: the read fails, and the two have replaced what
was there. -/
theorem sequence_read_exact_failing :
    let w : Window UInt8 := ⟨0, [9, 1, 2, 3, 4, 5, 9], 1, 5, by decide⟩
    let v : Variable := ⟨.unsigned .bits16, .sequence, [⟨0xFFFF⟩], false⟩
    let s : Store (SliceCursor UInt8) String := { memory := [("a", v)] }
    ∃ t : Store (SliceCursor UInt8) String,
      ((readSequence "a" 3 Size.top : Rule UInt8 String Unit).parse (fun _ i _ => .stay true i) [] 0
        (w.cursor 0) w.limit).Ends s (.failure (w.cursor 0)) t ∧
      s.Rewritten t "a" v [⟨0x0201⟩, ⟨0x0403⟩] := by
  intro w v s
  obtain ⟨t, hend, -, hwords⟩ :=
    (sequence_read_exact (κ := SliceCursor UInt8) (β := String) (γ := Unit)
      (fun _ i _ => .stay true i) [] 0 w (by decide : 7 < Size.bound) s "a" v rfl 3 Size.top).1 rfl
  rw [if_neg (by decide)] at hend
  exact ⟨t, hend, (hwords [⟨0x0201⟩, ⟨0x0403⟩] [5] (by decide) (by decide) (by decide)).2⟩

theorem image_ends (foreign : γ → κ → κ → Match κ) (cells : Cells UInt8 β γ) (depth : Nat)
    (w : Window UInt8) (hfits : Steps.Fits κ w.data) (s : Store κ β) {t : WordType} (v : Word t) :
    ((image v).parse foreign cells depth (w.cursor 0) w.limit).Ends s
      (if v.image <+: w.elements then .success (w.cursor 0) (w.cursor t.size)
      else .failure (w.cursor 0)) s := by
  have hliteral := Terminal.literal_cursor w hfits
    (v.image.map fun b a => Element.byte? a == some b)
  simp only [Terminal.fulfilled_bytes, decide_eq_true_iff, List.length_map, Word.length_image]
    at hliteral
  rw [parse_eq]
  exact Run.ends_lift.2 ⟨hliteral, rfl⟩

/-- **Images and words.** Making a word of an image and the image of a word are inverse to each other, and
the image has the lowest bits first. In every window, comparing with the image of a word matches if and
only if reading a variable of its type matches there and makes its image the same; both then stop behind
the image. -/
theorem image_and_read_agree (foreign : γ → κ → κ → Match κ) (cells : Cells UInt8 β γ) (depth : Nat)
    (w : Window UInt8) (hfits : Steps.Fits κ w.data) :
    (∀ (t : WordType) (v : Word t), Word.ofImage t v.image = v) ∧
    (∀ (t : WordType) (bytes : List UInt8), bytes.length = t.size →
      (Word.ofImage t bytes).image = bytes) ∧
    (∀ (t : WordType) (v : Word t) (i : Nat), i < t.size →
      v.image[i]? = some (UInt8.ofNat (v.bits.toNat / 256 ^ i % 256))) ∧
    ∀ (s : Store κ β) (name : String) (x : Variable) (v old : Word x.type),
      s.content? name = some x → x.words = [old] →
      ∃ (m m' : Match κ) (t : Store κ β) (new : Word x.type),
        ((image v).parse foreign cells depth (w.cursor 0) w.limit).Ends s m s ∧
        ((readWord name).parse foreign cells depth (w.cursor 0) w.limit).Ends s m' t ∧
        s.Rewritten t name x [new] ∧
        (m.matched = true ↔ m'.matched = true ∧ new.image = v.image) ∧
        (m.matched = true ↔ v.image <+: w.elements) ∧
        (m.matched = true → m.position = w.cursor x.type.size ∧ m'.position = w.cursor x.type.size) := by
  refine ⟨fun t v => v.ofImage_image, fun t bytes => Word.image_ofImage,
    fun t v i hi => getElem?_bytesOf v.bits.toNat hi, ?_⟩
  intro s name x v old hx hold
  obtain ⟨new, t, hend, hrewritten, hnew⟩ := Meaning.readWord_overlays w hfits hx hold
  have hsame : v.image <+: w.elements ↔ x.type.size ≤ w.length ∧ new.image = v.image := by
    have hlength : v.image.length = old.image.length := by
      rw [Word.length_image, Word.length_image]
    have hprefix : v.image <+: w.elements ↔
        old.image.length ≤ w.elements.length ∧ laid old.image w.elements = v.image :=
      prefix_iff_laid_eq hlength
    rwa [Word.length_image, w.length_elements, ← hnew] at hprefix
  refine ⟨_, _, t, new, image_ends foreign cells depth w hfits s v, by rwa [parse_eq], hrewritten,
    ?_⟩
  by_cases hbytes : v.image <+: w.elements
  · obtain ⟨hlength, himage⟩ := hsame.1 hbytes
    simp [hbytes, hlength, himage]
  · by_cases hlength : x.type.size ≤ w.length
    · have himage : new.image ≠ v.image := fun h => hbytes (hsame.2 ⟨hlength, h⟩)
      simp [hbytes, himage]
    · simp [hbytes, hlength]

/-- Four bytes behind another one are those of a negative number, so that both terminals match, whatever
the variable held. -/
theorem image_and_read_agree_negative :
    let w : Window UInt8 := ⟨0, [0, 0xFE, 0xFF, 0xFF, 0xFF], 1, 4, by decide⟩
    let x : Variable := ⟨.signed .bits32, .single, [⟨7⟩], false⟩
    let s : Store (SliceCursor UInt8) String := { memory := [("a", x)] }
    let v : Word x.type := ⟨BitVec.ofInt 32 (-2)⟩
    ∃ (m m' : Match (SliceCursor UInt8)) (t : Store (SliceCursor UInt8) String) (new : Word x.type),
      ((image v : Rule UInt8 String Unit).parse (fun _ i _ => .stay true i) [] 0
        (w.cursor 0) w.limit).Ends s m s ∧
      ((readWord "a" : Rule UInt8 String Unit).parse (fun _ i _ => .stay true i) [] 0
        (w.cursor 0) w.limit).Ends s m' t ∧
      m.matched = true ∧ m'.matched = true ∧ m.position = w.cursor 4 ∧ m'.position = w.cursor 4 ∧
      s.Rewritten t "a" x [new] ∧ new.image = v.image := by
  intro w x s v
  obtain ⟨-, -, -, hagree⟩ := image_and_read_agree (κ := SliceCursor UInt8) (β := String) (γ := Unit)
    (fun _ i _ => .stay true i) [] 0 w (by decide : 5 < Size.bound)
  obtain ⟨m, m', t, new, hend, hend', hrewritten, hmatched, hprefix, hposition⟩ :=
    hagree s "a" x v ⟨7⟩ rfl rfl
  have hm : m.matched = true := hprefix.2 (by decide)
  exact ⟨m, m', t, new, hend, hend', hm, (hmatched.1 hm).1, (hposition hm).1, (hposition hm).2,
    hrewritten, (hmatched.1 hm).2⟩

end Rule

end Pegwork
