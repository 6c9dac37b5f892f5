import Mathlib
import Pegwork.Cursor.Slice
import Pegwork.Cursor.Text
import Pegwork.Proofs.Run

/-!
# Places of an input

Every cursor that a parse can meet stands at a place of some input: behind a number of its elements. A
text cursor in such a place knows the line, the column and the byte offset that belong to what lies
before it; the three numbers are written out in `Position.behind`, without the overflow checks that
the running definitions make at each step.

* `TextCursor.Fits` is a text that fits into memory. None of its positions leaves the range of sizes,
  so that stepping through it never halts.
* `Track` gathers what the two kinds of cursors have in common: places can be counted, comparing two
  places is deciding whether they are equal, and the distance between two of them is the difference of
  their indices.
-/

namespace Pegwork

/-! ## Bytes of a text -/

/-- The number of bytes of a text in its UTF-8 form. -/
def Text.bytes (text : List Char) : Nat := (text.map Char.utf8Size).sum

namespace Text

@[simp] theorem bytes_nil : bytes [] = 0 := rfl

@[simp] theorem bytes_cons (c : Char) (text : List Char) :
    bytes (c :: text) = c.utf8Size + bytes text := rfl

@[simp] theorem bytes_append (text more : List Char) :
    bytes (text ++ more) = bytes text + bytes more := by
  simp [bytes]

theorem bytes_toList (text : String) : bytes text.toList = text.utf8ByteSize := by
  have hlist : ∀ cs : List Char, (String.ofList cs).utf8ByteSize = bytes cs := by
    intro cs
    induction cs with
    | nil => rfl
    | cons c cs ih =>
      rw [← List.singleton_append, String.ofList_append, String.utf8ByteSize_append, ih,
        ← String.singleton_eq_ofList, String.utf8ByteSize_singleton]
      rfl
  rw [← hlist, String.ofList_toList]

theorem length_le_bytes (text : List Char) : text.length ≤ bytes text := by
  induction text with
  | nil => simp
  | cons c text ih =>
    have hsize := c.utf8Size_pos
    simp only [List.length_cons, bytes_cons]
    omega

theorem eq_nil_of_bytes_eq_zero {text : List Char} (h : bytes text = 0) : text = [] := by
  have hlength := length_le_bytes text
  exact List.eq_nil_of_length_eq_zero (by omega)

/-- Two ways to cut a text behind the same byte are the same. -/
theorem append_inj_of_bytes {a b c d : List Char} (h : a ++ b = c ++ d)
    (hbytes : bytes a = bytes c) : a = c ∧ b = d := by
  rcases List.append_eq_append_iff.1 h with ⟨e, rfl, rfl⟩ | ⟨e, rfl, rfl⟩
  · have he : e = [] := eq_nil_of_bytes_eq_zero (by simpa using hbytes)
    simp [he]
  · have he : e = [] := eq_nil_of_bytes_eq_zero (by simpa using hbytes)
    simp [he]

end Text

/-! ## Positions -/

namespace Position

/-- The position behind a text: the newlines, the characters since the last of them, and the bytes. -/
def behind (text : List Char) : Position :=
  ⟨1 + text.count '\n', 1 + (text.reverse.takeWhile (· != '\n')).length, Text.bytes text⟩

@[simp] theorem behind_offset (text : List Char) : (behind text).offset = Text.bytes text := rfl

theorem behind_nil : behind [] = start := rfl

/-- All three numbers are sizes. -/
def Small (p : Position) : Prop :=
  p.line < Size.bound ∧ p.column < Size.bound ∧ p.offset < Size.bound

/-- One character on, unless the new position is no longer small. -/
theorem after_behind (text : List Char) (c : Char) (h : (behind (text ++ [c])).Small) :
    (behind text).after c = .ok (behind (text ++ [c])) := by
  obtain ⟨hline, hcolumn, hoffset⟩ := h
  by_cases hc : c = '\n'
  · subst hc
    have hlines : (behind (text ++ ['\n'])).line = (behind text).line + 1 := by
      simp [behind, Nat.add_assoc]
    have hbytes : (behind (text ++ ['\n'])).offset = (behind text).offset + 1 := by
      simp [behind, show Char.utf8Size '\n' = 1 from rfl]
    rw [hlines] at hline
    rw [hbytes] at hoffset
    rw [after, if_pos rfl, Size.add_eq_ok hline, Size.add_eq_ok hoffset]
    simp [behind, bind, Except.bind, pure, Except.pure, Nat.add_assoc,
      show Char.utf8Size '\n' = 1 from rfl]
  · have hcolumns : (behind (text ++ [c])).column = (behind text).column + 1 := by
      simp [behind, hc, Nat.add_assoc]
    have hbytes : (behind (text ++ [c])).offset = (behind text).offset + c.utf8Size := by
      simp [behind]
    rw [hcolumns] at hcolumn
    rw [hbytes] at hoffset
    rw [after, if_neg hc, Size.add_eq_ok hcolumn, Size.add_eq_ok hoffset]
    simp [behind, bind, Except.bind, pure, Except.pure, hc, Nat.add_assoc]

end Position

/-! ## Texts that fit -/

namespace TextCursor

/-- The text fits into memory: it has less than `2 ^ 63` bytes. -/
def Fits (text : List Char) : Prop := Text.bytes text < 2 ^ 63

theorem fits_toList {text : String} (h : text.utf8ByteSize < 2 ^ 63) : Fits text.toList := by
  rw [Fits, Text.bytes_toList]
  exact h

theorem Fits.of_append {text more : List Char} (h : Fits (text ++ more)) : Fits text := by
  unfold Fits at *
  simp only [Text.bytes_append] at h
  omega

theorem Fits.length_lt {text : List Char} (h : Fits text) : text.length < 2 ^ 63 :=
  Nat.lt_of_le_of_lt (Text.length_le_bytes text) h

/-- The line, the column and the offset behind a text that fits are sizes. -/
theorem Fits.small {text : List Char} (h : Fits text) : (Position.behind text).Small := by
  have hbytes : Text.bytes text < 2 ^ 63 := h
  have hlength := h.length_lt
  have hlines : text.count '\n' ≤ text.length := List.count_le_length
  have hcolumns : (text.reverse.takeWhile (· != '\n')).length ≤ text.length := by
    have hle := (List.takeWhile_prefix (p := (· != '\n')) (l := text.reverse)).length_le
    simpa using hle
  refine ⟨?_, ?_, ?_⟩
  · show 1 + text.count '\n' < Size.bound
    unfold Size.bound
    omega
  · show 1 + (text.reverse.takeWhile (· != '\n')).length < Size.bound
    unfold Size.bound
    omega
  · show Text.bytes text < Size.bound
    unfold Size.bound
    omega

theorem afterAll_behind {before text : List Char} (h : Fits (before ++ text)) :
    (Position.behind before).afterAll text = .ok (Position.behind (before ++ text)) := by
  induction text generalizing before with
  | nil => simp [Position.afterAll, pure, Except.pure]
  | cons c text ih =>
    have hstep : (Position.behind before).afterAll (c :: text) = (do
        let q ← (Position.behind before).after c
        q.afterAll text) := by
      simp [Position.afterAll]
    have hassoc : before ++ c :: text = (before ++ [c]) ++ text := by simp
    rw [hassoc] at h
    rw [hstep, hassoc, Position.after_behind before c h.of_append.small]
    exact ih h

/-! ## Text cursors -/

/-- The cursor of a text between what lies before it and the rest. -/
def behind (source : Nat) (before rest : List Char) : TextCursor :=
  ⟨source, Position.behind before, rest⟩

@[simp] theorem behind_position (source : Nat) (before rest : List Char) :
    (behind source before rest).position = Position.behind before := rfl

@[simp] theorem behind_offset (source : Nat) (before rest : List Char) :
    (behind source before rest).offset = Text.bytes before := rfl

theorem ending_eq (source : Nat) {text : List Char} (h : Fits text) :
    ending source text = .ok (behind source text []) := by
  have hall : Position.start.afterAll text = .ok (Position.behind text) := by
    have hcount := @afterAll_behind [] text h
    rwa [Position.behind_nil, List.nil_append] at hcount
  rw [ending, hall]
  rfl

theorem takeBytes_append (text more : List Char) :
    takeBytes (Text.bytes text) (text ++ more) = some text := by
  induction text with
  | nil => simp [takeBytes]
  | cons c text ih =>
    have hsize := c.utf8Size_pos
    obtain ⟨n, hn⟩ : ∃ n, Text.bytes (c :: text) = n + 1 :=
      ⟨Text.bytes (c :: text) - 1, by simp only [Text.bytes_cons]; omega⟩
    have hn' : c.utf8Size + Text.bytes text = n + 1 := hn
    have hle : c.utf8Size ≤ n + 1 := by omega
    have hleft : n + 1 - c.utf8Size = Text.bytes text := by omega
    rw [hn, List.cons_append, takeBytes, if_pos hle, hleft, ih]
    rfl

/-- What lies between two cursors of a text is what the second has gone past. -/
theorem slice_behind (source : Nat) (before text rest : List Char) :
    (behind source before (text ++ rest)).slice (behind source (before ++ text) rest) = text := by
  have hle : Text.bytes before ≤ Text.bytes before + Text.bytes text := Nat.le_add_right _ _
  unfold slice
  simp only [behind_offset, Text.bytes_append, hle, if_true, Nat.add_sub_cancel_left]
  rw [behind, takeBytes_append]
  rfl

/-- What lies before the second of two places, cut at the first. -/
theorem take_cut (data : List Char) {k l : Nat} (hkl : k ≤ l) :
    data.take l = data.take k ++ (data.drop k).take (l - k) := by
  rw [← List.take_add, Nat.add_sub_cancel' hkl]

/-- Between two places of a text lie the characters with the indices in between. -/
theorem slice_take_drop (source : Nat) (data : List Char) {k l : Nat} (hkl : k ≤ l) :
    (behind source (data.take k) (data.drop k)).slice (behind source (data.take l) (data.drop l)) =
      (data.drop k).take (l - k) := by
  have hdrop : data.drop k = (data.drop k).take (l - k) ++ data.drop l := by
    have hcut := List.take_append_drop (l - k) (data.drop k)
    rw [List.drop_drop, Nat.add_sub_cancel' hkl] at hcut
    exact hcut.symm
  have hslice := slice_behind source (data.take k) ((data.drop k).take (l - k)) (data.drop l)
  rwa [← hdrop, ← take_cut data hkl] at hslice

theorem advance_behind (source : Nat) {before rest : List Char} {c : Char}
    (h : Fits (before ++ c :: rest)) :
    (behind source before (c :: rest)).advance = .ok (behind source (before ++ [c]) rest) := by
  rw [List.append_cons] at h
  show (do
    let position ← (Position.behind before).after c
    return (⟨source, position, rest⟩ : TextCursor)) = _
  rw [Position.after_behind before c h.of_append.small]
  rfl

/-- The next character, in front of any limit that lies further on. -/
theorem next_of_lt (source : Nat) {before rest : List Char} {c : Char} {limit : TextCursor}
    (h : Fits (before ++ c :: rest)) (hlt : Text.bytes before < limit.offset) :
    (behind source before (c :: rest)).next limit =
      .ok (some (c, behind source (before ++ [c]) rest)) := by
  have hpeek : (behind source before (c :: rest)).peek limit = some c := by
    unfold peek
    rw [behind_offset, if_pos hlt]
    rfl
  rw [List.append_cons] at h
  unfold next
  rw [hpeek]
  simp only [behind_position]
  rw [Position.after_behind before c h.of_append.small]
  rfl

/-- The next character, with the end of the text as the limit. -/
theorem next_behind (source : Nat) {before rest : List Char} {c : Char}
    (h : Fits (before ++ c :: rest)) :
    (behind source before (c :: rest)).next (behind source (before ++ c :: rest) []) =
      .ok (some (c, behind source (before ++ [c]) rest)) := by
  have hlt : Text.bytes before < Text.bytes (before ++ c :: rest) := by
    have hsize := c.utf8Size_pos
    simp only [Text.bytes_append, Text.bytes_cons]
    omega
  exact next_of_lt source h hlt

/-- There is nothing to read at the limit. -/
theorem next_behind_limit (source : Nat) (before rest : List Char) :
    (behind source before rest).next (behind source before []) = .ok none := by
  unfold next peek
  simp

theorem same_behind_iff {source : Nat} {before rest before' rest' : List Char}
    (h : before ++ rest = before' ++ rest') :
    (behind source before rest).same (behind source before' rest') = true ↔
      before = before' ∧ rest = rest' := by
  unfold same
  simp only [behind, Bool.and_eq_true, beq_iff_eq, and_true]
  constructor
  · exact Text.append_inj_of_bytes h
  · rintro ⟨rfl, -⟩
    rfl

end TextCursor

/-! ## Both kinds of cursors -/

/-- A kind of cursors whose places can be counted. -/
class Track (κ : Type) (α : outParam Type) [Cursor κ α] where
  /-- The cursor behind the first `index` elements of an input. -/
  place (source : Nat) (data : List α) (index : Nat) : κ
  /-- Comparing places of numbered inputs is deciding whether they are equal. -/
  same_place (inputs : Nat → List α) (s t k l : Nat) :
    Walk.same (place s (inputs s) k) (place t (inputs t) l) = true ↔
      place s (inputs s) k = place t (inputs t) l
  /-- The distance of two places is the difference of their indices. -/
  distance_place (s : Nat) (data : List α) {k l : Nat} :
    k ≤ l → l ≤ data.length → Walk.distance (place s data k) (place s data l) = l - k

namespace Track

variable {κ α : Type} [Cursor κ α] [Track κ α]

/-- The cursor stands at a place of one of the inputs, which are told apart by their numbers. -/
def Genuine (inputs : Nat → List α) (c : κ) : Prop :=
  ∃ source index, c = place source (inputs source) index

theorem genuine_place (inputs : Nat → List α) (source index : Nat) :
    Genuine inputs (place source (inputs source) index : κ) := ⟨source, index, rfl⟩

theorem Genuine.same_iff {inputs : Nat → List α} {c d : κ} (hc : Genuine inputs c)
    (hd : Genuine inputs d) : Walk.same c d = true ↔ c = d := by
  obtain ⟨s, k, rfl⟩ := hc
  obtain ⟨t, l, rfl⟩ := hd
  exact same_place inputs s t k l

end Track

instance : Track TextCursor Char where
  place source data index := .behind source (data.take index) (data.drop index)
  same_place inputs s t k l := by
    constructor
    · intro h
      have hsource : s = t := beq_iff_eq.1 (Bool.and_eq_true_iff.1 h).2
      subst hsource
      have hwhole : (inputs s).take k ++ (inputs s).drop k = (inputs s).take l ++ (inputs s).drop l := by
        simp
      obtain ⟨htake, hdrop⟩ := (TextCursor.same_behind_iff hwhole).1 h
      rw [htake, hdrop]
    · intro h
      rw [h]
      exact (TextCursor.same_behind_iff rfl).2 ⟨rfl, rfl⟩
  distance_place s data {k l} hkl hl := by
    show (TextCursor.slice _ _).length = l - k
    rw [TextCursor.slice_take_drop s data hkl]
    simp only [List.length_take, List.length_drop]
    omega

instance {α : Type} : Track (SliceCursor α) α where
  place source data index := ⟨source, index, data.length, data.drop index⟩
  same_place inputs s t k l := by
    constructor
    · intro h
      have hboth : k = l ∧ s = t := by simpa [Walk.same, SliceCursor.same] using h
      obtain ⟨rfl, rfl⟩ := hboth
      rfl
    · intro h
      cases h
      simp [Walk.same, SliceCursor.same]
  distance_place s data {k l} _ _ := rfl

end Pegwork
