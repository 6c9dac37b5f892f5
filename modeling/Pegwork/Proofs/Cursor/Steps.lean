import Pegwork.Proofs.Cursor.Place

/-!
# Steps inside an input

The places of an input are reached one after the other. Between two of its places a cursor of either
kind reads the elements in order, moves forward without a halt and stops at the limit; `Steps` gathers
these laws, so that whatever is proved from them holds for texts and for sequences alike.

`Window` is a range of an input with its two ends in order and inside. The cursors of a window are
counted from its start.
-/

namespace Pegwork

open Track

/-- A kind of cursors that steps from place to place. -/
class Steps (κ : Type) (α : outParam Type) [Cursor κ α] [Track κ α] where
  /-- The input is no longer than inputs of this kind can be. -/
  Fits : List α → Prop
  /-- The elements of an input that fits can be counted by a size. -/
  length_lt {data : List α} : Fits data → data.length < Size.bound
  /-- A part of an input that fits is an input that fits. -/
  fits_part {data : List α} (k n : Nat) : Fits data → Fits ((data.drop k).take n)
  /-- In front of the limit there is an element to read. -/
  next_place (source : Nat) {data : List α} {k l : Nat} {a : α} : Fits data → k < l →
    data[k]? = some a →
    Cursor.next (place source data k : κ) (place source data l) =
      .ok (some (a, place source data (k + 1)))
  /-- There is nothing to read at the limit. -/
  next_limit (source : Nat) (data : List α) (k : Nat) :
    Cursor.next (place source data k : κ) (place source data k) = .ok none
  /-- One element forward. -/
  advance_place (source : Nat) {data : List α} {k : Nat} : Fits data → k < data.length →
    Walk.advance (place source data k : κ) = .ok (place source data (k + 1))
  /-- Several elements forward. -/
  advanceBy_place (source : Nat) {data : List α} {k n : Nat} : Fits data → k + n ≤ data.length →
    Cursor.advanceBy (place source data k : κ) n = .ok (place source data (k + n))
  /-- Whether enough elements are left is a question about the two indices. -/
  hasAtLeast_place (source : Nat) {data : List α} {k l : Nat} (n : Nat) : k ≤ l → l ≤ data.length →
    Cursor.hasAtLeast (place source data k : κ) n (place source data l) = decide (n ≤ l - k)
  /-- Between two places lie the elements with the indices in between, if there are any. -/
  slice_place (source : Nat) {data : List α} {k l : Nat} : k ≤ data.length → l ≤ data.length →
    Cursor.slice (place source data k : κ) (place source data l) = (data.drop k).take (l - k)
  /-- What messages say about the place with a given index. -/
  locate : List α → Nat → Position
  /-- There is a position for every place that has another one behind it. -/
  position_place (source : Nat) (data : List α) {k : Nat} : k + 1 < Size.bound →
    Cursor.position (place source data k : κ) = .ok (locate data k)

/-! ## Texts -/

namespace TextCursor

/-- A text, cut before and behind the element at an index. -/
theorem cut_at {data : List Char} {k : Nat} {c : Char} (h : data[k]? = some c) :
    data.drop k = c :: data.drop (k + 1) ∧ data.take (k + 1) = data.take k ++ [c] ∧
      data.take k ++ c :: data.drop (k + 1) = data := by
  obtain ⟨hk, rfl⟩ := List.getElem?_eq_some_iff.1 h
  have hdrop : data.drop k = data[k] :: data.drop (k + 1) := List.drop_eq_getElem_cons hk
  refine ⟨hdrop, by simp, ?_⟩
  rw [← hdrop, List.take_append_drop]

/-- A place further on has a greater offset. -/
theorem bytes_take_lt {data : List Char} {k l : Nat} (hkl : k < l) (hk : k < data.length) :
    Text.bytes (data.take k) < Text.bytes (data.take l) := by
  have hlength := Text.length_le_bytes ((data.drop k).take (l - k))
  simp only [List.length_take, List.length_drop] at hlength
  rw [take_cut data (Nat.le_of_lt hkl), Text.bytes_append]
  omega

/-- A text has no place behind its end. -/
theorem place_of_length_le (source : Nat) {data : List Char} {k : Nat} (hk : data.length ≤ k) :
    (place source data k : TextCursor) = behind source data [] := by
  show behind source (data.take k) (data.drop k) = _
  rw [List.take_of_length_le hk, List.drop_of_length_le hk]

/-- One character forward, and nowhere from the end: there the place behind is the same place. -/
theorem advance_place_eq (source : Nat) {data : List Char} (hfits : Fits data) (k : Nat) :
    Walk.advance (place source data k : TextCursor) = .ok (place source data (k + 1)) := by
  rcases Nat.lt_or_ge k data.length with hk | hk
  · obtain ⟨hdrop, htake, hwhole⟩ := cut_at (List.getElem?_eq_getElem hk)
    show (behind source (data.take k) (data.drop k)).advance =
      .ok (behind source (data.take (k + 1)) (data.drop (k + 1)))
    rw [hdrop, htake]
    exact advance_behind source (by rwa [hwhole])
  · -- Both places are the end, where a text cursor stays.
    rw [place_of_length_le source hk, place_of_length_le source (Nat.le_succ_of_le hk)]
    rfl

/-- Texts have no way to jump: several steps are made one by one. -/
theorem advanceBy_place_eq (source : Nat) {data : List Char} (hfits : Fits data) (k n : Nat) :
    Cursor.advanceBy (place source data k : TextCursor) n = .ok (place source data (k + n)) := by
  show Walk.advanceBy _ n = _
  induction n generalizing k with
  | zero => rfl
  | succ n ih =>
    have hrest := ih (k + 1)
    rw [Nat.add_right_comm, Nat.add_assoc] at hrest
    rw [Walk.advanceBy, advance_place_eq source hfits]
    exact hrest

end TextCursor

instance : Steps TextCursor Char where
  Fits := TextCursor.Fits
  length_lt h := Nat.lt_trans h.length_lt (by decide)
  fits_part {data} k n hfits := by
    rw [← List.take_append_drop k data, ← List.take_append_drop n (data.drop k)] at hfits
    unfold TextCursor.Fits at *
    simp only [Text.bytes_append] at hfits
    omega
  next_place source {data k l a} hfits hkl ha := by
    obtain ⟨hk, -⟩ := List.getElem?_eq_some_iff.1 ha
    obtain ⟨hdrop, htake, hwhole⟩ := TextCursor.cut_at ha
    show (TextCursor.behind source (data.take k) (data.drop k)).next _ =
      .ok (some (a, TextCursor.behind source (data.take (k + 1)) (data.drop (k + 1))))
    rw [hdrop, htake]
    exact TextCursor.next_of_lt source (by rwa [hwhole]) (TextCursor.bytes_take_lt hkl hk)
  next_limit source data k := by
    show TextCursor.next _ _ = _
    simp [TextCursor.next, TextCursor.peek]
  advance_place source {_ k} hfits _ := TextCursor.advance_place_eq source hfits k
  advanceBy_place source {_ k n} hfits _ := TextCursor.advanceBy_place_eq source hfits k n
  hasAtLeast_place source {data k l} n hkl hl := by
    show TextCursor.hasAtLeast _ n _ = _
    have hslice := TextCursor.slice_take_drop source data hkl
    rw [TextCursor.hasAtLeast, Bool.eq_iff_iff]
    simp only [place, hslice, beq_iff_eq, decide_eq_true_eq, List.length_take, List.length_drop]
    omega
  slice_place source {data k l} _ hl := by
    rcases Nat.lt_or_ge l k with hlk | hkl
    · have hoffset : (place source data l : TextCursor).offset <
          (place source data k : TextCursor).offset := TextCursor.bytes_take_lt hlk (by omega)
      show TextCursor.slice _ _ = _
      rw [TextCursor.slice, if_neg (Nat.not_le.2 hoffset), Nat.sub_eq_zero_of_le (Nat.le_of_lt hlk),
        List.take_zero]
    · exact TextCursor.slice_take_drop source data hkl
  locate data k := Position.behind (data.take k)
  position_place _ _ _ _ := rfl

/-! ## Sequences -/

namespace SliceCursor

variable {α : Type} {data : List α} {k l : Nat}

theorem advanceBy_of_lt {c : SliceCursor α} {n : Nat} (h : c.index + n < Size.bound) :
    c.advanceBy n = .ok { c with index := c.index + n, rest := c.rest.drop n } := by
  rw [advanceBy, Size.add_eq_ok h]
  rfl

theorem advanceBy_of_le {c : SliceCursor α} {n : Nat} (h : Size.bound ≤ c.index + n) :
    c.advanceBy n = .error .overflow := by
  rw [advanceBy, Size.add, if_neg (Nat.not_lt.2 h)]
  rfl

/-- A step is a jump by one element. -/
theorem advance_eq (c : SliceCursor α) : c.advance = c.advanceBy 1 := by
  rw [advance, advanceBy, List.drop_one]

/-- A cursor may jump past the end of its sequence, as long as its index remains a size. -/
theorem advanceBy_place_eq (source : Nat) {n : Nat} (hindex : k + n < Size.bound) :
    Cursor.advanceBy (place source data k : SliceCursor α) n = .ok (place source data (k + n)) := by
  show (⟨source, k, data.length, data.drop k⟩ : SliceCursor α).advanceBy n =
    .ok ⟨source, k + n, data.length, data.drop (k + n)⟩
  rw [advanceBy_of_lt hindex, List.drop_drop]

theorem advance_place_eq (source : Nat) (hindex : k + 1 < Size.bound) :
    Walk.advance (place source data k : SliceCursor α) = .ok (place source data (k + 1)) := by
  show SliceCursor.advance _ = _
  rw [advance_eq]
  exact advanceBy_place_eq source hindex

theorem next_place_eq (source : Nat) {a : α} (hdata : data.length < Size.bound) (hkl : k < l)
    (ha : data[k]? = some a) :
    Cursor.next (place source data k : SliceCursor α) (place source data l) =
      .ok (some (a, place source data (k + 1))) := by
  obtain ⟨hk, rfl⟩ := List.getElem?_eq_some_iff.1 ha
  have hpeek : Walk.peek (place source data k : SliceCursor α) (place source data l) = some data[k] := by
    show (if k < l then (data.drop k).head? else none) = some data[k]
    simp [hkl, hk]
  show Walk.next (place source data k : SliceCursor α) (place source data l) = _
  rw [Walk.next, hpeek]
  simp only [advance_place_eq source (show k + 1 < Size.bound by omega)]
  rfl

theorem next_place_self (source : Nat) (data : List α) (k : Nat) :
    Cursor.next (place source data k : SliceCursor α) (place source data k) = .ok none := by
  show Walk.next _ _ = _
  simp [Walk.next, Walk.peek, SliceCursor.peek]

theorem slice_place_eq (source : Nat) (hl : l ≤ data.length) :
    Cursor.slice (place source data k : SliceCursor α) (place source data l) =
      (data.drop k).take (l - k) := by
  rcases Nat.lt_or_ge l k with hlk | hkl
  · simp [Cursor.slice, SliceCursor.slice, place, Nat.sub_eq_zero_of_le (Nat.le_of_lt hlk)]
  · simp [Cursor.slice, SliceCursor.slice, place, hkl, hl]

theorem position_place_eq (source : Nat) (data : List α) (hk : k + 1 < Size.bound) :
    Cursor.position (place source data k : SliceCursor α) = .ok ⟨1, k + 1, k⟩ := by
  simp [Cursor.position, Position.ofIndex, place, Size.add_eq_ok hk, bind, Except.bind, pure,
    Except.pure]

end SliceCursor

instance {α : Type} : Steps (SliceCursor α) α where
  Fits data := data.length < Size.bound
  length_lt h := h
  fits_part k n hfits := Nat.lt_of_le_of_lt
    ((List.take_sublist n _).trans (List.drop_sublist k _)).length_le hfits
  next_place source := SliceCursor.next_place_eq source
  next_limit := SliceCursor.next_place_self
  advance_place source {_ _} hfits hk :=
    SliceCursor.advance_place_eq source (Nat.lt_of_le_of_lt hk hfits)
  advanceBy_place source {_ _ _} hfits hn :=
    SliceCursor.advanceBy_place_eq source (Nat.lt_of_le_of_lt hn hfits)
  hasAtLeast_place _ {_ _ _} _ _ _ := rfl
  slice_place source {_ _ _} _ hl := SliceCursor.slice_place_eq source hl
  locate _ k := ⟨1, k + 1, k⟩
  position_place source data {_} hk := SliceCursor.position_place_eq source data hk

/-! ## Windows -/

/-- A range of an input: `length` elements from the one with the index `first` on. -/
structure Window (α : Type) where
  /-- The number of the input. -/
  source : Nat
  /-- The whole input. -/
  data : List α
  /-- How many elements stand before the range. -/
  first : Nat
  /-- How many elements the range has. -/
  length : Nat
  inside : first + length ≤ data.length

namespace Window

variable {κ α : Type}

/-- The elements of a window. -/
def elements (w : Window α) : List α := (w.data.drop w.first).take w.length

@[simp] theorem length_elements (w : Window α) : w.elements.length = w.length := by
  have hinside := w.inside
  simp only [elements, List.length_take, List.length_drop]
  omega

theorem getElem?_elements (w : Window α) {x : Nat} (hx : x < w.length) :
    w.elements[x]? = w.data[w.first + x]? := by
  simp [elements, hx]

/-- A whole input as one window. -/
def whole (source : Nat) (data : List α) : Window α := ⟨source, data, 0, data.length, by simp⟩

@[simp] theorem elements_whole (source : Nat) (data : List α) :
    (whole source data).elements = data := by
  simp [whole, elements]

/-- The window between two places of an input. -/
def between (source : Nat) (data : List α) {i j : Nat} (hij : i ≤ j) (hj : j ≤ data.length) : Window α :=
  ⟨source, data, i, j - i, by omega⟩

section Cursors

variable [Cursor κ α] [Track κ α]

/-- The cursor behind the first `x` elements of a window. -/
def cursor (w : Window α) (x : Nat) : κ := place w.source w.data (w.first + x)

/-- The end of a window. -/
def limit (w : Window α) : κ := w.cursor w.length

theorem limit_between (source : Nat) {data : List α} {i j : Nat} (hij : i ≤ j) (hj : j ≤ data.length) :
    ((between source data hij hj).limit : κ) = place source data j := by
  show place source data (i + (j - i)) = _
  rw [Nat.add_sub_cancel' hij]

/-- Comparing cursors of a window is comparing their numbers. -/
theorem same_cursor (w : Window α) {x y : Nat} (hx : x ≤ w.length) (hy : y ≤ w.length) :
    Walk.same (w.cursor x : κ) (w.cursor y) = decide (x = y) := by
  have hinside := w.inside
  rw [Bool.eq_iff_iff, decide_eq_true_iff]
  constructor
  · intro hsame
    have heq : (place w.source w.data (w.first + x) : κ) = place w.source w.data (w.first + y) :=
      (same_place (fun _ => w.data) w.source w.source _ _).1 hsame
    -- Equal places have no distance, in whichever direction it is measured.
    rcases Nat.le_total x y with hxy | hyx
    · have hdistance := distance_place (κ := κ) w.source w.data
        (k := w.first + x) (l := w.first + y) (by omega) (by omega)
      rw [heq, distance_place w.source w.data (Nat.le_refl _) (by omega)] at hdistance
      omega
    · have hdistance := distance_place (κ := κ) w.source w.data
        (k := w.first + y) (l := w.first + x) (by omega) (by omega)
      rw [heq, distance_place w.source w.data (Nat.le_refl _) (by omega)] at hdistance
      omega
  · rintro rfl
    exact (same_place (fun _ => w.data) w.source w.source _ _).2 rfl

theorem eq_of_cursor_eq (w : Window α) {x y : Nat} (hx : x ≤ w.length) (hy : y ≤ w.length)
    (h : (w.cursor x : κ) = w.cursor y) : x = y := by
  have hsame := w.same_cursor (κ := κ) hx hy
  rw [h, w.same_cursor hy hy] at hsame
  exact of_decide_eq_true (hsame.symm.trans (decide_eq_true rfl))

variable [Steps κ α]

theorem next_cursor (w : Window α) (hfits : Steps.Fits κ w.data) {x : Nat} {a : α}
    (ha : w.elements[x]? = some a) :
    Cursor.next (w.cursor x : κ) w.limit = .ok (some (a, w.cursor (x + 1))) := by
  have hx : x < w.length := by
    obtain ⟨hx, -⟩ := List.getElem?_eq_some_iff.1 ha
    rwa [w.length_elements] at hx
  rw [w.getElem?_elements hx] at ha
  exact Steps.next_place w.source hfits (by omega) ha

theorem next_limit (w : Window α) : Cursor.next (w.limit : κ) w.limit = .ok none :=
  Steps.next_limit _ _ _

/-- What is read inside a window is the head of what is left of it. -/
theorem next_of_drop_cons (w : Window α) (hfits : Steps.Fits κ w.data) {x : Nat} {a : α}
    {rest : List α} (h : w.elements.drop x = a :: rest) :
    Cursor.next (w.cursor x : κ) w.limit = .ok (some (a, w.cursor (x + 1))) ∧ x + 1 ≤ w.length ∧
      w.elements.drop (x + 1) = rest := by
  have hhead : w.elements[x]? = some a := by rw [← List.head?_drop, h, List.head?_cons]
  obtain ⟨hx, -⟩ := List.getElem?_eq_some_iff.1 hhead
  refine ⟨w.next_cursor hfits hhead, by rwa [w.length_elements] at hx, ?_⟩
  rw [← List.tail_drop, h, List.tail_cons]

/-- Nothing is read where nothing is left of a window. -/
theorem next_of_drop_nil (w : Window α) {x : Nat} (hx : x ≤ w.length)
    (h : w.elements.drop x = []) : Cursor.next (w.cursor x : κ) w.limit = .ok none := by
  have hlength : w.length ≤ x := by simpa using h
  rw [Nat.le_antisymm hx hlength]
  exact w.next_limit

theorem advance_cursor (w : Window α) (hfits : Steps.Fits κ w.data) {x : Nat} (hx : x < w.length) :
    Walk.advance (w.cursor x : κ) = .ok (w.cursor (x + 1)) := by
  have hinside := w.inside
  exact Steps.advance_place w.source hfits (by omega)

theorem advanceBy_cursor (w : Window α) (hfits : Steps.Fits κ w.data) {x n : Nat}
    (hn : x + n ≤ w.length) : Cursor.advanceBy (w.cursor x : κ) n = .ok (w.cursor (x + n)) := by
  have hinside := w.inside
  rw [cursor, cursor, Steps.advanceBy_place w.source hfits (by omega), Nat.add_assoc]

theorem hasAtLeast_cursor (w : Window α) {x : Nat} (n : Nat) (hx : x ≤ w.length) :
    Cursor.hasAtLeast (w.cursor x : κ) n w.limit = decide (n ≤ w.length - x) := by
  have hinside := w.inside
  rw [limit, cursor, cursor, Steps.hasAtLeast_place w.source n (by omega) hinside,
    Nat.add_sub_add_left]

theorem slice_cursor (w : Window α) {x y : Nat} (hx : x ≤ w.length) (hy : y ≤ w.length) :
    Cursor.slice (w.cursor x : κ) (w.cursor y) = (w.elements.drop x).take (y - x) := by
  have hinside := w.inside
  rw [cursor, cursor, Steps.slice_place w.source (by omega) (by omega), elements, List.drop_take,
    List.drop_drop, List.take_take]
  congr 1
  omega

end Cursors

end Window

end Pegwork
