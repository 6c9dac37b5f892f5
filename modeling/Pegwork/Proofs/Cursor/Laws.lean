import Pegwork.Proofs.Cursor.Steps

/-!
# Laws of cursors

A kind of input may replace the plain definitions of the derived moves by faster ones. `Cursor.Agrees` says
that the faster ones do the same. They do so from every cursor and in front of every limit, also in
front of one that lies behind the cursor.

`Cursor.Reached` are the cursors of one input: its two ends, and wherever any moves lead from there. Since the
derived moves agree with the plain ones, what single steps preserve holds for all of them; so each stands at
a place of the input, where a sequence goes on behind its end and a text does not.

`Cursor.Lawful` is the arithmetic of three such cursors in order: counting and moving are inverse to each
other, and distances, moves and slices can be cut in the middle.
-/

namespace Pegwork

open Track

/-! ## Plain moves -/

namespace Walk

variable {κ α : Type} [Walk κ α]

/-- Moving in two parts is moving at once, up to the halt if there is one. -/
theorem advanceBy_add (c : κ) (m n : Nat) :
    (advanceBy c m >>= fun d => advanceBy d n) = advanceBy c (m + n) := by
  induction m generalizing c with
  | zero =>
    rw [Nat.zero_add]
    rfl
  | succ m ih =>
    rw [Nat.add_right_comm]
    simp only [advanceBy, bind_assoc, ih]

/-- Reading leads where a step leads. -/
theorem advance_of_next {c limit d : κ} {a : α} (h : next c limit = .ok (some (a, d))) :
    advance c = .ok d := by
  unfold next at h
  split at h
  · cases h
  · obtain ⟨past, hpast, hresult⟩ := bind_eq_ok.1 h
    cases hresult
    exact hpast

end Walk

/-! ## Faster moves -/

/-- From a cursor, in front of a limit, the derived moves of a kind of input do what their plain
definitions do. -/
structure Cursor.Agrees {κ α : Type} [Cursor κ α] (c limit : κ) : Prop where
  /-- Moving by a number of elements is making that many steps. -/
  advanceBy (n : Nat) : Cursor.advanceBy c n = Walk.advanceBy c n
  /-- Whether enough elements are left is a question about the distance. -/
  hasAtLeast (n : Nat) : Cursor.hasAtLeast c n limit = Walk.hasAtLeast c n limit
  /-- Reading is looking and then making a step. -/
  next : Cursor.next c limit = Walk.next c limit

namespace TextCursor

/-- Counting up to a bound is enough to compare with it. -/
theorem hasAtLeast_eq (c limit : TextCursor) (n : Nat) :
    c.hasAtLeast n limit = decide (n ≤ c.distance limit) := by
  rw [hasAtLeast, distance, List.length_take, Bool.eq_iff_iff, beq_iff_eq, decide_eq_true_iff]
  exact min_eq_left_iff

/-- What is seen under a cursor is the first of the characters that are left. -/
theorem rest_of_peek {c limit : TextCursor} {ch : Char} (h : c.peek limit = some ch) :
    c.rest = ch :: c.rest.tail := by
  unfold peek at h
  split at h
  · exact List.eq_cons_of_mem_head? h
  · cases h

/-- The character that was seen already is not decoded again, and the step is the same. -/
theorem next_eq (c limit : TextCursor) : c.next limit = Walk.next c limit := by
  cases hpeek : c.peek limit with
  | none =>
    have hplain : Walk.peek c limit = none := hpeek
    rw [next, Walk.next, hpeek, hplain]
  | some ch =>
    have hplain : Walk.peek c limit = some ch := hpeek
    have hadvance : Walk.advance c = do
        let position ← c.position.after ch
        return { c with position, rest := c.rest.tail } := by
      show c.advance = _
      rw [advance, rest_of_peek hpeek]
      rfl
    rw [next, Walk.next, hpeek, hplain]
    simp only [hadvance, bind_assoc, pure_bind]

theorem agrees (c limit : TextCursor) : Cursor.Agrees c limit where
  advanceBy _ := rfl
  hasAtLeast := hasAtLeast_eq c limit
  next := next_eq c limit

end TextCursor

namespace SliceCursor

variable {α : Type}

/-- Jumping in two parts is jumping at once: one overflows when the other does. -/
theorem advanceBy_add (c : SliceCursor α) (m n : Nat) :
    (c.advanceBy m >>= fun d => d.advanceBy n) = c.advanceBy (m + n) := by
  rcases Nat.lt_or_ge (c.index + m) Size.bound with hm | hm
  · rw [advanceBy_of_lt hm]
    show advanceBy _ n = _
    rcases Nat.lt_or_ge (c.index + (m + n)) Size.bound with hmn | hmn
    · rw [advanceBy_of_lt hmn, advanceBy_of_lt (by simpa [Nat.add_assoc] using hmn)]
      simp only [List.drop_drop, Nat.add_assoc]
    · rw [advanceBy_of_le hmn, advanceBy_of_le (by simpa [Nat.add_assoc] using hmn)]
  · -- Where the first part overflows, the whole jump would lead even further.
    rw [advanceBy_of_le hm, advanceBy_of_le (show Size.bound ≤ c.index + (m + n) by omega)]
    rfl

/-- A jump is as many single steps. -/
theorem advanceBy_eq {c : SliceCursor α} (hc : c.index < Size.bound) (n : Nat) :
    c.advanceBy n = Walk.advanceBy c n := by
  induction n generalizing c with
  | zero =>
    rw [advanceBy_of_lt hc]
    rfl
  | succ n ih =>
    show _ = (c.advance >>= fun d => Walk.advanceBy d n)
    -- The jump is cut behind its first element, as the plain definition makes its first step.
    rw [Nat.add_comm, ← advanceBy_add, advance_eq]
    rcases Nat.lt_or_ge (c.index + 1) Size.bound with hone | hone
    · rw [advanceBy_of_lt hone]
      exact ih hone
    · rw [advanceBy_of_le hone]
      rfl

theorem agrees {c : SliceCursor α} (hc : c.index < Size.bound) (limit : SliceCursor α) :
    Cursor.Agrees c limit where
  advanceBy := advanceBy_eq hc
  hasAtLeast _ := rfl
  next := rfl

end SliceCursor

/-! ## Cursors of an input -/

namespace Cursor

section Reached

variable {κ α : Type} [Cursor κ α]

/-- The cursors of an input, with its first and its last cursor: whatever moves lead to. -/
inductive Reached (first last : κ) : κ → Prop
  /-- The beginning of the input. -/
  | first : Reached first last first
  /-- The end of the input. -/
  | last : Reached first last last
  /-- One element further. -/
  | advance {c d : κ} : Reached first last c → Walk.advance c = .ok d → Reached first last d
  /-- A number of elements further. -/
  | advanceBy {c d : κ} {n : Nat} :
    Reached first last c → Cursor.advanceBy c n = .ok d → Reached first last d
  /-- Past an element that was read, in front of any limit. -/
  | next {c d limit : κ} {a : α} :
    Reached first last c → Cursor.next c limit = .ok (some (a, d)) → Reached first last d

/-- What holds at both ends and is preserved by single steps holds for all cursors of an input, if it is
enough for the derived moves to agree with the plain ones. -/
theorem Reached.of_steps {first last c : κ} {p : κ → Prop} (h : Reached first last c)
    (hfirst : p first) (hlast : p last) (hagrees : ∀ {c}, p c → ∀ limit, Agrees c limit)
    (hstep : ∀ {c d}, p c → Walk.advance c = .ok d → p d) : p c := by
  have hsteps : ∀ (n : Nat) {c d : κ}, p c → Walk.advanceBy c n = .ok d → p d := by
    intro n
    induction n with
    | zero =>
      rintro c _ hc ⟨⟩
      exact hc
    | succ n ih =>
      intro c d hc hd
      obtain ⟨e, he, hd⟩ := bind_eq_ok.1 hd
      exact ih (hstep hc he) hd
  -- The derived moves are traced back to steps: the cursor they start from satisfies `p`, so they agree.
  induction h with
  | first => exact hfirst
  | last => exact hlast
  | advance _ hmove ih => exact hstep ih hmove
  | @advanceBy c _ n _ hmove ih =>
    rw [(hagrees ih c).advanceBy] at hmove
    exact hsteps n ih hmove
  | @next _ _ limit _ _ hmove ih =>
    rw [(hagrees ih limit).next] at hmove
    exact hstep ih (Walk.advance_of_next hmove)

end Reached

end Cursor

namespace TextCursor

/-- The cursors of a text stand at its places. -/
theorem exists_place_of_reached {source : Nat} {text : List Char} (hfits : Fits text) {c : TextCursor}
    (h : Cursor.Reached (beginning source text) (behind source text []) c) :
    ∃ k, k ≤ text.length ∧ c = place source text k := by
  apply h.of_steps (p := fun c => ∃ k, k ≤ text.length ∧ c = place source text k)
    ⟨0, Nat.zero_le _, rfl⟩
    ⟨text.length, Nat.le_refl _, (place_of_length_le source (Nat.le_refl _)).symm⟩
    (fun _ => agrees _)
  rintro _ d ⟨k, hk, rfl⟩ hd
  rw [advance_place_eq source hfits] at hd
  cases hd
  rcases Nat.lt_or_ge k text.length with hlt | hge
  · exact ⟨k + 1, hlt, rfl⟩
  · -- A step from the end stays there.
    refine ⟨k, hk, ?_⟩
    rw [place_of_length_le source hge, place_of_length_le source (Nat.le_succ_of_le hge)]

/-- Places of a text are in the order of their offsets. -/
theorem le_of_offset_le {source : Nat} {text : List Char} {k l : Nat} (hk : k ≤ text.length)
    (h : (place source text k : TextCursor).offset ≤ (place source text l : TextCursor).offset) :
    k ≤ l := by
  by_contra hlt
  have hlt : l < k := Nat.not_le.1 hlt
  exact Nat.not_lt.2 h (bytes_take_lt hlt (Nat.lt_of_lt_of_le hlt hk))

end TextCursor

namespace SliceCursor

variable {α : Type}

theorem ending_eq (source : Nat) (data : List α) :
    ending source data = place source data data.length := by
  show _ = (⟨source, data.length, data.length, data.drop data.length⟩ : SliceCursor α)
  rw [List.drop_length]
  rfl

/-- The cursors of a sequence stand at its places, those behind its end among them. -/
theorem exists_place_of_reached {source : Nat} {data : List α} (hdata : data.length < Size.bound)
    {c : SliceCursor α} (h : Cursor.Reached (beginning source data) (ending source data) c) :
    ∃ k, k < Size.bound ∧ c = place source data k := by
  apply h.of_steps (p := fun c => ∃ k, k < Size.bound ∧ c = place source data k)
    ⟨0, by decide, rfl⟩ ⟨data.length, hdata, ending_eq source data⟩
  · rintro _ ⟨k, hk, rfl⟩
    exact agrees hk
  · rintro _ d ⟨k, -, rfl⟩ hd
    rcases Nat.lt_or_ge (k + 1) Size.bound with hlt | hge
    · rw [advance_place_eq source hlt] at hd
      cases hd
      exact ⟨k + 1, hlt, rfl⟩
    · -- From the last place that has a number, the step halts and leads nowhere.
      have hhalt : Walk.advance (place source data k : SliceCursor α) = .error .overflow := by
        show SliceCursor.advance _ = _
        rw [advance_eq, advanceBy_of_le hge]
      rw [hhalt] at hd
      cases hd

end SliceCursor

/-! ## Cursors in order -/

namespace Cursor

/-- The laws of three cursors that stand in the order `a`, `b`, `c` between the ends of their input. -/
structure Lawful {κ α : Type} [Cursor κ α] (first last a b c : κ) : Prop where
  /-- As many elements as are left can be passed, and that many are then behind. -/
  distance_advanceBy (n : Nat) : n ≤ Walk.distance a last →
    ∃ d, Cursor.advanceBy a n = .ok d ∧ Walk.distance a d = n
  /-- A move comes to an end wherever the number of elements passed since the beginning is a size. -/
  advanceBy_ends (n : Nat) : Walk.distance first a + n < Size.bound →
    ∃ d, Cursor.advanceBy a n = .ok d
  /-- Moving in two parts is moving at once, up to the halt if there is one. -/
  advanceBy_advanceBy (m n : Nat) :
    (Cursor.advanceBy a m >>= fun d => Cursor.advanceBy d n) = Cursor.advanceBy a (m + n)
  /-- The distance is the number of elements to move by. -/
  advanceBy_distance : Cursor.advanceBy a (Walk.distance a b) = .ok b
  /-- Distances add up. -/
  distance_add : Walk.distance a c = Walk.distance a b + Walk.distance b c
  /-- Slices are cut in the middle. -/
  slice_append : Cursor.slice a c = Cursor.slice a b ++ Cursor.slice b c

/-- Places in order obey the laws, if the moves past the end of the input are taken care of. -/
theorem lawful_place {κ α : Type} [Cursor κ α] [Track κ α] [Steps κ α] (source : Nat) {data : List α}
    (hfits : Steps.Fits κ data) {i j k : Nat} (hij : i ≤ j) (hjk : j ≤ k) (hk : k ≤ data.length)
    (hends : ∀ n, i + n < Size.bound → ∃ d, Cursor.advanceBy (place source data i : κ) n = .ok d)
    (hadd : ∀ m n, (Cursor.advanceBy (place source data i : κ) m >>= fun d => Cursor.advanceBy d n) =
      Cursor.advanceBy (place source data i) (m + n)) :
    Lawful (place source data 0 : κ) (place source data data.length) (place source data i)
      (place source data j) (place source data k) := by
  have hj : j ≤ data.length := Nat.le_trans hjk hk
  have hi : i ≤ data.length := Nat.le_trans hij hj
  constructor
  case distance_advanceBy =>
    intro n hn
    rw [distance_place source data hi (Nat.le_refl _)] at hn
    have hin : i + n ≤ data.length := by omega
    refine ⟨_, Steps.advanceBy_place source hfits hin, ?_⟩
    rw [distance_place source data (Nat.le_add_right i n) hin, Nat.add_sub_cancel_left]
  case advanceBy_ends =>
    intro n hn
    rw [distance_place source data (Nat.zero_le i) hi] at hn
    exact hends n hn
  case advanceBy_advanceBy => exact hadd
  case advanceBy_distance =>
    have hsum : i + (j - i) = j := Nat.add_sub_cancel' hij
    rw [distance_place source data hij hj, Steps.advanceBy_place source hfits (by omega), hsum]
  case distance_add =>
    rw [distance_place source data (Nat.le_trans hij hjk) hk, distance_place source data hij hj,
      distance_place source data hjk hk]
    omega
  case slice_append =>
    have hsum : k - i = (j - i) + (k - j) := by omega
    rw [Steps.slice_place source hi hk, Steps.slice_place source hi hj, Steps.slice_place source hj hk,
      hsum, List.take_add, List.drop_drop, Nat.add_sub_cancel' hij]

/-- **Cursors obey the laws of counting.** Over texts and over sequences, the derived moves do what their
plain definitions do, from every cursor and in front of every limit, on whichever side of it that lies.
And three cursors of an input that stand in order inside obey the laws: distances, moves and slices fit
together. -/
theorem moves_lawful {α : Type} :
    (∀ a b : TextCursor, Agrees a b) ∧
    (∀ a b : SliceCursor α, a.index < Size.bound → Agrees a b) ∧
    (∀ (source : Nat) (text : List Char), TextCursor.Fits text →
      ∃ last, TextCursor.ending source text = .ok last ∧
        let Has := Reached (TextCursor.beginning source text) last
        ∀ a b c, Has a → Has b → Has c → a.offset ≤ b.offset → b.offset ≤ c.offset →
          Lawful (TextCursor.beginning source text) last a b c) ∧
    ∀ (source : Nat) (data : List α), data.length < Size.bound →
      let Has := Reached (SliceCursor.beginning source data) (SliceCursor.ending source data)
      ∀ a b c, Has a → Has b → Has c → a.index ≤ b.index → b.index ≤ c.index → c.index ≤ data.length →
        Lawful (SliceCursor.beginning source data) (SliceCursor.ending source data) a b c := by
  refine ⟨TextCursor.agrees, fun _ b ha => SliceCursor.agrees ha b, ?_, ?_⟩
  · intro source text hfits
    refine ⟨_, TextCursor.ending_eq source hfits, ?_⟩
    intro Has a b c ha hb hc hab hbc
    obtain ⟨i, hi, rfl⟩ := TextCursor.exists_place_of_reached hfits ha
    obtain ⟨j, hj, rfl⟩ := TextCursor.exists_place_of_reached hfits hb
    obtain ⟨k, hk, rfl⟩ := TextCursor.exists_place_of_reached hfits hc
    rw [← TextCursor.place_of_length_le source (Nat.le_refl text.length)]
    refine lawful_place source hfits (TextCursor.le_of_offset_le hi hab)
      (TextCursor.le_of_offset_le hj hbc) hk ?_ (Walk.advanceBy_add _)
    exact fun n _ => ⟨_, TextCursor.advanceBy_place_eq source hfits i n⟩
  · intro source data hdata Has a b c ha hb hc hab hbc hinside
    obtain ⟨i, -, rfl⟩ := SliceCursor.exists_place_of_reached hdata ha
    obtain ⟨j, -, rfl⟩ := SliceCursor.exists_place_of_reached hdata hb
    obtain ⟨k, -, rfl⟩ := SliceCursor.exists_place_of_reached hdata hc
    rw [SliceCursor.ending_eq]
    refine lawful_place source hdata hab hbc hinside ?_ (SliceCursor.advanceBy_add _)
    exact fun n hn => ⟨_, SliceCursor.advanceBy_place_eq source hn⟩

/-- Characters of one to four bytes around a newline, with cursors at the bytes 1, 4 and 11, of which the last
also looks back at the first; and a sequence, with cursors inside and one that has jumped out. -/
theorem moves_lawful_widths :
    let text : List Char := ['a', 'é', '\n', '€', '😀']
    let first := TextCursor.beginning 0 text
    let last := TextCursor.behind 0 text []
    let a := TextCursor.behind 0 ['a'] ['é', '\n', '€', '😀']
    let b := TextCursor.behind 0 ['a', 'é', '\n'] ['€', '😀']
    let data : List Nat := [7, 8, 9]
    let start := SliceCursor.beginning 0 data
    let stop := SliceCursor.ending 0 data
    let middle : SliceCursor Nat := ⟨0, 1, 3, [8, 9]⟩
    let outside : SliceCursor Nat := ⟨0, 5, 3, []⟩
    (TextCursor.Fits text ∧ TextCursor.ending 0 text = .ok last) ∧
      (Reached first last a ∧ Reached first last b) ∧
      (a.offset = 1 ∧ b.offset = 4 ∧ last.offset = 11 ∧ Lawful first last a b last) ∧
      (Agrees last a ∧ Agrees a last) ∧
      (Reached start stop middle ∧ Reached start stop outside ∧ Lawful start stop start middle stop) ∧
      outside.index < Size.bound ∧ Agrees outside middle := by
  intro text first last a b data start stop middle outside
  obtain ⟨htext, hsequence, hlawful, hlawful'⟩ := moves_lawful (α := Nat)
  have hfits : TextCursor.Fits text := by
    show Text.bytes _ < 2 ^ 63
    decide
  have ha : Reached first last a := .advance .first rfl
  have hb : Reached first last b := .advanceBy (n := 2) ha rfl
  have hread : Cursor.next start stop = .ok (some (7, middle)) := rfl
  have hmiddle : Reached start stop middle := .next .first hread
  have houtside : Reached start stop outside := .advanceBy (n := 4) hmiddle rfl
  have hbound : outside.index < Size.bound := by decide
  obtain ⟨_, hlast, hordered⟩ := hlawful 0 text hfits
  cases hlast.symm.trans (TextCursor.ending_eq 0 hfits)
  refine ⟨⟨hfits, hlast⟩, ⟨ha, hb⟩, ⟨rfl, rfl, rfl, ?_⟩, ⟨htext _ _, htext _ _⟩,
    ⟨hmiddle, houtside, ?_⟩, hbound, hsequence _ _ hbound⟩
  · exact hordered a b last ha hb .last (by decide) (by decide)
  · exact hlawful' 0 data (by decide) start middle stop .first hmiddle .last (by decide) (by decide)
      (by decide)

end Cursor

end Pegwork
