import Pegwork.Proofs.Hitting.Language
import Pegwork.Proofs.Hitting.Reading

/-!
# Where a text is cut

A text can be cut behind a run of characters, behind a comment or behind a gap in at most one way, if
what follows cannot be taken for more of the same. And it can always be cut like this: the run or the
gap may be empty.

* `exists_run`, `run_unique`: runs of characters of one class.
* `exists_close`, `close_unique`: the first closing sign of a comment.
* `Gap.exists_cut`, `Gap.unique`: gaps, in front of something that is `Solid`.
-/

namespace Pegwork.Hitting

open Grammar

/-! ## Runs -/

@[simp]
theorem stops_nil (p : Char → Bool) : Stops p [] := fun _ _ h => nomatch h

@[simp]
theorem stops_cons {p : Char → Bool} {x : Char} {rest : List Char} :
    Stops p (x :: rest) ↔ p x = false := by
  constructor
  · intro h
    exact h x rest rfl
  · intro hx y more hcons
    cases hcons
    exact hx

instance decidableStops (p : Char → Bool) : (text : List Char) → Decidable (Stops p text)
  | [] => .isTrue (stops_nil p)
  | x :: _ => decidable_of_iff (p x = false) stops_cons.symm

theorem Stops.of_append {p : Char → Bool} {rest left : List Char} (h : Stops p (rest ++ left)) :
    Stops p rest := by
  cases rest with
  | nil => exact stops_nil p
  | cons x rest => exact stops_cons.2 (h x (rest ++ left) rfl)

theorem not_stops {p : Char → Bool} {rest : List Char} (h : ¬ Stops p rest) :
    ∃ x more, rest = x :: more ∧ p x = true := by
  cases rest with
  | nil => exact absurd (stops_nil p) h
  | cons x more => exact ⟨x, more, rfl, by simpa using h⟩

theorem exists_run (p : Char → Bool) (text : List Char) :
    ∃ run rest, text = run ++ rest ∧ (∀ x ∈ run, p x = true) ∧ Stops p rest := by
  refine ⟨text.takeWhile p, text.dropWhile p, List.takeWhile_append_dropWhile.symm, ?_, ?_⟩
  · exact List.all_eq_true.1 List.all_takeWhile
  · intro x rest hcons
    have hhead := List.head?_dropWhile_not p text
    simpa [hcons] using hhead

theorem run_unique {p : Char → Bool} {a b r s : List Char} (ha : ∀ x ∈ a, p x = true)
    (hr : Stops p r) (hb : ∀ x ∈ b, p x = true) (hs : Stops p s) (h : a ++ r = b ++ s) :
    a = b ∧ r = s := by
  -- Both are the longest run at the beginning of one and the same text.
  have hab : a = b := by
    rw [← takeWhile_append_stop ha hr, h, takeWhile_append_stop hb hs]
  subst hab
  exact ⟨rfl, List.append_cancel_left h⟩

/-! ## Classes of characters -/

theorem isNameChar_of_isNameStart {x : Char} (h : isNameStart x = true) : isNameChar x = true := by
  rw [isNameStart, Bool.or_eq_true] at h
  rw [isNameChar, Bool.or_eq_true, Bool.or_eq_true]
  rcases h with h | h
  · have halnum : Classify.isAlphanumeric x = true := by
      show (Text.isAlphabetic x || Text.isNumeric x) = true
      rw [show Text.isAlphabetic x = true from h, Bool.true_or]
    exact .inl (.inl halnum)
  · exact .inl (.inr h)

/-- Two classes without a common range have no common character. -/
theorem not_inRanges_of_apart {a b : List Text.CodeRange} {x : Char}
    (h : ∀ r ∈ a, ∀ s ∈ b, r.2 < s.1 ∨ s.2 < r.1) (hx : Text.inRanges a x = true) :
    Text.inRanges b x = false := by
  apply Bool.eq_false_iff.2
  intro hb
  -- The character would lie in a range of each class, and these do not meet.
  obtain ⟨r, hr, hin⟩ := List.any_eq_true.1 hx
  obtain ⟨s, hs, hout⟩ := List.any_eq_true.1 hb
  have hrs := h r hr s hs
  simp only [Bool.and_eq_true, decide_eq_true_eq] at hin hout
  omega

theorem isAlphabetic_of_isBlank {x : Char} (h : Text.isBlank x = true) :
    Text.isAlphabetic x = false := by
  unfold Text.isAlphabetic
  split
  · -- The blanks of ASCII lie below the letters.
    have hapart : Text.inRanges [(0x41, 0x5A), (0x61, 0x7A)] x = false :=
      not_inRanges_of_apart (a := Text.blankRanges) (by decide) h
    simp only [Text.inRanges, List.any_cons, List.any_nil, Bool.or_false, Bool.or_eq_false_iff,
      Bool.and_eq_false_iff, decide_eq_false_iff_not] at hapart
    simp only [Char.isAlpha, Char.isUpper, Char.isLower, Bool.or_eq_false_iff, Bool.and_eq_false_iff,
      decide_eq_false_iff_not, ge_iff_le, UInt32.le_iff_toNat_le, Char.toNat] at hapart ⊢
    show ¬ (65 ≤ x.val.toNat ∧ x.val.toNat ≤ 90) ∧ (¬ 97 ≤ x.val.toNat ∨ ¬ x.val.toNat ≤ 122)
    omega
  -- Beyond ASCII the tables decide, range by range.
  · exact not_inRanges_of_apart (a := Text.blankRanges) (by decide +kernel) h

theorem isSpace_of_isNameStart {x : Char} (h : isNameStart x = true) :
    Classify.isSpace x = false := by
  apply Bool.eq_false_iff.2
  intro hblank
  rw [isNameStart, Bool.or_eq_true, beq_iff_eq] at h
  rcases h with h | rfl
  · exact absurd h (Bool.eq_false_iff.1 (isAlphabetic_of_isBlank hblank))
  · exact absurd hblank (by decide)

theorem isDigit_iff {x : Char} : Classify.isDigit x = true ↔ 48 ≤ x.toNat ∧ x.toNat ≤ 57 := by
  show (decide ('0' ≤ x) && decide (x ≤ '9')) = true ↔ _
  rw [Bool.and_eq_true, decide_eq_true_eq, decide_eq_true_eq]
  rfl

theorem isSpace_of_isDigit {x : Char} (h : Classify.isDigit x = true) :
    Classify.isSpace x = false := by
  apply Bool.eq_false_iff.2
  intro hblank
  have hapart : Text.inRanges [(0x30, 0x39)] x = false :=
    not_inRanges_of_apart (a := Text.blankRanges) (by decide) hblank
  have hdigit := isDigit_iff.1 h
  simp only [Text.inRanges, List.any_cons, List.any_nil, Bool.or_false, Bool.and_eq_false_iff,
    decide_eq_false_iff_not] at hapart
  omega

/-! ## Comments -/

/-- A text without a closing sign has none either after it is closed, before the place of that. -/
theorem not_close_first {body l r rest : List Char} (hbody : ¬ ['*', ')'] <:+: body)
    (hcut : body = l ++ r) (hr : r ≠ []) : ¬ ['*', ')'] <+: r ++ '*' :: ')' :: rest := by
  intro hclose
  match r, hr with
  -- A single character would have to be followed by a bracket, but a star follows.
  | [x], _ => simp at hclose
  | x :: y :: r, _ =>
    simp only [List.cons_append, List.cons_prefix_cons, List.nil_prefix, and_true] at hclose
    obtain ⟨rfl, rfl⟩ := hclose
    exact hbody ⟨l, r, by simp [hcut]⟩

theorem close_unique {a b r s : List Char} (ha : ¬ ['*', ')'] <:+: a) (hb : ¬ ['*', ')'] <:+: b)
    (h : a ++ '*' :: ')' :: r = b ++ '*' :: ')' :: s) : a = b ∧ r = s := by
  -- If one of the bodies goes on behind the other, its rest starts with the other's closing sign.
  rcases List.append_eq_append_iff.1 h with ⟨z, hz, hrest⟩ | ⟨z, hz, hrest⟩
  · by_cases hnil : z = []
    · subst hnil
      simpa [hz, eq_comm] using hrest
    · exact absurd ⟨r, by simpa using hrest⟩ (not_close_first hb hz hnil)
  · by_cases hnil : z = []
    · subst hnil
      simpa [hz] using hrest.symm
    · exact absurd ⟨s, by simpa using hrest⟩ (not_close_first ha hz hnil)

theorem exists_close (text : List Char) :
    (∃ body rest, text = body ++ '*' :: ')' :: rest ∧ ¬ ['*', ')'] <:+: body) ∨
      ¬ ['*', ')'] <:+: text := by
  induction text with
  | nil => exact .inr (by simp)
  | cons x text ih =>
    by_cases hclose : ['*', ')'] <+: x :: text
    · obtain ⟨rest, hrest⟩ := hclose
      exact .inl ⟨[], rest, hrest.symm, by simp⟩
    -- No closing sign starts here, so the first one of the rest is the first of all.
    · rcases ih with ⟨body, rest, rfl, hbody⟩ | hnone
      · refine .inl ⟨x :: body, rest, rfl, ?_⟩
        rw [List.infix_cons_iff]
        rintro (hpre | hin)
        · exact hclose (hpre.trans ⟨'*' :: ')' :: rest, rfl⟩)
        · exact hbody hin
      · refine .inr ?_
        rw [List.infix_cons_iff]
        rintro (hpre | hin)
        · exact hclose hpre
        · exact hnone hin

/-! ## Gaps -/

/-- The text starts neither with a blank nor with a comment. -/
structure Solid (text : List Char) : Prop where
  stops : Stops Classify.isSpace text
  uncommented : ∀ body rest, text ≠ '(' :: '*' :: (body ++ '*' :: ')' :: rest)

theorem solid_nil : Solid [] := ⟨stops_nil _, fun _ _ => nofun⟩

theorem solid_cons {x : Char} {text : List Char} (hspace : Classify.isSpace x = false)
    (hopen : x ≠ '(') : Solid (x :: text) := by
  refine ⟨stops_cons.2 hspace, ?_⟩
  intro body rest hcons
  cases hcons
  exact hopen rfl

theorem Gap.unique {a b r s : List Char} (ha : Gap a) (hr : Solid r) (hb : Gap b) (hs : Solid s)
    (h : a ++ r = b ++ s) : a = b ∧ r = s := by
  have hparen : Classify.isSpace '(' = false := by decide
  induction ha generalizing b with
  | nil =>
    cases hb with
    | nil => exact ⟨rfl, h⟩
    -- Where one gap ends, the other cannot go on: what stands there is solid.
    | @blank x more hx _ =>
      rw [List.nil_append] at h
      rw [h] at hr
      exact absurd hx (by simpa using hr.stops)
    | @comment body more _ _ => exact absurd h (by simpa using hr.uncommented body (more ++ s))
  | @blank x a hx _ ih =>
    cases hb with
    | nil =>
      rw [List.nil_append] at h
      rw [← h] at hs
      exact absurd hx (by simpa using hs.stops)
    | blank _ hmore =>
      obtain ⟨rfl, hrest⟩ := List.cons.inj h
      obtain ⟨rfl, rfl⟩ := ih hmore hrest
      exact ⟨rfl, rfl⟩
    | comment _ _ =>
      obtain ⟨rfl, -⟩ := List.cons.inj h
      rw [hparen] at hx
      cases hx
  | @comment body a hbody _ ih =>
    cases hb with
    | nil => exact absurd h.symm (by simpa using hs.uncommented body (a ++ r))
    | blank hx _ =>
      obtain ⟨rfl, -⟩ := List.cons.inj h
      rw [hparen] at hx
      cases hx
    | @comment other more hother hmore =>
      -- Both comments start here, so they end at the same closing sign.
      have hclosed : body ++ '*' :: ')' :: (a ++ r) = other ++ '*' :: ')' :: (more ++ s) := by
        simpa using h
      obtain ⟨rfl, hrest⟩ := close_unique hbody hother hclosed
      obtain ⟨rfl, rfl⟩ := ih hmore hrest
      exact ⟨rfl, rfl⟩

theorem Gap.of_blank {x : Char} {text : List Char} (h : Gap (x :: text))
    (hx : Classify.isSpace x = true) : Gap text := by
  cases h with
  | blank _ hmore => exact hmore
  | comment _ _ => exact absurd hx (by decide)

/-- The blanks at the beginning of a gap are followed by a gap. -/
theorem Gap.of_blanks {blanks rest : List Char} (hblanks : ∀ x ∈ blanks, Classify.isSpace x = true)
    (h : Gap (blanks ++ rest)) : Gap rest := by
  induction blanks with
  | nil => exact h
  | cons x blanks ih =>
    have hx : Classify.isSpace x = true := hblanks x (by simp)
    have hmore : ∀ y ∈ blanks, Classify.isSpace y = true := fun y hy => hblanks y (by simp [hy])
    exact ih hmore (h.of_blank hx)

theorem Gap.exists_cut (text : List Char) : ∃ gap rest, text = gap ++ rest ∧ Gap gap ∧ Solid rest := by
  -- By induction on the length, since a comment is passed in one go.
  induction hlength : text.length using Nat.strongRecOn generalizing text with
  | _ n ih =>
    subst hlength
    by_cases hspace : Stops Classify.isSpace text
    · by_cases hopen : ∃ more, text = '(' :: '*' :: more
      · obtain ⟨more, rfl⟩ := hopen
        rcases exists_close more with ⟨body, more, rfl, hbody⟩ | hnone
        · obtain ⟨gap, rest, rfl, hgap, hrest⟩ := ih more.length (by simp; omega) more rfl
          exact ⟨_, rest, by simp, .comment hbody hgap, hrest⟩
        -- The comment is never closed, so it is not a comment and not part of the gap.
        · refine ⟨[], _, rfl, .nil, hspace, ?_⟩
          intro body rest hcons
          have hmore : more = body ++ ['*', ')'] ++ rest := by simpa using hcons
          exact hnone ⟨body, rest, hmore.symm⟩
      · refine ⟨[], text, rfl, .nil, hspace, ?_⟩
        intro body rest hcons
        exact hopen ⟨_, hcons⟩
    · obtain ⟨x, more, rfl, hx⟩ := not_stops hspace
      obtain ⟨gap, rest, rfl, hgap, hrest⟩ := ih more.length (by simp) more rfl
      exact ⟨x :: gap, rest, rfl, .blank hx hgap, hrest⟩

end Pegwork.Hitting
