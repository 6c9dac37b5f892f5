import Pegwork.Proofs.Hitting.Cuts

/-!
# Reading the parts of statements

Each part of a statement has a rule of the grammar that reads it and leaves something in the captures.
There are two facts about each kind of part:

* a text that spells the part is consumed exactly, if what follows cannot be taken for more of it
  (`Part.matches_rule`);
* where no such text stands, the rule fails (`Part.read`).

A rule that fails leaves the captures alone, because a mark is left only behind a rule that matches.
-/

namespace Pegwork.Hitting

open Grammar

variable {before text rest : List Char} {c : Captures}

/-- A mark behind a rule that consumed the characters of a string. -/
theorem matches_marked_string {a : MarkedRule} {n : String} {d : Captures} (mark : Mark)
    (ha : Matches a before n.toList rest c d) :
    Matches (marked a mark) before n.toList rest c (d.step (1 + before.count '\n') n mark) := by
  have hmarked := matches_marked mark ha
  rwa [String.ofList_toList] at hmarked

/-! ## Words -/

theorem matches_keyword (word : String) (hrest : Stops isNameChar rest) :
    Matches (keyword word) before word.toList rest c c := by
  have hword : Matches (.literal word) before word.toList ([] ++ rest) c c := matches_literal word
  have hend : Matches (.negation (.satisfy isNameChar)) (before ++ word.toList) [] rest c c :=
    matches_negation (misses_satisfy hrest)
  have hboth := matches_seq hword hend
  rw [List.append_nil] at hboth
  exact hboth

theorem misses_keyword {word : String}
    (h : ∀ more, rest = word.toList ++ more → ¬ Stops isNameChar more) :
    Misses (keyword word) before rest c c := by
  by_cases hword : word.toList <+: rest
  · obtain ⟨more, rfl⟩ := hword
    obtain ⟨x, more, rfl, hx⟩ := not_stops (h more rfl)
    -- The word stands here, but a longer one as well.
    have hlonger : Matches (.satisfy isNameChar) (before ++ word.toList) [x] more c c :=
      matches_satisfy hx
    exact misses_seq_second (matches_literal word) (misses_negation hlonger)
  · exact misses_seq_first (misses_literal hword)

/-- A word with only name characters is told apart from every other one. -/
theorem misses_keyword_of_ne {word : String} (hword : word.toList.all isNameChar = true)
    (htext : ∀ x ∈ text, isNameChar x = true) (hrest : Stops isNameChar rest)
    (hne : text ≠ word.toList) : Misses (keyword word) before (text ++ rest) c c := by
  apply misses_keyword
  intro more hcut hmore
  exact hne (run_unique htext hrest (List.all_eq_true.1 hword) hmore hcut).1

theorem read_keyword (word : String) (before rest : List Char) (c : Captures) :
    (∃ more, rest = word.toList ++ more ∧ Stops isNameChar more) ∨
      Misses (keyword word) before rest c c := by
  by_cases h : ∃ more, rest = word.toList ++ more ∧ Stops isNameChar more
  · exact .inl h
  · refine .inr (misses_keyword ?_)
    intro more hcut hmore
    exact h ⟨more, hcut, hmore⟩

/-! ## Names -/

/-- The text is one of the words that are no names. -/
def IsReserved (text : List Char) : Prop :=
  text = "directive".toList ∨ text = "process".toList ∨ text = "Inf".toList

theorem not_isReserved_iff :
    ¬ IsReserved text ↔
      text ≠ "directive".toList ∧ text ≠ "process".toList ∧ text ≠ "Inf".toList := by
  rw [IsReserved, not_or, not_or]

theorem matches_reserved (hword : IsReserved text) (hrest : Stops isNameChar rest) :
    Matches reserved before text rest c c := by
  rcases hword with rfl | rfl | rfl
  · exact matches_choice_first (matches_choice_first (matches_keyword "directive" hrest))
  · apply matches_choice_first
    apply matches_choice_second (d := c)
    · exact misses_keyword_of_ne (by decide) (List.all_eq_true.1 (by decide)) hrest (by decide)
    · exact matches_keyword "process" hrest
  · apply matches_choice_second (d := c)
    · apply misses_choice (d := c)
      · exact misses_keyword_of_ne (by decide) (List.all_eq_true.1 (by decide)) hrest (by decide)
      · exact misses_keyword_of_ne (by decide) (List.all_eq_true.1 (by decide)) hrest (by decide)
    · exact matches_keyword "Inf" hrest

theorem misses_reserved (h : ∀ word more, IsReserved word → rest = word ++ more →
    ¬ Stops isNameChar more) : Misses reserved before rest c c := by
  apply misses_choice (d := c)
  · apply misses_choice (d := c)
    · exact misses_keyword fun more => h _ more (.inl rfl)
    · exact misses_keyword fun more => h _ more (.inr (.inl rfl))
  · exact misses_keyword fun more => h _ more (.inr (.inr rfl))

/-- A reserved word is a word like any other. -/
theorem IsReserved.chars (hword : IsReserved text) :
    (∃ x more, text = x :: more ∧ isNameStart x = true) ∧ ∀ x ∈ text, isNameChar x = true := by
  rcases hword with rfl | rfl | rfl
  · exact ⟨⟨'d', _, rfl, by decide⟩, List.all_eq_true.1 (by decide)⟩
  · exact ⟨⟨'p', _, rfl, by decide⟩, List.all_eq_true.1 (by decide)⟩
  · exact ⟨⟨'I', _, rfl, by decide⟩, List.all_eq_true.1 (by decide)⟩

theorem matches_name {n : String} (hname : IsName n.toList) (hrest : Stops isNameChar rest) :
    Matches name before n.toList rest c { c with names := c.names ++ [n] } := by
  apply matches_marked_string .name
  -- A reserved word here would be the same run of characters as the name.
  have hfree : Misses reserved before (n.toList ++ rest) c c := by
    apply misses_reserved
    intro word more hword hcut hmore
    obtain ⟨rfl, -⟩ := run_unique hname.chars hrest hword.chars.2 hmore hcut
    exact not_isReserved_iff.2 hname.free hword
  obtain ⟨x, more, hcons, hx⟩ := hname.start
  have hmore : ∀ y ∈ more, isNameChar y = true := fun y hy => hname.chars y (by simp [hcons, hy])
  have hchars : Matches (.seq (.satisfy isNameStart) (Rule.runOf isNameChar)) before ([x] ++ more) rest
      c c := matches_seq (matches_satisfy hx) (matches_run hmore hrest (Nat.zero_le _))
  rw [List.singleton_append, ← hcons] at hchars
  have hnot : Matches (.negation reserved) before [] (n.toList ++ rest) c c := matches_negation hfree
  exact matches_seq hnot (by rwa [List.append_nil])

/-- A reserved word is refused as a whole, not read as a shorter name. -/
theorem misses_name_reserved (hword : IsReserved text) (hrest : Stops isNameChar rest) :
    Misses name before (text ++ rest) c c :=
  misses_marked .name (misses_seq_first (misses_negation (matches_reserved hword hrest)))

theorem read_name (before rest : List Char) (c : Captures) :
    (∃ text more, rest = text ++ more ∧ IsName text ∧ Stops isNameChar more) ∨
      Misses name before rest c c := by
  by_cases hstart : Stops isNameStart rest
  · -- Nothing that starts like a word stands here, so it is the first character that is refused.
    have hfree : Misses reserved before rest c c := by
      apply misses_reserved
      intro word more hword hcut
      obtain ⟨⟨x, word, rfl, hx⟩, -⟩ := hword.chars
      rw [hcut, List.cons_append, stops_cons, hx] at hstart
      cases hstart
    refine .inr (misses_marked .name ?_)
    have hnot : Matches (.negation reserved) before [] rest c c := matches_negation hfree
    exact misses_seq_second hnot (misses_seq_first (misses_satisfy hstart))
  · obtain ⟨x, more, rfl, hx⟩ := not_stops hstart
    obtain ⟨run, more, rfl, hrun, hmore⟩ := exists_run isNameChar more
    have hchars : ∀ y ∈ x :: run, isNameChar y = true := by
      intro y hy
      rcases List.mem_cons.1 hy with rfl | hy
      · exact isNameChar_of_isNameStart hx
      · exact hrun y hy
    by_cases hword : IsReserved (x :: run)
    · exact .inr (misses_name_reserved hword hmore)
    · have hfree := not_isReserved_iff.1 hword
      exact .inl ⟨x :: run, more, rfl, ⟨⟨x, run, rfl, hx⟩, hchars, hfree⟩, hmore⟩

/-! ## Numbers and rates -/

theorem matches_digits (hdigits : IsDigits text) (hrest : Stops Classify.isDigit rest) :
    Matches digits before text rest c c :=
  matches_run hdigits.2 hrest (List.length_pos_iff.2 hdigits.1)

theorem read_digits (rest : List Char) :
    (∃ text more, rest = text ++ more ∧ IsDigits text ∧ Stops Classify.isDigit more) ∨
      Stops Classify.isDigit rest := by
  obtain ⟨run, more, rfl, hrun, hmore⟩ := exists_run Classify.isDigit rest
  by_cases hnil : run = []
  · subst hnil
    exact .inr hmore
  · exact .inl ⟨run, more, rfl, ⟨hnil, hrun⟩, hmore⟩

theorem not_isDigit_point : Classify.isDigit '.' = false := by decide

theorem IsDigits.head (h : IsDigits text) :
    ∃ x more, text = x :: more ∧ Classify.isDigit x = true := by
  obtain ⟨x, more, rfl⟩ := List.exists_cons_of_ne_nil h.1
  exact ⟨x, more, rfl, h.2 x (by simp)⟩

theorem IsDecimal.head (h : IsDecimal text) :
    ∃ x more, text = x :: more ∧ (Classify.isDigit x = true ∨ x = '.') := by
  cases h with
  | whole h =>
    obtain ⟨x, more, rfl, hx⟩ := h.head
    exact ⟨x, more, rfl, .inl hx⟩
  | pointed h _ =>
    obtain ⟨x, more, rfl, hx⟩ := h.head
    exact ⟨x, _, rfl, .inl hx⟩
  | fraction h => exact ⟨'.', _, rfl, .inr rfl⟩

/-- What follows a decimal number is not taken for its fraction. -/
def DecimalFollow (text rest : List Char) : Prop := '.' ∈ text ∨ ∀ more, rest ≠ '.' :: more

theorem matches_decimal (hdecimal : IsDecimal text) (hrest : Stops Classify.isDigit rest)
    (hfollow : DecimalFollow text rest) : Matches decimal before text rest c c := by
  cases hdecimal with
  | whole hdigits =>
    -- Without a point in it, the number must not be followed by one.
    have hpoint : ∀ more, rest ≠ '.' :: more := by
      rcases hfollow with hmem | hpoint
      · exact absurd (hdigits.2 '.' hmem) (by decide)
      · exact hpoint
    have hwhole : Matches digits before text ([] ++ rest) c c := matches_digits hdigits hrest
    have hnone : Matches (.optional (.seq (.element '.') (Rule.runOf Classify.isDigit)))
        (before ++ text) [] rest c c := matches_optional_none (misses_seq_first (misses_element hpoint))
    have hall := matches_seq hwhole hnone
    rw [List.append_nil] at hall
    exact matches_choice_first hall
  | @pointed whole fraction hdigits hfraction =>
    have hpoint : Stops Classify.isDigit ('.' :: fraction ++ rest) := by
      simpa using not_isDigit_point
    have hsome : Matches (.seq (.element '.') (Rule.runOf Classify.isDigit)) (before ++ whole)
        (['.'] ++ fraction) rest c c :=
      matches_seq (matches_element '.') (matches_run hfraction hrest (Nat.zero_le _))
    exact matches_choice_first
      (matches_seq (matches_digits hdigits hpoint) (matches_optional_some hsome))
  | @fraction fraction hfraction =>
    have hpoint : Stops Classify.isDigit ('.' :: fraction ++ rest) := by
      simpa using not_isDigit_point
    -- A number that starts with its point is left to the second alternative.
    apply matches_choice_second (d := c)
    · exact misses_seq_first (misses_run hpoint)
    · exact matches_seq (matches_element '.') (matches_digits hfraction hrest)

theorem read_decimal (before rest : List Char) (c : Captures) :
    (∃ text more, rest = text ++ more ∧ IsDecimal text ∧ Stops Classify.isDigit more ∧
      DecimalFollow text more) ∨ Misses decimal before rest c c := by
  rcases read_digits rest with ⟨whole, more, rfl, hwhole, hmore⟩ | hstop
  · by_cases hpoint : ∃ more', more = '.' :: more'
    · obtain ⟨more, rfl⟩ := hpoint
      obtain ⟨fraction, more, rfl, hfraction, hmore⟩ := exists_run Classify.isDigit more
      exact .inl ⟨whole ++ '.' :: fraction, more, by simp, .pointed hwhole hfraction, hmore,
        .inl (by simp)⟩
    · exact .inl ⟨whole, more, rfl, .whole hwhole, hmore, .inr fun m hm => hpoint ⟨m, hm⟩⟩
  · have hwhole : Misses (.seq digits (.optional (.seq (.element '.') (Rule.runOf Classify.isDigit))))
        before rest c c := misses_seq_first (misses_run hstop)
    by_cases hpoint : ∃ more, rest = '.' :: more
    · obtain ⟨more, rfl⟩ := hpoint
      rcases read_digits more with ⟨fraction, more, rfl, hfraction, hmore⟩ | hstop
      · exact .inl ⟨'.' :: fraction, more, rfl, .fraction hfraction, hmore, .inl (by simp)⟩
      · refine .inr (misses_choice hwhole ?_)
        have hpoint : Matches (.element '.') before ['.'] more c c := matches_element '.'
        exact misses_seq_second hpoint (misses_run hstop)
    · refine .inr (misses_choice hwhole ?_)
      exact misses_seq_first (misses_element fun more hmore => hpoint ⟨more, hmore⟩)

/-! ## Gaps -/

/-- What a gap repeats. -/
def gapItem : MarkedRule :=
  .choice (.run Classify.isSpace 1 Size.top) (.seq (.literal "(*") (.find (.literal "*)")))

theorem matches_comment {body : List Char} (hbody : ¬ ['*', ')'] <:+: body) :
    Matches gapItem before ('(' :: '*' :: (body ++ ['*', ')'])) rest c c := by
  have hopen : Classify.isSpace '(' = false := by decide
  -- A bracket is no blank, so the comment is left to the second alternative.
  apply matches_choice_second (d := c)
  · apply misses_run
    exact stops_cons.2 hopen
  · have hfind : Matches (.find (.literal "*)")) (before ++ ['(', '*']) (body ++ ['*', ')']) rest c c := by
      apply matches_find
      · intro l r hcut hr
        exact misses_literal (not_close_first hbody hcut hr)
      · exact matches_literal "*)"
    exact matches_seq (matches_literal "(*") hfind

theorem misses_gapItem (hsolid : Solid rest) : Misses gapItem before rest c c := by
  apply misses_choice (d := c)
  · exact misses_run hsolid.stops
  · by_cases hopen : "(*".toList <+: rest
    · obtain ⟨more, rfl⟩ := hopen
      refine misses_seq_second (matches_literal "(*") (misses_find ?_)
      -- A closing sign anywhere in the rest would make this a comment.
      intro l r hcut
      apply misses_literal
      rintro ⟨after, rfl⟩
      exact hsolid.uncommented l after (by simp [hcut])
    · exact misses_seq_first (misses_literal hopen)

theorem iterates_gap {gap : List Char} (hgap : Gap gap) (hsolid : Solid rest) :
    Iterates gapItem before gap rest c c := by
  -- By induction on the length, since one pass takes all blanks in a row.
  induction hlength : gap.length using Nat.strongRecOn generalizing gap before with
  | _ n ih =>
    subst hlength
    cases hgap with
    | nil => exact .stop (misses_gapItem hsolid)
    | @blank x more hx hmore =>
      obtain ⟨blanks, more, rfl, hblanks, hstop⟩ := exists_run Classify.isSpace more
      have hall : ∀ y ∈ x :: blanks, Classify.isSpace y = true := by
        intro y hy
        rcases List.mem_cons.1 hy with rfl | hy
        · exact hx
        · exact hblanks y hy
      -- The run of blanks ends inside the gap, or with the gap in front of what is solid.
      have hnext : Stops Classify.isSpace (more ++ rest) := by
        cases more with
        | nil => exact hsolid.stops
        | cons y more => simpa using hstop
      have hrun : Matches gapItem before (x :: blanks) (more ++ rest) c c :=
        matches_choice_first (matches_run hall hnext (by simp))
      refine .pass (by simp) hrun (ih more.length ?_ ?_ rfl)
      · simp only [List.length_cons, List.length_append]
        omega
      · exact hmore.of_blanks hblanks
    | @comment body more hbody hmore =>
      have hcomment : Matches gapItem before ('(' :: '*' :: (body ++ ['*', ')'])) (more ++ rest) c c :=
        matches_comment hbody
      have hpass := Iterates.pass (by simp) hcomment (ih more.length (by simp; omega) hmore rfl)
      simpa using hpass

theorem matches_gap {gap : List Char} (hgap : Gap gap) (hsolid : Solid rest) :
    Matches Grammar.gap before gap rest c c :=
  matches_star (iterates_gap hgap hsolid)

/-! ## Parts -/

namespace Part

/-- The rule that reads a part. -/
def rule : Part → MarkedRule
  | keyword word => Grammar.keyword word
  | arrow => .literal "->"
  | sign x => .element x
  | gap => Grammar.gap
  | name _ => Grammar.name
  | number _ => Grammar.number
  | stochasticity _ => marked digits .stochasticity
  | rate _ => Grammar.rate

/-- What a part leaves in the captures. -/
def capture (c : Captures) : Part → Captures
  | name n => { c with names := c.names ++ [n] }
  | number n => { c with numbers := c.numbers ++ [n] }
  | stochasticity n => { c with stochasticity := some n }
  | rate r => { c with rate := some r }
  | _ => c

/-- The second part is read by the same rule as the first. -/
def SameKind : Part → Part → Prop
  | name _, q => ∃ n, q = name n
  | number _, q => ∃ n, q = number n
  | stochasticity _, q => ∃ n, q = stochasticity n
  | rate _, q => ∃ r, q = rate r
  | p, q => q = p

/-- What follows the part is not taken for more of it. -/
def Follow : Part → List Char → Prop
  | gap, rest => Solid rest
  | rate (.finite n), rest => DecimalFollow n.toList rest
  | _, _ => True

theorem matches_rule {p : Part} (h : p.Spelled text rest) (hfollow : p.Follow rest) :
    Matches p.rule before text rest c (p.capture c) := by
  cases p with
  | keyword word =>
    obtain ⟨rfl, hrest⟩ := h
    exact matches_keyword word hrest
  | arrow =>
    cases h
    exact matches_literal "->"
  | sign x =>
    cases h
    exact matches_element x
  | gap => exact matches_gap h hfollow
  | name n =>
    obtain ⟨rfl, hname, hrest⟩ := h
    exact matches_name hname hrest
  | number n =>
    obtain ⟨rfl, hdigits, hrest⟩ := h
    exact matches_marked_string .number (matches_digits hdigits hrest)
  | stochasticity n =>
    obtain ⟨rfl, hdigits, hrest⟩ := h
    exact matches_marked_string .stochasticity (matches_digits hdigits hrest)
  | rate r =>
    cases r with
    | infinite =>
      obtain ⟨rfl, hrest⟩ := h
      exact matches_choice_first (matches_marked .infiniteRate (matches_keyword "Inf" hrest))
    | finite n =>
      obtain ⟨rfl, hdecimal, hrest⟩ := h
      apply matches_choice_second (d := c)
      · apply misses_marked
        apply misses_keyword
        rintro more hcut -
        -- A decimal number starts with a digit or a point, not with a letter.
        obtain ⟨x, tail, hcons, hx⟩ := hdecimal.head
        have hhead : x = 'I' := by
          rw [hcons] at hcut
          exact (List.cons.inj hcut).1
        subst hhead
        exact absurd hx (by decide)
      · exact matches_marked_string .finiteRate (matches_decimal hdecimal hrest hfollow)

/-- A rule fails where nothing stands that spells a part of its kind. -/
theorem read (p : Part) (before rest : List Char) (c : Captures) :
    (∃ q text more, SameKind p q ∧ rest = text ++ more ∧ q.Spelled text more ∧ q.Follow more) ∨
      Misses p.rule before rest c c := by
  cases p with
  | keyword word =>
    rcases read_keyword word before rest c with ⟨more, rfl, hmore⟩ | hmiss
    · exact .inl ⟨_, _, more, rfl, rfl, ⟨rfl, hmore⟩, trivial⟩
    · exact .inr hmiss
  | arrow =>
    by_cases hword : "->".toList <+: rest
    · obtain ⟨more, rfl⟩ := hword
      exact .inl ⟨_, _, more, rfl, rfl, rfl, trivial⟩
    · exact .inr (misses_literal hword)
  | sign x =>
    by_cases hsign : ∃ more, rest = x :: more
    · obtain ⟨more, rfl⟩ := hsign
      exact .inl ⟨_, [x], more, rfl, rfl, rfl, trivial⟩
    · exact .inr (misses_element fun more hmore => hsign ⟨more, hmore⟩)
  | gap =>
    obtain ⟨gap, more, rfl, hgap, hsolid⟩ := Gap.exists_cut rest
    exact .inl ⟨_, gap, more, rfl, rfl, hgap, hsolid⟩
  | name m =>
    rcases read_name before rest c with ⟨text, more, rfl, hname, hmore⟩ | hmiss
    · exact .inl ⟨_, text, more, ⟨String.ofList text, rfl⟩, rfl, ⟨by simp, hname, hmore⟩, trivial⟩
    · exact .inr hmiss
  | number m =>
    rcases read_digits rest with ⟨text, more, rfl, hdigits, hmore⟩ | hstop
    · exact .inl ⟨_, text, more, ⟨String.ofList text, rfl⟩, rfl, ⟨by simp, hdigits, hmore⟩,
        trivial⟩
    · exact .inr (misses_marked .number (misses_run hstop))
  | stochasticity m =>
    rcases read_digits rest with ⟨text, more, rfl, hdigits, hmore⟩ | hstop
    · exact .inl ⟨_, text, more, ⟨String.ofList text, rfl⟩, rfl, ⟨by simp, hdigits, hmore⟩,
        trivial⟩
    · exact .inr (misses_marked .stochasticity (misses_run hstop))
  | rate q =>
    rcases read_keyword "Inf" before rest c with ⟨more, rfl, hmore⟩ | hinf
    · exact .inl ⟨_, _, more, ⟨.infinite, rfl⟩, rfl, ⟨rfl, hmore⟩, trivial⟩
    -- The word for an infinite rate is tried first, and its failure leaves no mark.
    · rcases read_decimal before rest c with
        ⟨text, more, rfl, hdecimal, hmore, hfollow⟩ | hmiss
      · refine .inl ⟨_, text, more, ⟨.finite (String.ofList text), rfl⟩, rfl, ?_, ?_⟩
        · exact ⟨by simp, hdecimal, hmore⟩
        · show DecimalFollow (String.ofList text).toList more
          rwa [String.toList_ofList]
      · exact .inr (misses_choice (misses_marked _ hinf) (misses_marked _ hmiss))

end Part

end Pegwork.Hitting
