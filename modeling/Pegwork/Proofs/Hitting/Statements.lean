import Pegwork.Proofs.Hitting.Parts

/-!
# Reading statements

From parts to statements. The rule of each form of statement is a sequence of rules of parts, so what
is known about parts goes over to it by induction on the list of parts.

* `Statement.matches_rule`: a text that spells a statement is consumed exactly by the rule of its form,
  which adds the statement to those that were finished before.
* `Form.reads`: where no such text stands, the rule fails, and the finished statements stay as they are.
* `Statement.Spelled.form_eq`: at one place only statements of one form are spelled, so the order in
  which the forms are tried does not matter (`takes_tried`, `fails_tried`).

What a failed alternative leaves in the captures does no harm: the mark at the beginning of the next
one makes it void. Therefore the outcome at a place is stated for all captures at once (`Takes`, `Fails`).
-/

namespace Pegwork.Hitting

open Grammar

variable {before text more rest : List Char} {c d e : Captures}

/-! ## Captures -/

namespace Captures

/-- The captures at the beginning of a statement on the given line. -/
def begun (c : Captures) (line : Nat) : Captures :=
  { c with line, names := [], numbers := [], rate := none, stochasticity := none }

/-- From `c` to `d` the given statements are finished, and there are no complaints. -/
def Adds (c d : Captures) (ss : List Statement) : Prop :=
  d.statements = c.statements ++ ss ∧ d.logs = c.logs

theorem Adds.refl (c : Captures) : c.Adds c [] := ⟨by simp, rfl⟩

theorem Adds.trans {ss ts : List Statement} (h : c.Adds d ss) (h' : d.Adds e ts) :
    c.Adds e (ss ++ ts) := by
  refine ⟨?_, h'.2.trans h.2⟩
  rw [h'.1, h.1, List.append_assoc]

theorem begun_adds (c : Captures) (line : Nat) : c.Adds (c.begun line) [] := ⟨by simp [begun], rfl⟩

theorem foldl_capture_adds (ps : List Part) (c : Captures) : c.Adds (ps.foldl Part.capture c) [] := by
  induction ps generalizing c with
  | nil => exact .refl c
  | cons p ps ih =>
    -- No part finishes a statement by itself.
    have hone : c.Adds (p.capture c) [] := by cases p <;> exact ⟨by simp [Part.capture], rfl⟩
    exact hone.trans (ih _)

end Captures

open Captures

/-! ## Parts in a row -/

namespace Part

/-- Whether a part can only start with a character that no gap starts with. -/
def isSolid : Part → Bool
  | keyword word => word.toList.head?.any isNameStart
  | sign x => !Classify.isSpace x && x != '('
  | gap => false
  | _ => true

/-- Whether the first part ends where the second one begins. -/
def endsAt : Part → Part → Bool
  | gap, q => q.isSolid
  | rate _, _ => false
  | _, _ => true

theorem solid_of_isNameStart {x : Char} (hx : isNameStart x = true) : Solid (x :: text) := by
  refine solid_cons (isSpace_of_isNameStart hx) ?_
  rintro rfl
  exact absurd hx (by decide)

theorem solid_of_isDigit {x : Char} (hx : Classify.isDigit x = true) : Solid (x :: text) := by
  refine solid_cons (isSpace_of_isDigit hx) ?_
  rintro rfl
  exact absurd hx (by decide)

theorem Spelled.solid {p : Part} (h : p.Spelled text rest) (hp : p.isSolid = true) :
    Solid (text ++ rest) := by
  cases p with
  | keyword word =>
    obtain ⟨rfl, -⟩ := h
    rw [isSolid] at hp
    cases hword : word.toList with
    | nil => simp [hword] at hp
    | cons x more => exact solid_of_isNameStart (by simpa [hword] using hp)
  | arrow =>
    cases h
    exact solid_cons (by decide) (by decide)
  | sign x =>
    cases h
    rw [isSolid, Bool.and_eq_true, Bool.not_eq_true', bne_iff_ne] at hp
    exact solid_cons hp.1 hp.2
  | gap => cases hp
  | name n =>
    obtain ⟨x, more, rfl, hx⟩ := h.2.1.start
    exact solid_of_isNameStart hx
  | number n =>
    obtain ⟨x, more, rfl, hx⟩ := h.2.1.head
    exact solid_of_isDigit hx
  | stochasticity n =>
    obtain ⟨x, more, rfl, hx⟩ := h.2.1.head
    exact solid_of_isDigit hx
  | rate r =>
    cases r with
    | infinite =>
      obtain ⟨rfl, -⟩ := h
      exact solid_of_isNameStart (x := 'I') (by decide)
    | finite n =>
      obtain ⟨x, more, rfl, hx⟩ := h.2.1.head
      rcases hx with hx | rfl
      · exact solid_of_isDigit hx
      · exact solid_cons (by decide) (by decide)

theorem follow_of_endsAt {p q : Part} (hpq : p.endsAt q = true) (h : q.Spelled text rest) :
    p.Follow (text ++ rest) := by
  cases p with
  | gap => exact h.solid hpq
  | rate r => cases hpq
  | _ => trivial

theorem SameKind.rule_eq {p q : Part} (h : SameKind p q) : p.rule = q.rule := by
  cases p with
  | name n | number n | stochasticity n | rate r =>
    obtain ⟨_, rfl⟩ := h
    rfl
  | keyword word | arrow | sign x | gap =>
    cases h
    rfl

theorem map_rule_eq {ps qs : List Part} (h : List.Forall₂ SameKind ps qs) :
    ps.map rule = qs.map rule := by
  induction h with
  | nil => rfl
  | cons hkind _ ih => rw [List.map_cons, List.map_cons, hkind.rule_eq, ih]

end Part

open Pegwork.Hitting.Part

theorem spelledInOrder_append {ps qs : List Part} :
    SpelledInOrder (ps ++ qs) text rest ↔
      ∃ first more, text = first ++ more ∧ SpelledInOrder ps first (more ++ rest) ∧
        SpelledInOrder qs more rest := by
  induction ps generalizing text with
  | nil => simp [SpelledInOrder]
  | cons p ps ih =>
    constructor
    · rintro ⟨first, more, rfl, hp, hmore⟩
      obtain ⟨second, more, rfl, hps, hqs⟩ := ih.1 hmore
      refine ⟨first ++ second, more, by simp, ⟨first, second, rfl, ?_, hps⟩, hqs⟩
      simpa using hp
    · rintro ⟨_, more, rfl, ⟨first, second, rfl, hp, hps⟩, hqs⟩
      refine ⟨first, second ++ more, by simp, ?_, ih.2 ⟨second, more, rfl, hps, hqs⟩⟩
      simpa using hp

/-- The parts are spelled one after the other, and what follows each is not taken for more of it. -/
def TakenInOrder : List Part → (text rest : List Char) → Prop
  | [], text, _ => text = []
  | part :: parts, text, rest =>
    ∃ first more, text = first ++ more ∧ part.Spelled first (more ++ rest) ∧
      part.Follow (more ++ rest) ∧ TakenInOrder parts more rest

theorem TakenInOrder.spelled {ps : List Part} (h : TakenInOrder ps text rest) :
    SpelledInOrder ps text rest := by
  induction ps generalizing text with
  | nil => exact h
  | cons p ps ih =>
    obtain ⟨first, more, rfl, hp, -, hps⟩ := h
    exact ⟨first, more, rfl, hp, ih hps⟩

/-- Where a part ends is decided by the next one, and for the last one by what follows. -/
theorem SpelledInOrder.taken {ps : List Part} (h : SpelledInOrder ps text rest)
    (hchain : ps.IsChain fun p q => p.endsAt q = true) (hlast : ∀ p ∈ ps.getLast?, p.Follow rest) :
    TakenInOrder ps text rest := by
  induction ps generalizing text with
  | nil => exact h
  | cons p ps ih =>
    obtain ⟨first, more, rfl, hp, hps⟩ := h
    refine ⟨first, more, rfl, hp, ?_, ih hps hchain.of_cons ?_⟩
    · cases ps with
      | nil =>
        cases hps
        exact hlast p (by simp)
      | cons q ps =>
        obtain ⟨second, more, rfl, hq, -⟩ := hps
        rw [List.append_assoc]
        exact follow_of_endsAt (List.isChain_cons_cons.1 hchain).1 hq
    · intro q hq
      apply hlast
      rw [List.getLast?_cons, Option.mem_def.1 hq]
      rfl

/-- Parts in a row are consumed one after the other. -/
theorem matches_taken {a : MarkedRule} {ps : List Part} (ha : Matches a before text (more ++ rest) c d)
    (h : TakenInOrder ps more rest) :
    Matches (Rule.sequence a (ps.map Part.rule)) before (text ++ more) rest c
      (ps.foldl Part.capture d) := by
  induction ps generalizing a text more d with
  | nil =>
    cases h
    rw [List.append_nil]
    exact ha
  | cons p ps ih =>
    obtain ⟨first, more, rfl, hp, hfollow, hps⟩ := h
    have hfirst : Matches (.seq a p.rule) before (text ++ first) (more ++ rest) c (p.capture d) := by
      rw [List.append_assoc] at ha
      exact matches_seq ha (matches_rule hp hfollow)
    have hall := ih hfirst hps
    rwa [List.append_assoc] at hall

theorem misses_sequence {a : MarkedRule} (bs : List MarkedRule) (ha : Misses a before rest c d) :
    Misses (Rule.sequence a bs) before rest c d := by
  induction bs generalizing a with
  | nil => exact ha
  | cons b bs ih => exact ih (misses_seq_first ha)

/-- Parts of the kinds of a row stand here, or the rules of the row fail without finishing a
statement. -/
theorem read_sequence {a : MarkedRule} (ps : List Part) (ha : Matches a before text rest c d) :
    (∃ qs more left, rest = more ++ left ∧ List.Forall₂ SameKind ps qs ∧ TakenInOrder qs more left) ∨
    ∃ e, d.Adds e [] ∧ Misses (Rule.sequence a (ps.map Part.rule)) before (text ++ rest) c e := by
  induction ps generalizing a text rest d with
  | nil => exact .inl ⟨[], [], rest, rfl, .nil, rfl⟩
  | cons p ps ih =>
    rcases p.read (before ++ text) rest d with
      ⟨q, first, more, hkind, rfl, hq, hfollow⟩ | hmiss
    -- The part that was read takes the place of the one in the pattern.
    · have hfirst : Matches (.seq a p.rule) before (text ++ first) more c (q.capture d) := by
        rw [hkind.rule_eq]
        exact matches_seq ha (matches_rule hq hfollow)
      rcases ih hfirst with ⟨qs, more, left, rfl, hkinds, hqs⟩ | ⟨e, he, hmiss⟩
      · exact .inl ⟨q :: qs, first ++ more, left, by simp, .cons hkind hkinds,
          ⟨first, more, rfl, hq, hfollow, hqs⟩⟩
      · refine .inr ⟨e, (foldl_capture_adds [q] d).trans he, ?_⟩
        rwa [List.append_assoc] at hmiss
    · exact .inr ⟨d, .refl d, misses_sequence (ps.map rule) (misses_seq_second ha hmiss)⟩

/-! ## Optional suffixes -/

/-- The rule of an optional suffix that is announced by a sign. -/
def suffixRule (x : Char) (p : Part) : MarkedRule :=
  .optional (Rule.sequence Grammar.gap [.element x, Grammar.gap, p.rule])

theorem matches_suffix_some {x : Char} {p : Part} (h : TakenInOrder [.gap, .sign x, .gap, p] text rest) :
    Matches (suffixRule x p) before text rest c (p.capture c) := by
  obtain ⟨gap, more, rfl, hgap, hsolid, hmore⟩ := h
  exact matches_optional_some (matches_taken (matches_gap hgap hsolid) hmore)

theorem taken_suffix {x : Char} {p : Part} (hx : (sign x).isSolid = true) (hp : p.isSolid = true)
    (h : SpelledInOrder [.gap, .sign x, .gap, p] text rest) (hfollow : p.Follow rest) :
    TakenInOrder [.gap, .sign x, .gap, p] text rest := by
  apply h.taken
  -- The sign ends the gap in front of it, and the number the gap behind it.
  · simp [endsAt, hx, hp]
  · simpa using hfollow

theorem matches_suffix_none {x : Char} {p : Part} {gap : List Char} (hgap : Gap gap)
    (hsolid : Solid rest) (hx : ∀ more, rest ≠ x :: more) :
    Matches (suffixRule x p) before [] (gap ++ rest) c c := by
  apply matches_optional_none
  apply misses_sequence [Grammar.gap, p.rule] (a := .seq Grammar.gap (.element x))
  exact misses_seq_second (matches_gap hgap hsolid) (misses_element hx)

/-- A suffix is read as a whole or not at all. -/
theorem read_suffix (x : Char) (p : Part) (rest : List Char) :
    (∃ q text more, SameKind p q ∧ rest = text ++ more ∧ TakenInOrder [.gap, .sign x, .gap, q] text more) ∨
    ∀ before c, Matches (suffixRule x p) before [] rest c c := by
  -- Whether a suffix stands here has nothing to do with what was captured before.
  by_cases h : ∃ q text more, SameKind p q ∧ rest = text ++ more ∧
      TakenInOrder [.gap, .sign x, .gap, q] text more
  · exact .inl h
  refine .inr fun before c => ?_
  obtain ⟨gap, more, rfl, hgap, hsolid⟩ := Gap.exists_cut rest
  have hfirst : Matches Grammar.gap before gap more c c := matches_gap hgap hsolid
  by_cases hsign : ∃ more', more = x :: more'
  · obtain ⟨more, rfl⟩ := hsign
    have hsecond : Matches (.seq Grammar.gap (.element x)) before (gap ++ [x]) more c c :=
      matches_seq hfirst (matches_element x)
    obtain ⟨gap', more, rfl, hgap', hsolid'⟩ := Gap.exists_cut more
    have hthird := matches_seq hsecond (matches_gap hgap' hsolid')
    rcases p.read (before ++ (gap ++ [x] ++ gap')) more c with
      ⟨q, text, more, hkind, rfl, hq, hfollow⟩ | hmiss
    · have hfollow' : Part.gap.Follow ([x] ++ (gap' ++ text) ++ more) := by
        show Solid _
        simpa using hsolid
      refine absurd ⟨q, gap ++ ([x] ++ (gap' ++ text)), more, hkind, by simp, ?_⟩ h
      refine ⟨gap, [x] ++ (gap' ++ text), rfl, hgap, hfollow', ?_⟩
      refine ⟨[x], gap' ++ text, rfl, rfl, trivial, ?_⟩
      exact ⟨gap', text, rfl, hgap', hsolid', text, [], by simp, hq, hfollow, rfl⟩
    · -- The sign alone leaves nothing in the captures.
      have hcut : gap ++ [x] ++ (gap' ++ more) = gap ++ [x] ++ gap' ++ more := by simp
      rw [List.append_cons, hcut]
      exact matches_optional_none (misses_seq_second hthird hmiss)
  · exact matches_suffix_none hgap hsolid fun more hmore => hsign ⟨more, hmore⟩

/-! ## Forms -/

/-- The rule of a form of statement. -/
def Form.rule : Form → MarkedRule
  | .defaultRate => Grammar.defaultRate
  | .absorption => Grammar.absorption
  | .process => Grammar.process
  | .action => Grammar.action

/-- The captures behind a statement that is read from its beginning. -/
def Captures.finished (c : Captures) (s : Statement) : Captures :=
  { s.parts.foldl Part.capture (c.begun s.line) with statements := c.statements ++ [s] }

theorem Captures.finished_adds (c : Captures) (s : Statement) : c.Adds (c.finished s) [s] :=
  ⟨rfl, (foldl_capture_adds s.parts (c.begun s.line)).2⟩

theorem foldl_capture_rateSuffix (r : Option RawRate) (hc : c.rate = none) :
    (rateSuffix r).foldl Part.capture c = { c with rate := r } := by
  cases r with
  | none => simp [rateSuffix, ← hc]
  | some r => rfl

theorem foldl_capture_stochasticitySuffix (n : Option String) (hc : c.stochasticity = none) :
    (stochasticitySuffix n).foldl Part.capture c = { c with stochasticity := n } := by
  cases n with
  | none => simp [stochasticitySuffix, ← hc]
  | some n => rfl

/-- The parts of a statement are what the statement is built from. -/
theorem Statement.build_parts (s : Statement) (c : Captures) :
    (s.parts.foldl Part.capture (c.begun s.line)).build s.form = some s := by
  cases s with
  | defaultRate r line => rfl
  | absorption value line => rfl
  | process sort max line => rfl
  | action a line =>
    rw [parts, List.foldl_append, List.foldl_append, foldl_capture_rateSuffix _ rfl,
      foldl_capture_stochasticitySuffix _ rfl]
    rfl

theorem matches_begin (before rest : List Char) (c : Captures) :
    Matches begin before [] rest c (c.begun (1 + before.count '\n')) :=
  matches_marked .begin matches_empty

theorem matches_finish {a : MarkedRule} {s : Statement}
    (ha : Matches a before text rest c (s.parts.foldl Part.capture (c.begun s.line))) :
    Matches (marked a (.finish s.form)) before text rest c (c.finished s) := by
  have hmarked := matches_marked (.finish s.form) ha
  -- The mark at the end finds the right parts, so it complains about nothing.
  rw [Captures.step, Statement.build_parts] at hmarked
  simp only [(foldl_capture_adds s.parts (c.begun s.line)).1, List.append_nil] at hmarked
  exact hmarked

/-! ## What follows a statement -/

/-- Behind a gap, the text goes on with something else than `x`. -/
def Clear (x : Char) (rest : List Char) : Prop :=
  ∃ gap more, rest = gap ++ more ∧ Gap gap ∧ Solid more ∧ ∀ tail, more ≠ x :: tail

/-- Behind a gap, the text ends or the first word of a statement follows. -/
def Tail (rest : List Char) : Prop :=
  ∃ gap more, rest = gap ++ more ∧ Gap gap ∧ ∀ x tail, more = x :: tail → isNameStart x = true

theorem Tail.clear {x : Char} (h : Tail rest) (hx : isNameStart x = false) : Clear x rest := by
  obtain ⟨gap, more, rfl, hgap, hmore⟩ := h
  refine ⟨gap, more, rfl, hgap, ?_, ?_⟩
  · cases more with
    | nil => exact solid_nil
    | cons y more => exact solid_of_isNameStart (hmore y more rfl)
  · intro tail hcons
    rw [hmore x tail hcons] at hx
    cases hx

theorem Clear.ne {x : Char} (h : Clear x rest) (hx : (sign x).isSolid = true) :
    ∀ tail, rest ≠ x :: tail := by
  obtain ⟨gap, more, rfl, hgap, -, hmore⟩ := h
  rw [isSolid, Bool.and_eq_true, Bool.not_eq_true', bne_iff_ne] at hx
  intro tail hcons
  cases hgap with
  | nil => exact hmore tail hcons
  | blank hy _ =>
    obtain ⟨rfl, -⟩ := List.cons.inj hcons
    rw [hx.1] at hy
    cases hy
  | comment _ _ => exact hx.2 (List.cons.inj hcons).1.symm

theorem Clear.rate_follow (h : Clear '.' rest) (r : RawRate) : (Part.rate r).Follow rest := by
  cases r with
  | infinite => trivial
  | finite n => exact .inr (h.ne (by decide))

theorem clear_stochasticitySuffix {x : Char} {n : Option String}
    (h : SpelledInOrder (stochasticitySuffix n) text rest) (htail : Tail rest)
    (hx : isNameStart x = false) (hne : x ≠ '~') : Clear x (text ++ rest) := by
  cases n with
  | none =>
    cases h
    exact htail.clear hx
  | some n =>
    obtain ⟨gap, _, rfl, hgap, sign, more, rfl, hsign, -⟩ := h
    cases hsign
    -- The suffix itself stands between the gap and whatever follows it.
    refine ⟨gap, '~' :: (more ++ rest), by simp, hgap, solid_cons (by decide) (by decide), ?_⟩
    intro tail hcons
    exact hne (List.cons.inj hcons).1.symm

theorem matches_actionRate {r : Option RawRate} (hc : c.rate = none)
    (h : SpelledInOrder (rateSuffix r) text rest) (hsign : Clear '@' rest) (hpoint : Clear '.' rest) :
    Matches actionRate before text rest c { c with rate := r } := by
  cases r with
  | none =>
    cases h
    obtain ⟨gap, more, rfl, hgap, hsolid, hmore⟩ := hsign
    rw [← hc]
    exact matches_suffix_none (p := .rate .infinite) hgap hsolid hmore
  | some r =>
    have htaken := taken_suffix (p := .rate r) (by decide) rfl h (hpoint.rate_follow r)
    exact matches_suffix_some htaken

theorem matches_actionStochasticity {n : Option String} (hc : c.stochasticity = none)
    (h : SpelledInOrder (stochasticitySuffix n) text rest) (htail : Tail rest) :
    Matches actionStochasticity before text rest c { c with stochasticity := n } := by
  cases n with
  | none =>
    cases h
    obtain ⟨gap, more, rfl, hgap, hsolid, hmore⟩ := htail.clear (x := '~') (by decide)
    rw [← hc]
    exact matches_suffix_none (p := .stochasticity "") hgap hsolid hmore
  | some n =>
    have htaken := taken_suffix (p := .stochasticity n) (by decide) rfl h trivial
    exact matches_suffix_some htaken

/-! ## Statements -/

/-- The parts of an action without its suffixes. -/
def RawAction.stem (a : RawAction) : List Part :=
  [.name a.hitterSort, .gap, .number a.hitter, .gap, .arrow, .gap, .name a.targetSort, .gap,
    .number a.target, .gap, .number a.bounce]

/-- An action is read in three steps: its parts without the suffixes, and then each suffix. -/
theorem matches_action {a : RawAction} {line : Nat} {stem rate stochasticity : List Char}
    (hline : line = 1 + before.count '\n')
    (hstem : TakenInOrder a.stem stem (rate ++ (stochasticity ++ rest)))
    (hrate : ∀ before (c : Captures), c.rate = none →
      Matches actionRate before rate (stochasticity ++ rest) c { c with rate := a.rate })
    (hstochasticity : ∀ before (c : Captures), c.stochasticity = none →
      Matches actionStochasticity before stochasticity rest c
        { c with stochasticity := a.stochasticity }) :
    Matches Grammar.action before (stem ++ rate ++ stochasticity) rest c
      (c.finished (.action a line)) := by
  apply matches_finish (s := .action a line)
  -- With a suffix or without, the captures then hold what the action has.
  rw [Statement.parts, List.foldl_append, List.foldl_append, foldl_capture_rateSuffix _ rfl,
    foldl_capture_stochasticitySuffix _ rfl]
  have hbegin := matches_begin before (stem ++ (rate ++ (stochasticity ++ rest))) c
  rw [← hline] at hbegin
  exact matches_seq (matches_seq (matches_taken hbegin hstem) (hrate _ _ rfl)) (hstochasticity _ _ rfl)

/-- **A statement is read as it is spelled.** -/
theorem Statement.matches_rule {s : Statement} (hline : s.line = 1 + before.count '\n')
    (h : s.Spelled text rest) (htail : Tail rest) :
    Matches s.form.rule before text rest c (c.finished s) := by
  have hbegin : ∀ more, Matches begin before [] more c (c.begun s.line) := by
    intro more
    rw [hline]
    exact matches_begin before more c
  cases s with
  | defaultRate r line =>
    refine matches_finish (s := .defaultRate r line) (matches_taken (hbegin _) (h.taken ?_ ?_))
    · simp [parts, endsAt, isSolid]
      decide
    · simpa [parts] using (htail.clear (by decide)).rate_follow r
  | absorption value line =>
    refine matches_finish (s := .absorption value line) (matches_taken (hbegin _) (h.taken ?_ ?_))
    · simp [parts, endsAt, isSolid]
      decide
    · simp [parts, Follow]
  | process sort max line =>
    refine matches_finish (s := .process sort max line) (matches_taken (hbegin _) (h.taken ?_ ?_))
    · simp [parts, endsAt, isSolid]
    · simp [parts, Follow]
  | action a line =>
    obtain ⟨_, stochasticity, rfl, hstem, hstochasticity⟩ := spelledInOrder_append.1 h
    obtain ⟨stem, rate, rfl, hstem, hrate⟩ := spelledInOrder_append.1 hstem
    have hclear : ∀ x, isNameStart x = false → x ≠ '~' → Clear x (stochasticity ++ rest) :=
      fun x hx hne => clear_stochasticitySuffix hstochasticity htail hx hne
    apply matches_action hline
    · apply hstem.taken
      · simp [endsAt, isSolid]
      · simp [Follow]
    · intro _ _ hc
      exact matches_actionRate hc hrate (hclear '@' (by decide) (by decide))
        (hclear '.' (by decide) (by decide))
    · intro _ _ hc
      exact matches_actionStochasticity hc hstochasticity htail

/-! ## What happens at a place -/

/-- Whatever was captured before, the rule consumes the text and finishes the statement. -/
def Takes (rule : MarkedRule) (before text rest : List Char) (s : Statement) : Prop :=
  ∀ c : Captures, ∃ d, c.Adds d [s] ∧ Matches rule before text rest c d

/-- Whatever was captured before, the rule fails and finishes no statement. -/
def Fails (rule : MarkedRule) (before rest : List Char) : Prop :=
  ∀ c : Captures, ∃ d, c.Adds d [] ∧ Misses rule before rest c d

theorem takes_choice_first {a b : MarkedRule} {s : Statement} (ha : Takes a before text rest s) :
    Takes (.choice a b) before text rest s := by
  intro c
  obtain ⟨d, hd, hmatch⟩ := ha c
  exact ⟨d, hd, matches_choice_first hmatch⟩

/-- What the first rule leaves in the captures is cleared when the second begins. -/
theorem takes_choice_second {a b : MarkedRule} {s : Statement} (ha : Fails a before (text ++ rest))
    (hb : Takes b before text rest s) : Takes (.choice a b) before text rest s := by
  intro c
  obtain ⟨d, hd, hmiss⟩ := ha c
  obtain ⟨e, he, hmatch⟩ := hb d
  exact ⟨e, hd.trans he, matches_choice_second hmiss hmatch⟩

theorem fails_choice {a b : MarkedRule} (ha : Fails a before rest) (hb : Fails b before rest) :
    Fails (.choice a b) before rest := by
  intro c
  obtain ⟨d, hd, hmiss⟩ := ha c
  obtain ⟨e, he, hmiss'⟩ := hb d
  exact ⟨e, hd.trans he, misses_choice hmiss hmiss'⟩

theorem takes_of_matches {s : Statement}
    (h : ∀ c, Matches s.form.rule before text rest c (c.finished s)) :
    Takes s.form.rule before text rest s :=
  fun c => ⟨c.finished s, finished_adds c s, h c⟩

/-- Either a statement of the form stands at a place and its rule takes it, or the rule fails. -/
def Form.Reads (f : Form) (before rest : List Char) : Prop :=
  (∃ s text more, s.form = f ∧ s.line = 1 + before.count '\n' ∧ rest = text ++ more ∧
    s.Spelled text more ∧ Takes f.rule before text more s) ∨
  Fails f.rule before rest

/-- A form without suffixes is read part by part. -/
theorem reads_of_parts {f : Form} (ps : List Part)
    (hrule : f.rule = marked (Rule.sequence begin (ps.map Part.rule)) (.finish f))
    (hparts : ∀ qs line, List.Forall₂ SameKind ps qs →
      ∃ s : Statement, s.form = f ∧ s.line = line ∧ s.parts = qs) : f.Reads before rest := by
  -- The text alone decides between the two cases, and the captures come in only behind that.
  by_cases h : ∃ qs text more, rest = text ++ more ∧ List.Forall₂ SameKind ps qs ∧
      TakenInOrder qs text more
  · obtain ⟨qs, text, more, rfl, hkinds, hqs⟩ := h
    obtain ⟨s, rfl, hline, rfl⟩ := hparts qs (1 + before.count '\n') hkinds
    refine .inl ⟨s, text, more, rfl, hline, rfl, hqs.spelled, takes_of_matches fun c => ?_⟩
    have hbegin := matches_begin before (text ++ more) c
    rw [← hline] at hbegin
    have hmatch := matches_finish (matches_taken hbegin hqs)
    rwa [← map_rule_eq hkinds, ← hrule] at hmatch
  · refine .inr fun c => ?_
    obtain ⟨e, he, hmiss⟩ := (read_sequence ps (matches_begin before rest c)).resolve_left h
    rw [hrule]
    exact ⟨e, (begun_adds c _).trans he, misses_marked _ hmiss⟩

theorem read_actionRate (rest : List Char) :
    ∃ r text more, rest = text ++ more ∧ SpelledInOrder (rateSuffix r) text more ∧
      ∀ before (c : Captures), c.rate = none →
        Matches actionRate before text more c { c with rate := r } := by
  rcases read_suffix '@' (.rate .infinite) rest with ⟨q, text, more, hkind, rfl, htaken⟩ | hnone
  · obtain ⟨r, rfl⟩ := hkind
    exact ⟨some r, text, more, rfl, htaken.spelled, fun _ _ _ => matches_suffix_some htaken⟩
  · refine ⟨none, [], rest, rfl, rfl, ?_⟩
    intro before c hc
    rw [← hc]
    exact hnone before c

theorem read_actionStochasticity (rest : List Char) :
    ∃ n text more, rest = text ++ more ∧ SpelledInOrder (stochasticitySuffix n) text more ∧
      ∀ before (c : Captures), c.stochasticity = none →
        Matches actionStochasticity before text more c { c with stochasticity := n } := by
  rcases read_suffix '~' (.stochasticity "") rest with ⟨q, text, more, hkind, rfl, htaken⟩ | hnone
  · obtain ⟨n, rfl⟩ := hkind
    exact ⟨some n, text, more, rfl, htaken.spelled, fun _ _ _ => matches_suffix_some htaken⟩
  · refine ⟨none, [], rest, rfl, rfl, ?_⟩
    intro before c hc
    rw [← hc]
    exact hnone before c

/-- Parts of the kinds of an action are the parts of an action. -/
theorem RawAction.exists_stem {qs : List Part} (a : RawAction) (h : List.Forall₂ SameKind a.stem qs) :
    ∃ a' : RawAction, a'.stem = qs := by
  obtain _ | ⟨⟨hitterSort, rfl⟩, _ | ⟨rfl, _ | ⟨⟨hitter, rfl⟩, _ | ⟨rfl, _ | ⟨rfl, _ | ⟨rfl,
    _ | ⟨⟨targetSort, rfl⟩, _ | ⟨rfl, _ | ⟨⟨target, rfl⟩, _ | ⟨rfl, _ | ⟨⟨bounce, rfl⟩, ⟨⟩⟩⟩⟩⟩⟩⟩⟩⟩⟩⟩⟩ := h
  exact ⟨⟨hitterSort, hitter, targetSort, target, bounce, none, none⟩, rfl⟩

theorem reads_action : Form.action.Reads before rest := by
  by_cases h : ∃ (a : RawAction) (text more : List Char), rest = text ++ more ∧
      TakenInOrder a.stem text more
  · obtain ⟨a, stem, more, rfl, hstem⟩ := h
    obtain ⟨r, rate, more, rfl, hrate, hmatchRate⟩ := read_actionRate more
    obtain ⟨n, stochasticity, more, rfl, hn, hmatchStochasticity⟩ := read_actionStochasticity more
    let s : Statement := .action { a with rate := r, stochasticity := n } (1 + before.count '\n')
    refine .inl ⟨s, stem ++ rate ++ stochasticity, more, rfl, rfl, by simp, ?_,
      takes_of_matches (s := s) fun c => ?_⟩
    · apply spelledInOrder_append.2
      refine ⟨stem ++ rate, stochasticity, rfl, spelledInOrder_append.2 ⟨stem, rate, rfl, ?_, hrate⟩, hn⟩
      exact hstem.spelled
    · exact matches_action rfl hstem hmatchRate hmatchStochasticity
  · refine .inr fun c => ?_
    have hbegin := matches_begin before rest c
    rcases read_sequence (RawAction.stem ⟨"", "", "", "", "", none, none⟩) hbegin with
      ⟨qs, stem, more, rfl, hkinds, hstem⟩ | ⟨e, he, hmiss⟩
    · obtain ⟨a, rfl⟩ := RawAction.exists_stem _ hkinds
      exact absurd ⟨a, stem, more, rfl, hstem⟩ h
    · refine ⟨e, (begun_adds c _).trans he, misses_marked _ ?_⟩
      exact misses_seq_first (misses_seq_first hmiss)

/-- **Nothing but statements is read.** -/
theorem Form.reads (f : Form) (before rest : List Char) : f.Reads before rest := by
  cases f with
  | defaultRate =>
    apply reads_of_parts (Statement.defaultRate .infinite 0).parts rfl
    intro qs line hkinds
    obtain _ | ⟨rfl, _ | ⟨rfl, _ | ⟨rfl, _ | ⟨rfl, _ | ⟨⟨r, rfl⟩, ⟨⟩⟩⟩⟩⟩⟩ := hkinds
    exact ⟨.defaultRate r line, rfl, rfl, rfl⟩
  | absorption =>
    apply reads_of_parts (Statement.absorption "" 0).parts rfl
    intro qs line hkinds
    obtain _ | ⟨rfl, _ | ⟨rfl, _ | ⟨rfl, _ | ⟨rfl, _ | ⟨⟨value, rfl⟩, ⟨⟩⟩⟩⟩⟩⟩ := hkinds
    exact ⟨.absorption value line, rfl, rfl, rfl⟩
  | process =>
    apply reads_of_parts (Statement.process "" "" 0).parts rfl
    intro qs line hkinds
    obtain _ | ⟨rfl, _ | ⟨rfl, _ | ⟨⟨sort, rfl⟩, _ | ⟨rfl, _ | ⟨⟨max, rfl⟩, ⟨⟩⟩⟩⟩⟩⟩ := hkinds
    exact ⟨.process sort max line, rfl, rfl, rfl⟩
  | action => exact reads_action

/-! ## Any statement -/

/-- The word that a statement begins with. -/
def Statement.firstWord : Statement → String
  | defaultRate _ _ => "directive"
  | absorption _ _ => "directive"
  | process _ _ _ => "process"
  | action a _ => a.hitterSort

/-- A word at the beginning of a text, as a whole. -/
def Leads (word : String) (text : List Char) : Prop :=
  ∃ more, text = word.toList ++ more ∧ (∀ x ∈ word.toList, isNameChar x = true) ∧
    Stops isNameChar more

theorem Leads.unique {word other : String} (h : Leads word text) (h' : Leads other text) :
    word = other := by
  obtain ⟨more, rfl, hword, hmore⟩ := h
  obtain ⟨more', hcut, hother, hmore'⟩ := h'
  exact String.toList_inj.1 (run_unique hword hmore hother hmore' hcut).1

theorem leads_of_keyword (word : String) {ps : List Part} (hword : word.toList.all isNameChar = true)
    (h : SpelledInOrder (.keyword word :: ps) text rest) : Leads word (text ++ rest) := by
  obtain ⟨first, more, rfl, ⟨rfl, hmore⟩, -⟩ := h
  exact ⟨more ++ rest, by simp, List.all_eq_true.1 hword, hmore⟩

theorem Statement.Spelled.leads {s : Statement} (h : s.Spelled text rest) :
    Leads s.firstWord (text ++ rest) := by
  cases s with
  | defaultRate r line => exact leads_of_keyword "directive" (by decide) h
  | absorption value line => exact leads_of_keyword "directive" (by decide) h
  | process sort max line => exact leads_of_keyword "process" (by decide) h
  | action a line =>
    obtain ⟨first, more, rfl, ⟨rfl, hname, hmore⟩, -⟩ := h
    exact ⟨more ++ rest, List.append_assoc _ _ _, hname.chars, hmore⟩

theorem directive_ne_process : "directive" ≠ "process" := by decide

/-- No action begins with a word of another form. -/
theorem firstWord_ne {a : RawAction} {line : Nat} (h : (Statement.action a line).Spelled text rest) :
    a.hitterSort ≠ "directive" ∧ a.hitterSort ≠ "process" := by
  obtain ⟨first, more, rfl, ⟨rfl, hname, -⟩, -⟩ := h
  obtain ⟨hdirective, hprocess, -⟩ := hname.free
  exact ⟨fun h => hdirective (h ▸ rfl), fun h => hprocess (h ▸ rfl)⟩

/-- The second word of a directive stands behind the first gap. -/
theorem leads_second {word : String} {ps : List Part} (hsolid : (Part.keyword word).isSolid = true)
    (hword : word.toList.all isNameChar = true)
    (h : SpelledInOrder (.keyword "directive" :: .gap :: .keyword word :: ps) text rest) :
    ∃ gap more, text ++ rest = "directive".toList ++ (gap ++ more) ∧ Gap gap ∧ Solid more ∧
      Leads word more := by
  obtain ⟨first, _, rfl, ⟨rfl, -⟩, gap, _, rfl, hgap, hmore⟩ := h
  have hlead := leads_of_keyword word hword hmore
  obtain ⟨second, more, rfl, hsecond, -⟩ := hmore
  refine ⟨gap, second ++ more ++ rest, by simp, hgap, ?_, hlead⟩
  rw [List.append_assoc]
  exact hsecond.solid hsolid

/-- The two directives are told apart by their second word. -/
theorem directives_apart {r : RawRate} {value : String} {line line' : Nat} {text' rest' : List Char}
    (h : (Statement.defaultRate r line).Spelled text rest)
    (h' : (Statement.absorption value line').Spelled text' rest') : text ++ rest ≠ text' ++ rest' := by
  intro hcut
  obtain ⟨gap, more, htext, hgap, hsolid, hword⟩ := leads_second (by decide) (by decide) h
  obtain ⟨gap', more', htext', hgap', hsolid', hword'⟩ := leads_second (by decide) (by decide) h'
  rw [htext, htext'] at hcut
  -- The gaps before the second words end at the same place.
  obtain ⟨-, rfl⟩ := Gap.unique hgap hsolid hgap' hsolid' (List.append_cancel_left hcut)
  exact absurd (hword.unique hword') (by decide)

/-- **At one place only statements of one form are spelled.** -/
theorem Statement.Spelled.form_eq {s s' : Statement} {text' rest' : List Char}
    (h : s.Spelled text rest) (h' : s'.Spelled text' rest') (hcut : text ++ rest = text' ++ rest') :
    s.form = s'.form := by
  have hlead' := h'.leads
  rw [← hcut] at hlead'
  have hword : s.firstWord = s'.firstWord := h.leads.unique hlead'
  cases s with
  | defaultRate r line =>
    cases s' with
    | defaultRate _ _ => rfl
    | absorption _ _ => exact absurd hcut (directives_apart h h')
    | process _ _ _ => exact absurd hword directive_ne_process
    | action _ _ => exact absurd hword.symm (firstWord_ne h').1
  | absorption value line =>
    cases s' with
    | defaultRate _ _ => exact absurd hcut.symm (directives_apart h' h)
    | absorption _ _ => rfl
    | process _ _ _ => exact absurd hword directive_ne_process
    | action _ _ => exact absurd hword.symm (firstWord_ne h').1
  | process sort max line =>
    cases s' with
    | defaultRate _ _ => exact absurd hword.symm directive_ne_process
    | absorption _ _ => exact absurd hword.symm directive_ne_process
    | process _ _ _ => rfl
    | action _ _ => exact absurd hword.symm (firstWord_ne h').2
  | action a line =>
    cases s' with
    | defaultRate _ _ => exact absurd hword (firstWord_ne h).1
    | absorption _ _ => exact absurd hword (firstWord_ne h).1
    | process _ _ _ => exact absurd hword (firstWord_ne h).2
    | action _ _ => rfl

/-- Where a statement stands, the rules of the other forms fail. -/
theorem Statement.Spelled.fails {s : Statement} {f : Form} (h : s.Spelled text rest)
    (hne : f ≠ s.form) (before : List Char) : Fails f.rule before (text ++ rest) := by
  rcases f.reads before (text ++ rest) with ⟨s', text', rest', rfl, -, hcut, h', -⟩ | hfails
  · exact absurd (h'.form_eq h hcut.symm) hne
  · exact hfails

/-! ## The order of the forms -/

/-- The forms in the order in which the grammar tries them. -/
def Form.all : List Form := [.defaultRate, .absorption, .process, .action]

/-- The first of several forms that matches. -/
def tried : List Form → MarkedRule
  | [] => .constant false
  | f :: order => order.foldl (fun a g => .choice a g.rule) f.rule

theorem statement_eq_tried : statement = tried Form.all := rfl

theorem Form.mem_all (f : Form) : f ∈ Form.all := by cases f <;> decide

theorem fails_tried (order : List Form) (h : ∀ f : Form, Fails f.rule before rest) :
    Fails (tried order) before rest := by
  cases order with
  | nil => exact fun c => ⟨c, .refl c, misses_terminal (t := Terminal.constant false) rfl fun _ => rfl⟩
  | cons f order =>
    suffices hall : ∀ a, Fails a before rest →
        Fails (order.foldl (fun a g => .choice a g.rule) a) before rest from hall _ (h f)
    induction order with
    | nil => exact fun a ha => ha
    | cons g order ih => exact fun a ha => ih _ (fails_choice ha (h g))

theorem takes_foldl {s : Statement} {a : MarkedRule} (order : List Form)
    (ha : Takes a before text rest s) :
    Takes (order.foldl (fun a g => .choice a g.rule) a) before text rest s := by
  induction order generalizing a with
  | nil => exact ha
  | cons g order ih => exact ih (takes_choice_first ha)

/-- A statement is taken in every order that has its form. -/
theorem takes_tried {s : Statement} {order : List Form} (hmem : s.form ∈ order)
    (hspelled : s.Spelled text rest) (htakes : Takes s.form.rule before text rest s) :
    Takes (tried order) before text rest s := by
  cases order with
  | nil => cases hmem
  | cons f order =>
    by_cases hf : s.form = f
    · subst hf
      exact takes_foldl order htakes
    · replace hmem : s.form ∈ order := (List.mem_cons.1 hmem).resolve_left hf
      -- Up to the right form all fail, and the ones behind it are not tried.
      suffices hall : ∀ a, Fails a before (text ++ rest) →
          Takes (order.foldl (fun a g => .choice a g.rule) a) before text rest s from
        hall _ (hspelled.fails (Ne.symm hf) before)
      induction order with
      | nil => cases hmem
      | cons g order ih =>
        intro a ha
        by_cases hg : s.form = g
        · subst hg
          exact takes_foldl order (takes_choice_second ha htakes)
        · exact ih ((List.mem_cons.1 hmem).resolve_left hg) _
            (fails_choice ha (hspelled.fails (Ne.symm hg) before))

/-- At each place a statement stands and is taken in every order, or all forms fail. -/
theorem read_place (before rest : List Char) :
    (∃ s text more, s.line = 1 + before.count '\n' ∧ rest = text ++ more ∧ s.Spelled text more ∧
      Takes s.form.rule before text more s) ∨
    ∀ f : Form, Fails f.rule before rest := by
  by_cases h : ∃ f : Form, ¬ Fails f.rule before rest
  · obtain ⟨f, hf⟩ := h
    obtain ⟨s, text, more, rfl, hline, rfl, hs, htakes⟩ := (f.reads before rest).resolve_right hf
    exact .inl ⟨s, text, more, hline, rfl, hs, htakes⟩
  · exact .inr fun f => Classical.not_not.1 fun hf => h ⟨f, hf⟩

end Pegwork.Hitting
