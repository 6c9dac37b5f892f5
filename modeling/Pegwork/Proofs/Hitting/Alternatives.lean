import Pegwork.Proofs.Hitting.Files

/-!
# The alternatives of a statement

The forms of a statement exclude each other, so the grammar could try them in any order
(`alternatives_exclude`). A form is told from the others by its first word, and the two directives by
their second. What makes this work is that words are read as a whole: a name may start with a reserved
word, as `processor` does, but it is then a name and nothing else, while the word alone is none.
-/

namespace Pegwork.Hitting

open Grammar TextCursor Run

variable {before text more rest : List Char}

/-! ## One place -/

/-- The form matches between two cursors, at least from some state of the trail. -/
def Form.MatchesAt (f : Form) (i j : TextCursor) : Prop :=
  ∃ s m t, (meaning f.rule i j).Ends s m t ∧ m.matched = true

/-- From every state of the trail two rules end with the same outcome, and finish the same statements:
one if they match, and none if they fail. -/
def SameStatement (a b : MarkedRule) (i j : TextCursor) : Prop :=
  ∀ s, ∃ m t u ss, (meaning a i j).Ends s m t ∧ (meaning b i j).Ends s m u ∧
    (captured s).Adds (captured t) ss ∧ (captured s).Adds (captured u) ss ∧
    ss.length = if m.matched then 1 else 0

/-- A form matches only where a statement of the form stands. -/
theorem Form.MatchesAt.spelled {f : Form} (hfits : Fits (before ++ rest))
    (h : f.MatchesAt (behind 0 before rest) (behind 0 (before ++ rest) [])) :
    ∃ (s : Statement) (text more : List Char), s.form = f ∧ rest = text ++ more ∧
      s.Spelled text more := by
  rcases f.reads before rest with ⟨s, text, more, hform, -, rfl, hspelled, -⟩ | hfails
  · exact ⟨s, text, more, hform, rfl, hspelled⟩
  · obtain ⟨s, m, t, hends, hmatched⟩ := h
    obtain ⟨_, -, hmiss⟩ := hfails (captured s)
    obtain ⟨u, -, hfailure⟩ := hmiss hfits s rfl
    obtain ⟨rfl, -⟩ := hends.unique hfailure
    cases hmatched

theorem Form.MatchesAt.unique {f g : Form} (hfits : Fits (before ++ rest))
    (hf : f.MatchesAt (behind 0 before rest) (behind 0 (before ++ rest) []))
    (hg : g.MatchesAt (behind 0 before rest) (behind 0 (before ++ rest) [])) : f = g := by
  obtain ⟨s, text, more, rfl, hcut, hs⟩ := hf.spelled hfits
  obtain ⟨s', text', more', rfl, hcut', hs'⟩ := hg.spelled hfits
  exact hs.form_eq hs' (hcut.symm.trans hcut')

theorem sameStatement_of_takes {a b : MarkedRule} {s : Statement}
    (hfits : Fits (before ++ (text ++ rest))) (ha : Takes a before text rest s)
    (hb : Takes b before text rest s) :
    SameStatement a b (behind 0 before (text ++ rest)) (behind 0 (before ++ (text ++ rest)) []) := by
  intro state
  obtain ⟨d, hd, hmatch⟩ := ha (captured state)
  obtain ⟨e, he, hmatch'⟩ := hb (captured state)
  obtain ⟨t, rfl, hends⟩ := hmatch hfits state rfl
  obtain ⟨u, rfl, hends'⟩ := hmatch' hfits state rfl
  exact ⟨_, t, u, [s], hends, hends', hd, he, rfl⟩

theorem sameStatement_of_fails {a b : MarkedRule} (hfits : Fits (before ++ rest))
    (ha : Fails a before rest) (hb : Fails b before rest) :
    SameStatement a b (behind 0 before rest) (behind 0 (before ++ rest) []) := by
  intro state
  obtain ⟨d, hd, hmiss⟩ := ha (captured state)
  obtain ⟨e, he, hmiss'⟩ := hb (captured state)
  obtain ⟨t, rfl, hends⟩ := hmiss hfits state rfl
  obtain ⟨u, rfl, hends'⟩ := hmiss' hfits state rfl
  exact ⟨_, t, u, [], hends, hends', hd, he, rfl⟩

/-- Two orders that have all forms do the same at every place. -/
theorem sameStatement_tried {order other : List Form} (hfits : Fits (before ++ rest))
    (horder : ∀ f : Form, f ∈ order) (hother : ∀ f : Form, f ∈ other) :
    SameStatement (tried order) (tried other) (behind 0 before rest)
      (behind 0 (before ++ rest) []) := by
  rcases read_place before rest with ⟨s, text, more, -, rfl, hspelled, htakes⟩ | hfails
  · exact sameStatement_of_takes hfits (takes_tried (horder s.form) hspelled htakes)
      (takes_tried (hother s.form) hspelled htakes)
  · exact sameStatement_of_fails hfits (fails_tried order hfails) (fails_tried other hfails)

/-- And so they read the same statements from every text. -/
theorem readWith_modelTrying {order other : List Form} {text : String} (hfits : Fits text.toList)
    (horder : ∀ f : Form, f ∈ order) (hother : ∀ f : Form, f ∈ other) :
    readWith (modelTrying order) text = readWith (modelTrying other) text := by
  obtain ⟨consumed, left, ss, hcut, -, -, -, hall⟩ := read_model text.toList
  obtain ⟨d, ⟨hstatements, hlogs⟩, hmatch⟩ := hall order horder {}
  obtain ⟨e, ⟨hstatements', hlogs'⟩, hmatch'⟩ := hall other hother {}
  rw [readWith_of_matches hfits hcut hmatch, readWith_of_matches hfits hcut hmatch', hstatements,
    hstatements', hlogs, hlogs']

/-! ## Reserved words -/

/-- A reserved word that goes on is not reserved any more. -/
theorem IsReserved.not_append {word suffix : List Char} (hword : IsReserved word)
    (hsuffix : suffix ≠ []) : ¬ IsReserved (word ++ suffix) := by
  rcases hword with rfl | rfl | rfl <;> simp [IsReserved, hsuffix]

theorem isName_append {word suffix : List Char} (hword : IsReserved word) (hsuffix : suffix ≠ [])
    (hchars : ∀ x ∈ suffix, isNameChar x = true) : IsName (word ++ suffix) := by
  obtain ⟨⟨x, tail, rfl, hx⟩, hall⟩ := hword.chars
  refine ⟨⟨x, tail ++ suffix, rfl, hx⟩, ?_, not_isReserved_iff.1 (hword.not_append hsuffix)⟩
  intro y hy
  rcases List.mem_append.1 hy with hy | hy
  · exact hall y hy
  · exact hchars y hy

/-- Only an action begins with a name. -/
theorem form_eq_action {s : Statement} {n : String} (h : s.Spelled text more) (hname : IsName n.toList)
    (hlead : Leads n (text ++ more)) : s.form = .action := by
  have hword : s.firstWord = n := h.leads.unique hlead
  obtain ⟨hdirective, hprocess, -⟩ := hname.free
  cases s with
  | defaultRate r line => exact absurd (hword ▸ rfl) hdirective
  | absorption value line => exact absurd (hword ▸ rfl) hdirective
  | process sort max line => exact absurd (hword ▸ rfl) hprocess
  | action a line => rfl

/-- The word is read as a name, up to its end, and nothing but an action begins with it. -/
structure ReadAsName (before word more : List Char) (i j : TextCursor) : Prop where
  name : ∀ s, ∃ t, captured t =
      { captured s with names := (captured s).names ++ [String.ofList word] } ∧
    (meaning Grammar.name i j).Ends s (.success i (behind 0 (before ++ word) more)) t
  action : ∀ f : Form, f.MatchesAt i j → f = .action

/-- No name stands here, and no action. -/
structure NoName (i j : TextCursor) : Prop where
  name : ∀ s, ∃ t, captured t = captured s ∧ (meaning Grammar.name i j).Ends s (.failure i) t
  action : ¬ Form.action.MatchesAt i j

theorem readAsName {word : List Char} (hname : IsName word) (hmore : Stops isNameChar more)
    (hfits : Fits (before ++ (word ++ more))) :
    ReadAsName before word more (behind 0 before (word ++ more))
      (behind 0 (before ++ (word ++ more)) []) := by
  obtain ⟨n, rfl⟩ : ∃ n : String, word = n.toList := ⟨.ofList word, by simp⟩
  constructor
  · intro s
    rw [String.ofList_toList]
    exact matches_name hname hmore hfits s rfl
  · intro f hf
    obtain ⟨s, text, more', rfl, hcut, hspelled⟩ := hf.spelled hfits
    exact form_eq_action hspelled hname ⟨more, hcut.symm, hname.chars, hmore⟩

theorem noName {word : List Char} (hword : IsReserved word) (hmore : Stops isNameChar more)
    (hfits : Fits (before ++ (word ++ more))) :
    NoName (behind 0 before (word ++ more)) (behind 0 (before ++ (word ++ more)) []) := by
  constructor
  · intro s
    exact misses_name_reserved hword hmore hfits s rfl
  · intro haction
    obtain ⟨s, text, more', hform, hcut, hspelled⟩ := haction.spelled hfits
    cases s with
    | defaultRate _ _ => cases hform
    | absorption _ _ => cases hform
    | process _ _ _ => cases hform
    | action a line =>
      -- An action would begin with a name, and the only word here is the reserved one.
      obtain ⟨first, tail, rfl, ⟨rfl, hname, htail⟩, -⟩ := hspelled
      rw [List.append_assoc] at hcut
      obtain ⟨rfl, -⟩ := run_unique hword.chars.2 hmore hname.chars htail hcut
      exact not_isReserved_iff.2 hname.free hword

/-! ## All texts -/

/-- **The forms exclude each other.** At no place of a text two forms match. In whatever order they are
tried, the outcome is the same at every place, with the same statement finished, and so is what comes
out for the text as a whole. A word that only starts with a reserved word is a name; the reserved word
itself is none. -/
theorem alternatives_exclude (text : String) (hsize : text.utf8ByteSize < 2 ^ 63) :
    (∀ before rest, text.toList = before ++ rest →
      (∀ f g : Form, f.MatchesAt (behind 0 before rest) (behind 0 text.toList []) →
        g.MatchesAt (behind 0 before rest) (behind 0 text.toList []) → f = g) ∧
      (∀ order, order.Perm Form.all →
        SameStatement statement (tried order) (behind 0 before rest) (behind 0 text.toList [])) ∧
      ∀ word suffix more, rest = word ++ suffix ++ more → IsReserved word →
        (∀ x ∈ suffix, isNameChar x = true) → Stops isNameChar more →
        (suffix ≠ [] → ReadAsName before (word ++ suffix) more (behind 0 before rest)
          (behind 0 text.toList [])) ∧
        (suffix = [] → NoName (behind 0 before rest) (behind 0 text.toList []))) ∧
    ∀ order, order.Perm Form.all → readWith (modelTrying order) text = readStatements text := by
  have hfits : Fits text.toList := fits_toList hsize
  have hall : ∀ order : List Form, order.Perm Form.all → ∀ f : Form, f ∈ order :=
    fun order hperm f => hperm.mem_iff.2 f.mem_all
  constructor
  · intro before rest hcut
    rw [hcut] at hfits ⊢
    refine ⟨fun f g hf hg => hf.unique hfits hg, ?_, ?_⟩
    · intro order hperm
      rw [statement_eq_tried]
      exact sameStatement_tried hfits Form.mem_all (hall order hperm)
    · rintro word suffix more rfl hword hchars hmore
      constructor
      · intro hsuffix
        exact readAsName (isName_append hword hsuffix hchars) hmore hfits
      · rintro rfl
        rw [List.append_nil] at hfits ⊢
        exact noName hword hmore hfits
  · intro order hperm
    rw [readStatements_eq, model_eq_modelTrying]
    exact readWith_modelTrying hfits (hall order hperm) Form.mem_all

/-- A sort that is called `processor`, with the forms tried from the last to the first. -/
theorem alternatives_exclude_processor :
    SameStatement statement (tried [.action, .process, .absorption, .defaultRate])
      (behind 0 [] "processor 1 -> b 0 1".toList) (behind 0 "processor 1 -> b 0 1".toList []) ∧
    ReadAsName [] "processor".toList " 1 -> b 0 1".toList
      (behind 0 [] "processor 1 -> b 0 1".toList) (behind 0 "processor 1 -> b 0 1".toList []) ∧
    readWith (modelTrying [.action, .process, .absorption, .defaultRate]) "processor 1 -> b 0 1" =
      readStatements "processor 1 -> b 0 1" := by
  have hperm : List.Perm [.action, .process, .absorption, .defaultRate] Form.all := by decide
  obtain ⟨hplaces, hwhole⟩ := alternatives_exclude "processor 1 -> b 0 1" (by decide)
  obtain ⟨-, horder, hwords⟩ := hplaces [] "processor 1 -> b 0 1".toList rfl
  obtain ⟨hlonger, -⟩ := hwords "process".toList "or".toList " 1 -> b 0 1".toList rfl
    (.inr (.inl rfl)) (List.all_eq_true.1 (by decide)) (by decide)
  exact ⟨horder _ hperm, hlonger (by decide), hwhole _ hperm⟩

end Pegwork.Hitting
