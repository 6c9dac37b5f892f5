import Pegwork.Proofs.Hitting.Statements

/-!
# Reading model files

A model file is read to its end exactly if it can be cut into gaps and statements, and the statements
that come out are the ones that are spelled (`readStatements_exact`). Whatever else the text is, it is
read as far as statements go (`read_model`), and what comes next is reported (`readWith_of_matches`).
The order in which the forms of statements are tried is left open where it does not matter.
-/

namespace Pegwork.Hitting

open Grammar TextCursor Run

variable {before text rest : List Char} {c d : Captures}

/-! ## Statements in a row -/

theorem Statement.Spelled.head {s : Statement} (h : s.Spelled text rest) :
    ∃ x more, text = x :: more ∧ isNameStart x = true := by
  cases s with
  | defaultRate r line | absorption value line | process sort max line =>
    obtain ⟨_, more, rfl, ⟨rfl, -⟩, -⟩ := h
    exact ⟨_, _, rfl, by decide⟩
  | action a line =>
    obtain ⟨_, more, rfl, ⟨-, hname, -⟩, -⟩ := h
    obtain ⟨x, tail, rfl, hx⟩ := hname.start
    exact ⟨x, _, rfl, hx⟩

theorem Cut.head {ss : List Statement} (h : Cut before text ss) {x : Char} {tail : List Char}
    (hcons : text = x :: tail) : isNameStart x = true := by
  cases h with
  | nil => cases hcons
  | cons _ hs _ _ =>
    obtain ⟨y, more, rfl, hy⟩ := hs.head
    obtain ⟨rfl, -⟩ := List.cons.inj hcons
    exact hy

theorem Cut.solid {ss : List Statement} (h : Cut before text ss) : Solid text := by
  cases text with
  | nil => exact solid_nil
  | cons x tail => exact Part.solid_of_isNameStart (h.head rfl)

theorem misses_item_nil (before : List Char) (c : Captures) :
    ∃ d, c.Adds d [] ∧ Misses (.seq statement Grammar.gap) before [] c d := by
  rcases read_place before [] with ⟨s, text, more, -, hcut, hs, -⟩ | hfails
  · obtain ⟨x, tail, rfl, -⟩ := hs.head
    cases hcut
  · obtain ⟨d, hd, hmiss⟩ := fails_tried Form.all hfails c
    exact ⟨d, hd, misses_seq_first hmiss⟩

theorem matches_statement {s : Statement} (hline : s.line = 1 + before.count '\n')
    (h : s.Spelled text rest) (htail : Tail rest) : Takes statement before text rest s :=
  takes_tried s.form.mem_all h (takes_of_matches fun _ => Statement.matches_rule hline h htail)

theorem Cut.iterates {ss : List Statement} (h : Cut before text ss) :
    ∃ d, c.Adds d ss ∧ Iterates (.seq statement Grammar.gap) before text [] c d := by
  induction h generalizing c with
  | nil before =>
    obtain ⟨d, hd, hmiss⟩ := misses_item_nil before c
    exact ⟨d, hd, .stop hmiss⟩
  | @cons before text gap rest s ss hline hs hgap hrest ih =>
    -- Behind the gap the text ends, or the next statement starts with its first word.
    have htail : Tail (gap ++ rest) := ⟨gap, rest, rfl, hgap, fun _ _ => hrest.head⟩
    obtain ⟨d, hd, hmatch⟩ := matches_statement hline hs htail c
    obtain ⟨e, he, hmore⟩ := ih (c := d)
    refine ⟨e, hd.trans he, .pass ?_ (d := d) ?_ ?_⟩
    · obtain ⟨x, more, rfl, -⟩ := hs.head
      simp
    · rw [List.append_nil]
      exact matches_seq hmatch (matches_gap hgap hrest.solid)
    · rwa [← List.append_assoc]

/-- What a part needs to know about the text behind it is kept when that text is cut short. -/
theorem Part.Spelled.of_append {p : Part} {left : List Char} (h : p.Spelled text (rest ++ left)) :
    p.Spelled text rest := by
  cases p with
  | keyword word => exact ⟨h.1, h.2.of_append⟩
  | arrow | sign x | gap => exact h
  | name n | number n | stochasticity n => exact ⟨h.1, h.2.1, h.2.2.of_append⟩
  | rate r =>
    cases r with
    | infinite => exact ⟨h.1, h.2.of_append⟩
    | finite n => exact ⟨h.1, h.2.1, h.2.2.of_append⟩

theorem SpelledInOrder.of_append {ps : List Part} {left : List Char}
    (h : SpelledInOrder ps text (rest ++ left)) : SpelledInOrder ps text rest := by
  induction ps generalizing text with
  | nil => exact h
  | cons p ps ih =>
    obtain ⟨first, more, rfl, hp, hps⟩ := h
    refine ⟨first, more, rfl, ?_, ih hps⟩
    rw [← List.append_assoc] at hp
    exact hp.of_append

/-- However a text goes on, a row of statements is read from it, in whatever order the forms are
tried, and it ends where all forms fail. -/
theorem read_statements (before rest : List Char) (hsolid : Solid rest) :
    ∃ text left ss, rest = text ++ left ∧ Cut before text ss ∧ Solid left ∧
      (∀ f : Form, Fails f.rule (before ++ text) left) ∧
      ∀ order, (∀ f : Form, f ∈ order) → ∀ c : Captures, ∃ d, c.Adds d ss ∧
        Iterates (.seq (tried order) Grammar.gap) before text left c d := by
  -- By induction on the length, since each pass consumes at least the first word of a statement.
  induction hlength : rest.length using Nat.strongRecOn generalizing before rest with
  | _ n ih =>
    subst hlength
    rcases read_place before rest with ⟨s, text, more, hline, rfl, hs, htakes⟩ | hfails
    -- The gap behind the statement is taken as far as it goes.
    · obtain ⟨gap, more, rfl, hgap, hmore⟩ := Gap.exists_cut more
      obtain ⟨x, tail, htext, -⟩ := hs.head
      have hshort : more.length < (text ++ (gap ++ more)).length := by
        simp [htext]
        omega
      obtain ⟨text', left, ss, rfl, hcut, hleft, hfails, hall⟩ :=
        ih _ hshort (before ++ text ++ gap) more hmore rfl
      refine ⟨text ++ gap ++ text', left, s :: ss, by simp, .cons hline ?_ hgap hcut, hleft, ?_, ?_⟩
      · rw [← List.append_assoc] at hs
        exact SpelledInOrder.of_append hs
      · simpa using hfails
      · intro order horder c
        obtain ⟨d, hd, hmatch⟩ := takes_tried (horder s.form) hs htakes c
        obtain ⟨e, he, hpasses⟩ := hall order horder d
        refine ⟨e, hd.trans he, .pass (by simp [htext]) (matches_seq hmatch (matches_gap hgap hmore)) ?_⟩
        rwa [← List.append_assoc]
    · refine ⟨[], rest, [], rfl, .nil before, hsolid, by simpa using hfails, ?_⟩
      intro order _ c
      obtain ⟨d, hd, hmiss⟩ := fails_tried order hfails c
      exact ⟨d, hd, .stop (misses_seq_first hmiss)⟩

/-! ## Files -/

theorem File.matches_model {ss : List Statement} (h : File text ss) :
    ∃ d, c.Adds d ss ∧ Matches model [] text [] c d := by
  obtain ⟨gap, rest, rfl, hgap, hcut⟩ := h
  obtain ⟨d, hd, hmore⟩ := hcut.iterates (c := c)
  refine ⟨d, hd, matches_seq (matches_gap hgap ?_) (matches_star hmore)⟩
  rw [List.append_nil]
  exact hcut.solid

/-- The grammar of models with the forms of statements in the given order. -/
def modelTrying (order : List Form) : MarkedRule :=
  .seq Grammar.gap (Rule.star (.seq (tried order) Grammar.gap))

theorem model_eq_modelTrying : model = modelTrying Form.all := rfl

/-- Every text begins with a model file, which is all that the grammar consumes. -/
theorem read_model (text : List Char) :
    ∃ consumed left ss, text = consumed ++ left ∧ File consumed ss ∧ Solid left ∧
      (∀ f : Form, Fails f.rule consumed left) ∧
      ∀ order, (∀ f : Form, f ∈ order) → ∀ c : Captures, ∃ d, c.Adds d ss ∧
        Matches (modelTrying order) [] consumed left c d := by
  obtain ⟨gap, rest, rfl, hgap, hsolid⟩ := Gap.exists_cut text
  obtain ⟨consumed, left, ss, rfl, hcut, hleft, hfails, hall⟩ := read_statements gap rest hsolid
  refine ⟨gap ++ consumed, left, ss, by simp, ⟨gap, consumed, rfl, hgap, hcut⟩, hleft, hfails, ?_⟩
  intro order horder c
  obtain ⟨d, hd, hpasses⟩ := hall order horder c
  exact ⟨d, hd, matches_seq (matches_gap hgap hsolid) (matches_star hpasses)⟩

/-- What reading a text by a rule gives: the statements, or why there are none, and the complaints. -/
def readWith (rule : MarkedRule) (text : String) :
    Except Halt (Except ParseError (List Statement) × List LogRecord) := do
  let stop ← ending 0 text.toList
  let (outcome, store) := (Recognizer.whole (meaning rule) (beginning 0 text.toList) stop).outcome {}
  let result ← outcome
  return (result.map fun _ => (captured store).statements, (captured store).logs)

theorem readStatements_eq (text : String) : readStatements text = readWith model text := rfl

theorem readWith_of_ends {rule : MarkedRule} {text : String} {r : Except ParseError TextCursor}
    {t : Store TextCursor Mark} (hfits : Fits text.toList)
    (h : (Recognizer.whole (meaning rule) (beginning 0 text.toList) (behind 0 text.toList [])).Ends {}
      r t) :
    readWith rule text = .ok (r.map fun _ => (captured t).statements, (captured t).logs) := by
  unfold Ends at h
  simp only [readWith, ending_eq 0 hfits, bind, Except.bind, h]
  rfl

/-- A rule that consumes all of a text has read it, and else what is left is reported. -/
theorem whole_ends {rule : MarkedRule} {consumed left : List Char} (hfits : Fits (consumed ++ left))
    (h : Matches rule [] consumed left {} d) :
    ∃ t, captured t = d ∧
      (Recognizer.whole (meaning rule) (beginning 0 (consumed ++ left))
        (behind 0 (consumed ++ left) [])).Ends {}
        (if left = [] then .ok (behind 0 (consumed ++ left) [])
          else .error (.trailingInput (Position.behind consumed))) t := by
  -- The run starts with an empty trail, that is, with empty captures.
  obtain ⟨t, ht, hrun⟩ := h hfits {} rfl
  refine ⟨t, ht, ends_bind.2 ⟨_, t, hrun, ?_⟩⟩
  by_cases hleft : left = []
  · subst hleft
    -- Everything is consumed, so the rule has come to the end.
    have hend : Walk.same (behind 0 consumed []) (behind 0 (consumed ++ []) []) = true :=
      (same_behind_iff (by simp)).2 ⟨by simp, rfl⟩
    simp only [Match.success_matched, Match.success_position, List.nil_append, hend, if_pos,
      Bool.not_true, Bool.false_eq_true, if_false]
    exact ends_pure.2 ⟨rfl, rfl⟩
  · have hopen : Walk.same (behind 0 consumed left) (behind 0 (consumed ++ left) []) = false := by
      apply Bool.eq_false_iff.2
      intro hsame
      exact hleft ((same_behind_iff (by simp)).1 hsame).2
    simp only [Match.success_matched, Match.success_position, List.nil_append, hopen, hleft,
      Bool.not_true, Bool.not_false, Bool.false_eq_true, if_false, if_true]
    exact ends_bind.2 ⟨_, t, ends_lift.2 ⟨rfl, rfl⟩, ends_pure.2 ⟨rfl, rfl⟩⟩

/-- What comes out when a rule consumes a part of a text. -/
theorem readWith_of_matches {rule : MarkedRule} {text : String} {consumed left : List Char}
    (hfits : Fits text.toList) (hcut : text.toList = consumed ++ left)
    (h : Matches rule [] consumed left {} d) :
    readWith rule text =
      .ok (if left = [] then .ok d.statements
        else .error (.trailingInput (Position.behind consumed)), d.logs) := by
  obtain ⟨t, ht, hwhole⟩ := whole_ends (hcut ▸ hfits) h
  rw [← hcut] at hwhole
  rw [readWith_of_ends hfits hwhole, ht]
  by_cases hleft : left = []
  · simp only [hleft, if_true]
    rfl
  · simp only [hleft, if_false]
    rfl

theorem File.readStatements {text : String} {ss : List Statement} (h : File text.toList ss)
    (hfits : Fits text.toList) : readStatements text = .ok (.ok ss, []) := by
  obtain ⟨d, ⟨hstatements, hlogs⟩, hmatch⟩ := h.matches_model (c := {})
  rw [readStatements_eq, readWith_of_matches hfits (List.append_nil _).symm hmatch, if_pos rfl,
    hstatements, hlogs]
  rfl

theorem readStatements_total {text : String} (hfits : Fits text.toList) :
    ∃ result, readStatements text = .ok (result, []) ∧ ∀ ss, result = .ok ss → File text.toList ss := by
  obtain ⟨consumed, left, ss, hcut, hfile, -, -, hall⟩ := read_model text.toList
  obtain ⟨d, ⟨hstatements, hlogs⟩, hmatch⟩ := hall Form.all Form.mem_all {}
  refine ⟨_, (readWith_of_matches hfits hcut hmatch).trans (by rw [hlogs]), ?_⟩
  intro ss' hresult
  split at hresult
  next hleft =>
    subst hleft
    -- The statements that come out are the ones that were finished on the way.
    have hss : ss' = ss := by
      rw [hstatements] at hresult
      exact (Except.ok.inj hresult).symm
    rw [hcut, List.append_nil, hss]
    exact hfile
  next => cases hresult

/-- **Model files are read exactly.** Reading a text always ends and makes no complaints. It gives
statements exactly if the text can be cut into gaps and statements, and then these statements. -/
theorem readStatements_exact (text : String) (hsize : text.utf8ByteSize < 2 ^ 63) :
    ∃ result, readStatements text = .ok (result, []) ∧
      ∀ ss, result = .ok ss ↔ File text.toList ss := by
  have hfits : Fits text.toList := fits_toList hsize
  obtain ⟨result, hread, hfile⟩ := readStatements_total hfits
  refine ⟨result, hread, ?_⟩
  intro ss
  constructor
  · exact hfile ss
  · intro h
    rw [h.readStatements hfits] at hread
    cases hread
    rfl

/-- A comment before a sort, and the line of the sort. -/
theorem readStatements_exact_commented :
    ∃ result, readStatements "(**)\nprocess a 1" = .ok (result, []) ∧
      result = .ok [.process "a" "1" 2] := by
  obtain ⟨result, hread, hiff⟩ := readStatements_exact "(**)\nprocess a 1" (by decide)
  refine ⟨result, hread, (hiff _).2 ?_⟩
  refine ⟨"(**)\n".toList, "process a 1".toList, rfl, ?_, ?_⟩
  · have hempty : ¬ ['*', ')'] <:+: [] := by simp
    exact .comment hempty (.blank (by decide) .nil)
  · have hline : (Statement.process "a" "1" 2).line = 1 + "(**)\n".toList.count '\n' := rfl
    suffices h : (Statement.process "a" "1" 2).Spelled "process a 1".toList ([] ++ []) from
      .cons hline h .nil (.nil _)
    refine ⟨"process".toList, " a 1".toList, rfl, ⟨rfl, by decide⟩, ?_⟩
    refine ⟨[' '], "a 1".toList, rfl, .blank (by decide) .nil, ?_⟩
    refine ⟨['a'], " 1".toList, rfl, ⟨rfl, ?_, by decide⟩, ?_⟩
    · exact ⟨⟨'a', [], rfl, by decide⟩, List.all_eq_true.1 (by decide), by decide⟩
    · refine ⟨[' '], ['1'], rfl, .blank (by decide) .nil, ['1'], [], rfl, ⟨rfl, ?_, ?_⟩, rfl⟩
      · exact ⟨by decide, List.all_eq_true.1 (by decide)⟩
      · exact stops_nil _

end Pegwork.Hitting
