import Pegwork.Hitting.Printer
import Pegwork.Proofs.Hitting.Files
import Pegwork.Proofs.Hitting.Validation

/-!
# Models and their texts

A model that was read from a text is read again from its own text (`Model.parse_text_again`).

The two halves of the argument meet at `Model.Legal`. A model that was read is legal, because the names
in a model file are names and everything else was checked. And the text of a legal model is a model
file: every line of it spells one statement, or nothing, and no part runs into the next one.
-/

namespace Pegwork.Hitting

open Grammar Pegwork.Number TextCursor

/-! ## Names in model files -/

theorem Cut.named {before text : List Char} {ss : List Statement} (h : Cut before text ss) :
    ∀ s ∈ ss, Model.Named s := by
  induction h with
  | nil before => simp
  | @cons before text gap rest s ss _ hs _ _ ih =>
    intro t ht
    rcases List.mem_cons.1 ht with rfl | ht
    · rintro name max line rfl
      -- The name is the third part of the declaration.
      obtain ⟨_, _, -, -, _, _, -, -, _, _, -, ⟨rfl, hname, -⟩, -⟩ := hs
      exact hname
    · exact ih t ht

theorem File.named {text : List Char} {ss : List Statement} (h : File text ss) :
    ∀ s ∈ ss, Model.Named s := by
  obtain ⟨gap, rest, -, -, hcut⟩ := h
  exact hcut.named

/-! ## Spelling values -/

theorem isDigits_toString (n : Nat) : IsDigits (toString n).toList := by
  have htext : (toString n).toList = Nat.toDigits 10 n := Nat.toList_repr
  rw [htext]
  exact ⟨Nat.toDigits_ne_nil, fun c hc => isDecimalDigit_of_mem_toDigits hc⟩

theorem isDecimal_positional (d : Decimal) : IsDecimal (d.positional "").toList := by
  rcases d.positional_shape with ⟨e, -, htext⟩ | ⟨whole, fraction, hne, hall, htext, -, -⟩
  · rw [htext]
    refine .whole ⟨List.append_ne_nil_of_left_ne_nil Nat.toDigits_ne_nil _, ?_⟩
    intro c hc
    rcases List.mem_append.1 hc with hc | hc
    · exact isDecimalDigit_of_mem_toDigits hc
    · exact isDecimalDigit_of_mem_zeros hc
  · rw [htext]
    refine .pointed ⟨hne, ?_⟩ ?_
    · exact fun c hc => hall c (by simp [hc])
    · exact fun c hc => hall c (by simp [hc])

theorem Rate.spelled {r : Rate} {rest : List Char} (hr : r.Legal) (hname : Stops isNameChar rest)
    (hdigit : Stops Classify.isDigit rest) : (Part.rate r.raw).Spelled r.text.toList rest := by
  cases r with
  | infinite => exact ⟨rfl, hname⟩
  | finite value =>
    refine ⟨rfl, ?_, hdigit⟩
    rw [Rate.text, Real64.text_of_isPositive hr]
    exact isDecimal_positional _

theorem gap_space : Gap [' '] := .blank (by decide) .nil

/-! ## Spelling statements -/

theorem ProcessSort.spelled {s : ProcessSort} (hs : IsName s.name.toList) (line : Nat)
    (rest : List Char) : (s.saying line).Spelled s.statement.toList ('\n' :: rest) := by
  have hstatement : s.statement = "process " ++ s.name ++ " " ++ toString s.max := rfl
  have htext : s.statement.toList =
      "process".toList ++ ([' '] ++ (s.name.toList ++ ([' '] ++ (toString s.max).toList))) := by
    simp [hstatement]
  rw [htext]
  refine ⟨_, _, rfl, ⟨rfl, ?_⟩, _, _, rfl, gap_space, _, _, rfl, ⟨rfl, hs, ?_⟩, _, _, rfl, gap_space,
    _, [], (List.append_nil _).symm, ⟨rfl, isDigits_toString s.max, ?_⟩, rfl⟩
  · exact stops_cons.2 (by decide)
  · exact stops_cons.2 (by decide)
  · exact stops_cons.2 (by decide)

theorem defaultRate_spelled {r : Rate} (hr : r.Legal) (line : Nat) (rest : List Char) :
    (Statement.defaultRate r.raw line).Spelled ("directive default_rate " ++ r.text).toList
      ('\n' :: rest) := by
  have htext : ("directive default_rate " ++ r.text).toList =
      "directive".toList ++ ([' '] ++ ("default_rate".toList ++ ([' '] ++ r.text.toList))) := by
    simp
  have hrate : (Part.rate r.raw).Spelled r.text.toList ('\n' :: rest) :=
    r.spelled hr (stops_cons.2 (by decide)) (stops_cons.2 (by decide))
  rw [htext]
  refine ⟨_, _, rfl, ⟨rfl, ?_⟩, _, _, rfl, gap_space, _, _, rfl, ⟨rfl, ?_⟩, _, _, rfl, gap_space,
    _, [], (List.append_nil _).symm, hrate, rfl⟩
  · exact stops_cons.2 (by decide)
  · exact stops_cons.2 (by decide)

theorem absorption_spelled (n line : Nat) (rest : List Char) :
    (Statement.absorption (toString n) line).Spelled
      ("directive stochasticity_absorption " ++ toString n).toList ('\n' :: rest) := by
  have htext : ("directive stochasticity_absorption " ++ toString n).toList = "directive".toList ++
      ([' '] ++ ("stochasticity_absorption".toList ++ ([' '] ++ (toString n).toList))) := by
    simp
  rw [htext]
  refine ⟨_, _, rfl, ⟨rfl, ?_⟩, _, _, rfl, gap_space, _, _, rfl, ⟨rfl, ?_⟩, _, _, rfl, gap_space,
    _, [], (List.append_nil _).symm, ⟨rfl, isDigits_toString n, ?_⟩, rfl⟩
  · exact stops_cons.2 (by decide)
  · exact stops_cons.2 (by decide)
  · exact stops_cons.2 (by decide)

/-- The rate of an action as its statement has it. -/
def rateText : Option Rate → String
  | some r => " @" ++ r.text
  | none => ""

/-- The stochasticity absorption of an action as its statement has it. -/
def stochasticityText : Option Nat → String
  | some n => "~" ++ toString n
  | none => ""

theorem stochasticity_spelled (n : Option Nat) (rest : List Char) :
    SpelledInOrder (stochasticitySuffix (n.map toString)) (stochasticityText n).toList
      ('\n' :: rest) := by
  cases n with
  | none => rfl
  | some n =>
    have htext : (stochasticityText (some n)).toList =
        [] ++ (['~'] ++ ([] ++ (toString n).toList)) := by
      simp [stochasticityText]
    rw [htext]
    refine ⟨_, _, rfl, .nil, _, _, rfl, rfl, _, _, rfl, .nil, _, [], (List.append_nil _).symm, ⟨rfl, ?_, ?_⟩, rfl⟩
    · exact isDigits_toString n
    · exact stops_cons.2 (by decide)

theorem rate_spelled {r : Option Rate} (hr : ∀ r', r = some r' → r'.Legal) {rest : List Char}
    (hname : Stops isNameChar rest) (hdigit : Stops Classify.isDigit rest) :
    SpelledInOrder (rateSuffix (r.map Rate.raw)) (rateText r).toList rest := by
  cases r with
  | none => rfl
  | some r =>
    have htext : (rateText (some r)).toList = [' '] ++ (['@'] ++ ([] ++ r.text.toList)) := by
      simp [rateText]
    rw [htext]
    exact ⟨_, _, rfl, gap_space, _, _, rfl, rfl, _, _, rfl, .nil, _, [], (List.append_nil _).symm,
      r.spelled (hr r rfl) hname hdigit, rfl⟩

theorem stochasticityText_stops {p : Char → Bool} (hsign : p '~' = false) (hend : p '\n' = false)
    (n : Option Nat) (rest : List Char) : Stops p ((stochasticityText n).toList ++ '\n' :: rest) := by
  cases n with
  | none => exact stops_cons.2 hend
  | some n =>
    rw [stochasticityText, String.toList_append]
    exact stops_cons.2 hsign

theorem stem_spelled {a : Action} (hhitter : IsName a.hitterSort.toList)
    (htarget : IsName a.targetSort.toList) {rest : List Char} (hrest : Stops Classify.isDigit rest) :
    SpelledInOrder a.raw.stem
      (a.hitterSort ++ " " ++ toString a.hitter ++ " -> " ++ a.targetSort ++ " " ++
        toString a.target ++ " " ++ toString a.bounce).toList rest := by
  have htext : (a.hitterSort ++ " " ++ toString a.hitter ++ " -> " ++ a.targetSort ++ " " ++
      toString a.target ++ " " ++ toString a.bounce).toList =
      a.hitterSort.toList ++ ([' '] ++ ((toString a.hitter).toList ++ ([' '] ++ (['-', '>'] ++ ([' '] ++
        (a.targetSort.toList ++ ([' '] ++ ((toString a.target).toList ++ ([' '] ++
          (toString a.bounce).toList))))))))) := by
    simp
  rw [htext]
  refine ⟨_, _, rfl, ⟨rfl, hhitter, ?_⟩, _, _, rfl, gap_space, _, _, rfl, ⟨rfl, isDigits_toString _, ?_⟩,
    _, _, rfl, gap_space, _, _, rfl, rfl, _, _, rfl, gap_space, _, _, rfl, ⟨rfl, htarget, ?_⟩,
    _, _, rfl, gap_space, _, _, rfl, ⟨rfl, isDigits_toString _, ?_⟩, _, _, rfl, gap_space,
    _, [], (List.append_nil _).symm, ⟨rfl, isDigits_toString _, hrest⟩, rfl⟩
  · exact stops_cons.2 (by decide)
  · exact stops_cons.2 (by decide)
  · exact stops_cons.2 (by decide)
  · exact stops_cons.2 (by decide)

theorem Action.spelled {m : Model} {a : Action} (hm : m.Legal) (ha : a.Legal m.sorts) (line : Nat)
    (rest : List Char) : (a.saying line).Spelled a.statement.toList ('\n' :: rest) := by
  -- The sorts of an action are declared, and declared sorts have legal names.
  have hname : ∀ {name s}, m.sorts.find? (·.name == name) = some s → IsName name.toList := by
    intro name s hfind
    have heq : s.name = name := by simpa using List.find?_some hfind
    exact heq ▸ (hm.sorts s (List.mem_of_find?_eq_some hfind)).1
  obtain ⟨s, hs, -⟩ := ha.hitter
  obtain ⟨t, ht, -⟩ := ha.target
  have hstatement : a.statement = a.hitterSort ++ " " ++ toString a.hitter ++ " -> " ++ a.targetSort ++
      " " ++ toString a.target ++ " " ++ toString a.bounce ++ rateText a.rate ++
      stochasticityText a.stochasticity := by
    cases hrate : a.rate <;> cases hstochasticity : a.stochasticity <;>
      simp only [Action.statement, hrate, hstochasticity] <;> rfl
  rw [hstatement, String.toList_append, String.toList_append]
  refine spelledInOrder_append.2 ⟨_, _, rfl, ?_, stochasticity_spelled _ rest⟩
  refine spelledInOrder_append.2 ⟨_, _, rfl, stem_spelled (hname hs) (hname ht) ?_, ?_⟩
  · -- What follows the last number is a blank, a sign or the end of the line.
    cases a.rate with
    | none => exact stochasticityText_stops (by decide) (by decide) _ rest
    | some r =>
      rw [rateText, String.toList_append, List.append_assoc]
      exact stops_cons.2 (by decide)
  · apply rate_spelled ha.rate
    · exact stochasticityText_stops (by decide) (by decide) _ rest
    · exact stochasticityText_stops (by decide) (by decide) _ rest

/-! ## Lines -/

/-- Each line spells the next statement, or is empty. -/
inductive Said : List String → List (Nat → Statement) → Prop where
  | nil : Said [] []
  | empty {lines : List String} {sayings : List (Nat → Statement)} :
      Said lines sayings → Said ("" :: lines) sayings
  | line {text : String} {saying : Nat → Statement} {lines : List String}
      {sayings : List (Nat → Statement)} : (∀ line, (saying line).line = line) →
      (∀ line rest, (saying line).Spelled text.toList ('\n' :: rest)) → Said lines sayings →
      Said (text :: lines) (saying :: sayings)

theorem Said.append {lines lines' : List String} {sayings sayings' : List (Nat → Statement)}
    (h : Said lines sayings) (h' : Said lines' sayings') :
    Said (lines ++ lines') (sayings ++ sayings') := by
  induction h with
  | nil => exact h'
  | empty _ ih => exact .empty ih
  | line hline hspelled _ ih => exact .line hline hspelled ih

theorem Said.paragraph {lines : List String} {sayings : List (Nat → Statement)}
    (h : Said lines sayings) : Said (paragraph lines) sayings := by
  unfold Hitting.paragraph
  split
  next hempty =>
    rw [List.isEmpty_iff] at hempty
    exact hempty ▸ h
  next => exact .empty h

theorem said_map {τ : Type} {text : τ → String} {saying : τ → Nat → Statement} {items : List τ}
    (hline : ∀ x line, (saying x line).line = line)
    (h : ∀ x ∈ items, ∀ line rest, (saying x line).Spelled (text x).toList ('\n' :: rest)) :
    Said (items.map text) (items.map saying) := by
  induction items with
  | nil => exact .nil
  | cons x items ih => exact .line (hline x) (h x (by simp)) (ih fun y hy => h y (by simp [hy]))

theorem toList_unlines_cons (line : String) (lines : List String) :
    (unlines (line :: lines)).toList = line.toList ++ '\n' :: (unlines lines).toList := by
  simp [unlines]

/-- Lines that each spell a statement are cut at their ends. -/
theorem Said.cut {lines : List String} {sayings : List (Nat → Statement)} (h : Said lines sayings)
    (before : List Char) :
    ∃ gap rest ss, (unlines lines).toList = gap ++ rest ∧ Gap gap ∧ Cut (before ++ gap) rest ss ∧
      Model.Placed sayings ss := by
  induction h generalizing before with
  | nil => exact ⟨[], [], [], rfl, .nil, .nil _, .nil⟩
  | @empty lines sayings _ ih =>
    -- An empty line only makes the gap in front of the next statement longer.
    obtain ⟨gap, rest, ss, htext, hgap, hcut, hplaced⟩ := ih (before ++ ['\n'])
    refine ⟨'\n' :: gap, rest, ss, ?_, .blank (by decide) hgap, ?_, hplaced⟩
    · rw [toList_unlines_cons, htext]
      rfl
    · rwa [List.append_cons]
  | @line text saying lines sayings hline hspelled _ ih =>
    -- The end of the line and the empty lines after it are the gap behind the statement.
    obtain ⟨gap, rest, ss, htext, hgap, hcut, hplaced⟩ := ih (before ++ text.toList ++ ['\n'])
    refine ⟨[], text.toList ++ '\n' :: gap ++ rest, saying (1 + before.count '\n') :: ss, ?_, .nil, ?_,
      .cons ⟨_, rfl⟩ hplaced⟩
    · rw [toList_unlines_cons, htext]
      simp
    · rw [List.append_nil]
      refine .cons (hline _) (hspelled _ _) (.blank (by decide) hgap) ?_
      rwa [List.append_cons]

/-! ## Texts of models -/

namespace Model

theorem Legal.said {m : Model} (hm : m.Legal) :
    ∃ lines, m.text = unlines lines ∧ Said lines m.sayings := by
  refine ⟨_, rfl, ?_⟩
  -- Two directives, a paragraph of sorts and a paragraph of actions.
  refine ((Said.line ?_ ?_ (.line ?_ ?_ .nil)).append (said_map ?_ ?_).paragraph).append
    (said_map ?_ ?_).paragraph
  · exact fun _ => rfl
  · exact defaultRate_spelled hm.defaultRate
  · exact fun _ => rfl
  · exact absorption_spelled m.absorption
  · exact fun _ _ => rfl
  · exact fun s hs => s.spelled (hm.sorts s hs).1
  · exact fun _ _ => rfl
  · exact fun a ha => a.spelled hm (hm.actions a ha)

theorem Legal.file_text {m : Model} (hm : m.Legal) :
    ∃ ss, File m.text.toList ss ∧ Placed m.sayings ss := by
  obtain ⟨lines, htext, hsaid⟩ := hm.said
  obtain ⟨gap, rest, ss, hcut, hgap, hstatements, hplaced⟩ := hsaid.cut []
  exact ⟨ss, ⟨gap, rest, htext ▸ hcut, hgap, hstatements⟩, hplaced⟩

theorem parse_of_readStatements {text : String} {ss : List Statement} {logs : List LogRecord}
    (h : readStatements text = .ok (.ok ss, logs)) : ∃ logs', parse text = .ok ((build ss).1, logs') := by
  refine ⟨logs ++ ⟨.debug, s!"parsed {ss.length} statements"⟩ :: (build ss).2, ?_⟩
  rw [parse, h]
  rfl

theorem legal_of_parse {text : String} {m : Model} {logs : List LogRecord} (hfits : Fits text.toList)
    (h : parse text = .ok (.ok m, logs)) : m.Legal := by
  obtain ⟨result, hread, hfile⟩ := readStatements_total hfits
  cases result with
  | error e =>
    rw [parse, hread] at h
    cases h
  | ok ss =>
    obtain ⟨logs', hparse⟩ := parse_of_readStatements hread
    have hbuild : (build ss).1 = .ok m := by
      rw [hparse] at h
      exact congrArg Prod.fst (Except.ok.inj h)
    exact legal_of_build (hfile ss rfl).named hbuild

/-- **Reading and writing models.** A model that was read is read again from its own text, the same in
all its parts, so that a text written for a model that was read is not changed by reading and writing
it once more. -/
theorem parse_text_again (text : String) (m : Model) (logs : List LogRecord)
    (hsize : text.utf8ByteSize < 2 ^ 63) (h : parse text = .ok (.ok m, logs))
    (hsize' : m.text.utf8ByteSize < 2 ^ 63) :
    (∃ logs', parse m.text = .ok (.ok m, logs')) ∧
      ∀ m' logs', parse m.text = .ok (.ok m', logs') → m'.text = m.text := by
  have hm : m.Legal := legal_of_parse (fits_toList hsize) h
  -- The text says what the model is, so the model is what is built from it.
  obtain ⟨ss, hfile, hplaced⟩ := hm.file_text
  obtain ⟨logs', hparse⟩ := parse_of_readStatements (hfile.readStatements (fits_toList hsize'))
  rw [build_placed hm hplaced] at hparse
  refine ⟨⟨logs', hparse⟩, ?_⟩
  intro m' logs'' hagain
  rw [hparse] at hagain
  cases hagain
  rfl

/-- A sort and an action of it with a rate of one half, which is written with a zero before its
point. -/
theorem parse_text_again_half :
    ∃ m logs, parse "process a 1 a 1 -> a 1 0 @.5~2" = .ok (.ok m, logs) ∧
      m.actions = [⟨"a", 1, "a", 1, 0, some (.finite ⟨4602678819172646912⟩), some 2⟩] ∧
      ∃ logs', parse m.text = .ok (.ok m, logs') := by
  let half : Rate := .finite ⟨4602678819172646912⟩
  let m : Model := { sorts := [⟨"a", 1⟩], actions := [⟨"a", 1, "a", 1, 0, some half, some 2⟩] }
  have hparse : parse "process a 1 a 1 -> a 1 0 @.5~2" =
      .ok (.ok m, [⟨.debug, "parsed 2 statements"⟩]) := by decide +kernel
  have hsize : m.text.utf8ByteSize < 2 ^ 63 := by decide +kernel
  exact ⟨m, _, hparse, rfl, (parse_text_again _ m _ (by decide) hparse hsize).1⟩

end Model

end Pegwork.Hitting
