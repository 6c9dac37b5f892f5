import Pegwork.Proofs.Hitting.Files

/-!
# Syntax errors of model files

Gaps can be empty and there can be no statements at all, so every text begins with a model file, and
the only thing that can be wrong is what follows it. The main statement, `readStatements_stops`, says
where the error is reported and what is known about that place (`StopsAt`). In particular the text in
front of the error is read as it would be read alone, although some rules have looked at what follows:
an optional suffix is tried, and a word or a number has to end.
-/

namespace Pegwork.Hitting

open TextCursor Run

/-- Reading `before ++ after` stops in between, at the position `p`, with the given statements. -/
structure StopsAt (p : Position) (before after : String) (ss : List Statement) : Prop where
  /-- The position is the one behind the first part. -/
  place : p = Position.behind before.toList
  /-- Its offset counts the bytes of the first part. -/
  offset : p.offset = before.utf8ByteSize
  /-- It lies before the end of the text. -/
  early : p.offset < (before ++ after).utf8ByteSize
  /-- Neither a blank nor a comment stands there. -/
  solid : Solid after.toList
  /-- No form of statement matches there, whatever the trail is. -/
  fails : ∀ (f : Form) (s : Store TextCursor Mark), ∃ t,
    (meaning f.rule ⟨0, p, after.toList⟩ (behind 0 (before ++ after).toList [])).Ends s
      (.failure ⟨0, p, after.toList⟩) t
  /-- The first part alone is read to its end, with the same statements. -/
  accepted : readStatements before = .ok (.ok ss, [])

/-- A rule that fails whatever was captured fails from every state of the trail. -/
theorem Fails.ends {rule : MarkedRule} {before rest : List Char} (h : Fails rule before rest)
    (hfits : Fits (before ++ rest)) (s : Store TextCursor Mark) :
    ∃ t, (meaning rule (behind 0 before rest) (behind 0 (before ++ rest) [])).Ends s
      (.failure (behind 0 before rest)) t := by
  obtain ⟨_, -, hmiss⟩ := h (captured s)
  obtain ⟨t, -, hends⟩ := hmiss hfits s rfl
  exact ⟨t, hends⟩

theorem stopsAt_of_file {before after : String} {ss : List Statement}
    (hfits : Fits (before ++ after).toList) (hleft : after.toList ≠ []) (hsolid : Solid after.toList)
    (hfile : File before.toList ss)
    (hfails : ∀ f : Form, Fails f.rule before.toList after.toList) :
    StopsAt (Position.behind before.toList) before after ss := by
  have hoffset : (Position.behind before.toList).offset = before.utf8ByteSize :=
    Text.bytes_toList before
  rw [String.toList_append] at hfits
  refine ⟨rfl, hoffset, ?_, hsolid, ?_, hfile.readStatements hfits.of_append⟩
  · have hpos : after.utf8ByteSize ≠ 0 := by
      rw [← Text.bytes_toList]
      exact fun hzero => hleft (Text.eq_nil_of_bytes_eq_zero hzero)
    rw [hoffset, String.utf8ByteSize_append]
    omega
  · intro f s
    rw [String.toList_append]
    exact (hfails f).ends hfits s

/-- **Where reading stops.** Reading a text runs the grammar over it, makes no complaints, and never
reports that nothing matches. If it reports that something is left, the text is a model file up to the
place of the error, read with the statements that the run has finished, and what is left is neither
blank nor a comment nor a statement. -/
theorem readStatements_stops (text : String) (hsize : text.utf8ByteSize < 2 ^ 63) :
    ∃ outcome store,
      (Recognizer.whole (meaning Grammar.model) (beginning 0 text.toList)
        (behind 0 text.toList [])).Ends {} outcome store ∧
      readStatements text = .ok (outcome.map fun _ => (captured store).statements, []) ∧
      (∀ p, outcome ≠ .error (.noMatch p)) ∧
      ∀ p, outcome = .error (.trailingInput p) →
        ∃ before after, text = before ++ after ∧ StopsAt p before after (captured store).statements := by
  have hfits : Fits text.toList := fits_toList hsize
  obtain ⟨consumed, left, ss, hcut, hfile, hsolid, hfails, hall⟩ := read_model text.toList
  obtain ⟨before, rfl⟩ : ∃ before : String, consumed = before.toList := ⟨.ofList consumed, by simp⟩
  obtain ⟨after, rfl⟩ : ∃ after : String, left = after.toList := ⟨.ofList left, by simp⟩
  obtain ⟨d, ⟨hstatements, hlogs⟩, hmatch⟩ := hall Form.all Form.mem_all {}
  obtain ⟨store, hcaptured, hends⟩ := whole_ends (hcut ▸ hfits) hmatch
  rw [← hcut] at hends
  have hread := readWith_of_ends hfits hends
  have hss : (captured store).statements = ss := by
    rw [hcaptured, hstatements]
    rfl
  rw [hcaptured, hlogs] at hread
  refine ⟨_, store, hends, hcaptured ▸ hread, ?_, ?_⟩
  · -- The grammar matches in any case, and so only what is left can be reported.
    intro p houtcome
    split at houtcome <;> cases houtcome
  · intro p houtcome
    split at houtcome
    · cases houtcome
    next hleft =>
      cases houtcome
      obtain rfl : text = before ++ after := by
        rw [← String.toList_inj, String.toList_append]
        exact hcut
      rw [hss]
      exact ⟨before, after, rfl, stopsAt_of_file hfits hleft hsolid hfile hfails⟩

/-- A suffix that breaks off is left in front, although it was tried as a part of the action. -/
theorem readStatements_stops_suffix :
    ∃ ss, StopsAt ⟨1, 14, 13⟩ "a 1 -> b 0 1 " "@~2" ss ∧
      ss = [.action ⟨"a", "1", "b", "0", "1", none, none⟩ 1] := by
  obtain ⟨outcome, store, -, hread, -, hstops⟩ :=
    readStatements_stops "a 1 -> b 0 1 @~2" (by decide)
  have hshown : readStatements "a 1 -> b 0 1 @~2" =
      .ok (.error (.trailingInput ⟨1, 14, 13⟩), []) := by decide +kernel
  rw [hshown] at hread
  have houtcome : outcome = .error (.trailingInput ⟨1, 14, 13⟩) := by
    cases outcome with
    | ok _ => simp [Except.map] at hread
    | error e => simpa [Except.map, eq_comm] using hread
  obtain ⟨before, after, hcut, hplace⟩ := hstops _ houtcome
  -- The offset decides where the text is cut.
  have hbytes : Text.bytes before.toList = Text.bytes "a 1 -> b 0 1 ".toList := by
    rw [Text.bytes_toList, ← hplace.offset]
    rfl
  have hlists : before.toList ++ after.toList = "a 1 -> b 0 1 ".toList ++ "@~2".toList := by
    rw [← String.toList_append, ← hcut]
    rfl
  obtain ⟨hbefore, hafter⟩ := Text.append_inj_of_bytes hlists hbytes
  obtain rfl := String.toList_inj.1 hbefore
  obtain rfl := String.toList_inj.1 hafter
  refine ⟨_, hplace, ?_⟩
  have haccepted : readStatements "a 1 -> b 0 1 " =
      .ok (.ok [.action ⟨"a", "1", "b", "0", "1", none, none⟩ 1], []) := by decide +kernel
  have hsame := hplace.accepted.symm.trans haccepted
  simpa using hsame

end Pegwork.Hitting
