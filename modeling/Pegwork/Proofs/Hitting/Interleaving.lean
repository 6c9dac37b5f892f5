import Pegwork.Proofs.Hitting.FirstFault

/-!
# The order of statements

The first pass over the statements of a model skips the actions, and the second skips everything else.
So a list of statements gives what it gives when its actions are moved to the end, errors and warnings
included. Directives and sorts do not look at each other either: which of them fails first depends on
their order, but not whether there is a model and which one it is (`Model.build_interleaved`).
-/

namespace Pegwork.Hitting

/-! ## Statements of one form -/

/-- The statements of one form, in order. -/
def ofForm (f : Form) (ss : List Statement) : List Statement := ss.filter fun s => s.form = f

/-- The directives and sorts, in order. -/
def declarations (ss : List Statement) : List Statement := ss.filter fun s => s.form ≠ .action

/-- For each form the two lists have the same statements of it, in the same order. -/
def SameForms (ss ts : List Statement) : Prop := ∀ f : Form, ofForm f ss = ofForm f ts

theorem mem_ofForm {f : Form} {s : Statement} {ss : List Statement} :
    s ∈ ofForm f ss ↔ s ∈ ss ∧ s.form = f := by
  simp [ofForm]

theorem form_of_mem_declarations {s : Statement} {ss : List Statement} (h : s ∈ declarations ss) :
    s.form ≠ .action := by
  simpa using (List.mem_filter.1 h).2

/-- What is collected from statements of one form can be collected when the others are left out. -/
theorem filterMap_ofForm {β : Type} {f : Form} {collect : Statement → Option β}
    (hcollect : ∀ s : Statement, s.form ≠ f → collect s = none) (ss : List Statement) :
    (ofForm f ss).filterMap collect = ss.filterMap collect := by
  induction ss with
  | nil => rfl
  | cons s ss ih =>
    by_cases hs : s.form = f
    · have hkeep : ofForm f (s :: ss) = s :: ofForm f ss := List.filter_cons_of_pos (by simpa using hs)
      rw [hkeep, List.filterMap_cons, List.filterMap_cons, ih]
    · have hskip : ofForm f (s :: ss) = ofForm f ss := List.filter_cons_of_neg (by simpa using hs)
      rw [hskip, List.filterMap_cons_none (hcollect s hs), ih]

/-! ## Actions at the end -/

namespace Model

theorem declareAll_cons (m : Model) (s : Statement) (ss : List Statement) :
    m.declareAll (s :: ss) = m.declare s >>= fun m => m.declareAll ss := List.foldlM_cons

theorem declareAll_declarations (m : Model) (ss : List Statement) :
    m.declareAll (declarations ss) = m.declareAll ss := by
  induction ss generalizing m with
  | nil => rfl
  | cons s ss ih =>
    by_cases hs : s.form = .action
    · have hskip : declarations (s :: ss) = declarations ss :=
        List.filter_cons_of_neg (by simpa using hs)
      rw [hskip, declareAll_cons, declare_of_action hs]
      exact ih m
    · have hkeep : declarations (s :: ss) = s :: declarations ss :=
        List.filter_cons_of_pos (by simpa using hs)
      rw [hkeep, declareAll_cons, declareAll_cons]
      exact bind_congr fun m => ih m

theorem addActions_ofForm (m : Model) (ss : List Statement) :
    m.addActions (ofForm .action ss) = m.addActions ss := by
  induction ss generalizing m with
  | nil => rfl
  | cons s ss ih =>
    cases s with
    | defaultRate | absorption | process => exact ih m
    | action raw line =>
      have hkeep : ofForm .action (.action raw line :: ss) =
          .action raw line :: ofForm .action ss := rfl
      rw [hkeep, addActions, addActions]
      cases m.checkAction raw line with
      | error e => rfl
      | ok a => simp only [ih]

/-- Moving the actions to the end changes neither the model nor the error nor the warnings. -/
theorem build_declarations_append (ss : List Statement) :
    build (declarations ss ++ ofForm .action ss) = build ss := by
  have hdeclare : declareAll {} (declarations ss ++ ofForm .action ss) = declareAll {} ss := by
    have hactions : ∀ m : Model, m.declareAll (ofForm .action ss) = .ok m :=
      declareAll_of_actions fun s hs => (mem_ofForm.1 hs).2
    calc declareAll {} (declarations ss ++ ofForm .action ss)
        = declareAll {} (declarations ss) >>= fun m => m.declareAll (ofForm .action ss) :=
          declareAll_append {} _ _
      _ = declareAll {} (declarations ss) >>= fun m => .ok m := bind_congr hactions
      _ = declareAll {} (declarations ss) := bind_pure _
      _ = declareAll {} ss := declareAll_declarations {} ss
  unfold build
  rw [hdeclare]
  cases declareAll {} ss with
  | error e => rfl
  | ok m =>
    show m.addActions (declarations ss ++ ofForm .action ss) = m.addActions ss
    rw [addActions_skip fun s hs => form_of_mem_declarations hs, addActions_ofForm]

end Model

/-! ## Any other order -/

namespace SameForms

variable {ss ts : List Statement}

theorem symm (h : SameForms ss ts) : SameForms ts ss := fun f => (h f).symm

theorem mem_iff (h : SameForms ss ts) {s : Statement} : s ∈ ss ↔ s ∈ ts := by
  have hforms : s ∈ ofForm s.form ss ↔ s ∈ ofForm s.form ts := by rw [h s.form]
  simpa [mem_ofForm] using hforms

theorem filterMap_eq (h : SameForms ss ts) {β : Type} (f : Form) {collect : Statement → Option β}
    (hcollect : ∀ s : Statement, s.form ≠ f → collect s = none) :
    ss.filterMap collect = ts.filterMap collect := by
  rw [← filterMap_ofForm hcollect ss, ← filterMap_ofForm hcollect ts, h f]

theorem declaredSorts_eq (h : SameForms ss ts) : declaredSorts ss = declaredSorts ts := by
  apply h.filterMap_eq .process
  intro s hs
  cases s with
  | process name max line => exact absurd rfl hs
  | _ => rfl

theorem declaredActions_eq (h : SameForms ss ts) : declaredActions ss = declaredActions ts := by
  apply h.filterMap_eq .action
  intro s hs
  cases s with
  | action raw line => exact absurd rfl hs
  | _ => rfl

theorem defaultRates_eq (h : SameForms ss ts) :
    ss.filterMap Statement.defaultRate? = ts.filterMap Statement.defaultRate? := by
  apply h.filterMap_eq .defaultRate
  intro s hs
  cases s with
  | defaultRate raw line => exact absurd rfl hs
  | _ => rfl

theorem absorptions_eq (h : SameForms ss ts) :
    ss.filterMap Statement.absorption? = ts.filterMap Statement.absorption? := by
  apply h.filterMap_eq .absorption
  intro s hs
  cases s with
  | absorption value line => exact absurd rfl hs
  | _ => rfl

/-- The model that is described depends on each form by itself. -/
theorem modelOf_eq (h : SameForms ss ts) : modelOf ss = modelOf ts := by
  unfold modelOf
  rw [h.defaultRates_eq, h.absorptions_eq, h.declaredSorts_eq, h.declaredActions_eq]

/-- Whether there is a model does not depend on the order either. -/
theorem valid (h : SameForms ss ts) (hvalid : Valid ss) : Valid ts where
  inRange s hs := hvalid.inRange s (h.mem_iff.2 hs)
  distinct := by
    rw [← h.declaredSorts_eq]
    exact hvalid.distinct
  actions raw line hs := by
    rw [← h.declaredSorts_eq]
    exact hvalid.actions raw line (h.mem_iff.2 hs)

theorem build_ok (h : SameForms ss ts) {m : Model} {warnings : List LogRecord}
    (hbuild : Model.build ss = (.ok m, warnings)) : Model.build ts = (.ok m, warnings) := by
  have hok : (Model.build ss).1 = .ok m := by rw [hbuild]
  obtain ⟨hholds, rfl⟩ := (Model.build_decided ss).eq_ok_iff.1 hok
  have hok' : (Model.build ts).1 = .ok (modelOf ts) := by
    apply (Model.build_decided ts).ok
    exact allChecks_hold.2 (h.valid (allChecks_hold.1 hholds))
  have hwarnings : (Model.build ts).2 = warnings := by
    rw [Model.build_warnings hok', ← h.declaredActions_eq, ← Model.build_warnings hok, hbuild]
  rw [← hwarnings, h.modelOf_eq, ← hok']

end SameForms

namespace Model

/-- **Declarations and actions may be interleaved.** A list of statements gives the same model or the
same error, with the same warnings, when its actions are moved behind everything else. And lists with
the same statements of each form, in the same order, give the same models. -/
theorem build_interleaved :
    (∀ ss, build ss = build (declarations ss ++ ofForm .action ss)) ∧
    ∀ ss ts, (∀ f, ofForm f ss = ofForm f ts) →
      ∀ m warnings, build ss = (.ok m, warnings) ↔ build ts = (.ok m, warnings) := by
  refine ⟨fun ss => (build_declarations_append ss).symm, ?_⟩
  intro ss ts hforms m warnings
  have hsame : SameForms ss ts := hforms
  constructor
  · exact hsame.build_ok
  · exact hsame.symm.build_ok

/-- An action in front of its sorts, and a directive that has moved past one of them. -/
theorem build_interleaved_early :
    let ss : List Statement := [.action ⟨"a", "0", "b", "0", "1", none, none⟩ 1, .process "a" "0" 2,
      .defaultRate .infinite 3, .process "b" "1" 4]
    let ts : List Statement := [.defaultRate .infinite 3, .process "a" "0" 2, .process "b" "1" 4,
      .action ⟨"a", "0", "b", "0", "1", none, none⟩ 1]
    (∀ f, ofForm f ss = ofForm f ts) ∧ build ts = build ss ∧ (build ss).1.isOk = true := by
  intro ss ts
  have hforms : ∀ f, ofForm f ss = ofForm f ts := by
    intro f
    cases f <;> rfl
  obtain ⟨m, warnings, hbuild⟩ : ∃ m warnings, build ss = (.ok m, warnings) :=
    ⟨⟨.infinite, 1, [⟨"a", 0⟩, ⟨"b", 1⟩], [⟨"a", 0, "b", 0, 1, none, none⟩]⟩, [], by decide⟩
  refine ⟨hforms, ?_, ?_⟩
  · rw [(build_interleaved.2 ss ts hforms m warnings).1 hbuild, hbuild]
  · rw [hbuild]
    rfl

end Model

end Pegwork.Hitting
