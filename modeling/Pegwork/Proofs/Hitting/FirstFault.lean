import Pegwork.Proofs.Hitting.Validation

/-!
# Which models are built and which errors are reported

Every check that is made when a model is built is listed here, in the order in which they are made:
first those of the directives and sorts, then those of the actions. A computation that is
`DecidedBy` a list of checks has its value if all of them hold, and otherwise the error of the first
that fails. Sequencing keeps this, so that the checks of `Model.build` are found by going once through
the definitions.

What makes a list of statements `Valid` is said without an order of the checks. The main result is
`Model.build_exact`: a model is built of the valid lists, it says in order what the statements say,
and every other list is refused with the error of its first failing check.
-/

namespace Pegwork.Hitting

open Pegwork.Number

/-! ## Checks -/

/-- A check of a statement. -/
structure Check where
  /-- The statement that is checked. -/
  statement : Statement
  /-- What has to hold. -/
  holds : Prop
  /-- The error if it does not hold. -/
  error : ModelError

/-- The check is the first of the list that fails. -/
inductive FirstFailure : List Check → Check → Prop where
  /-- Nothing stands before the check. -/
  | here {c : Check} {cs : List Check} (h : ¬ c.holds) : FirstFailure (c :: cs) c
  /-- The check stands behind one that holds. -/
  | later {c d : Check} {cs : List Check} (h : d.holds) (hcs : FirstFailure cs c) :
      FirstFailure (d :: cs) c

/-- The first failure of two lists is one of the first list, or one of the second behind a first list
that holds. -/
theorem firstFailure_append {cs ds : List Check} {c : Check} (h : FirstFailure (cs ++ ds) c) :
    FirstFailure cs c ∨ (∀ d ∈ cs, d.holds) ∧ FirstFailure ds c := by
  induction cs with
  | nil => exact .inr ⟨by simp, h⟩
  | cons d cs ih =>
    cases h with
    | here hd => exact .inl (.here hd)
    | later hd hrest =>
      obtain hcs | ⟨hall, hds⟩ := ih hrest
      · exact .inl (.later hd hcs)
      · exact .inr ⟨by simpa [hd] using hall, hds⟩

theorem all_hold_or_firstFailure (checks : List Check) :
    (∀ c ∈ checks, c.holds) ∨ ∃ c, FirstFailure checks c := by
  induction checks with
  | nil => simp
  | cons d checks ih =>
    by_cases hd : d.holds
    · obtain hall | ⟨c, hc⟩ := ih
      · exact .inl (by simpa [hd] using hall)
      · exact .inr ⟨c, .later hd hc⟩
    · exact .inr ⟨d, .here hd⟩

/-- The computation makes the checks one after the other: it has the value if all hold, and the error
of the first that fails otherwise. -/
structure DecidedBy {τ : Type} (x : Except ModelError τ) (checks : List Check) (value : τ) : Prop where
  ok : (∀ c ∈ checks, c.holds) → x = .ok value
  error : ∀ c, FirstFailure checks c → x = .error c.error

namespace DecidedBy

variable {τ υ : Type} {x : Except ModelError τ} {f : τ → Except ModelError υ} {cs ds : List Check}
  {c : Check} {a : τ} {b : υ}

theorem eq_ok_iff (h : DecidedBy x cs a) {v : τ} : x = .ok v ↔ (∀ c ∈ cs, c.holds) ∧ v = a := by
  constructor
  · intro hx
    obtain hall | ⟨c, hc⟩ := all_hold_or_firstFailure cs
    · rw [h.ok hall, Except.ok.injEq] at hx
      exact ⟨hall, hx.symm⟩
    · simp [h.error c hc] at hx
  · rintro ⟨hall, rfl⟩
    exact h.ok hall

theorem pure (a : τ) : DecidedBy (.ok a) [] a where
  ok _ := rfl
  error _ h := nomatch h

theorem single (hok : c.holds → x = .ok a) (herror : ¬ c.holds → x = .error c.error) :
    DecidedBy x [c] a where
  ok h := hok (h c (by simp))
  error d h := by
    cases h with
    | here hc => exact herror hc
    | later _ hrest => nomatch hrest

/-- Sequencing makes the checks of both computations. -/
theorem bind (hx : DecidedBy x cs a) (hf : DecidedBy (f a) ds b) :
    DecidedBy (x >>= f) (cs ++ ds) b where
  ok h := by
    have hcs : ∀ c ∈ cs, c.holds := fun c hc => h c (by simp [hc])
    have hds : ∀ d ∈ ds, d.holds := fun d hd => h d (by simp [hd])
    rw [hx.ok hcs]
    exact hf.ok hds
  error c h := by
    obtain hc | ⟨hcs, hc⟩ := firstFailure_append h
    · rw [hx.error c hc]
      rfl
    · rw [hx.ok hcs]
      exact hf.error c hc

/-- A computation with one check in front of another computation. -/
theorem cons (hx : DecidedBy x [c] a) (hf : DecidedBy (f a) ds b) :
    DecidedBy (x >>= f) (c :: ds) b := hx.bind hf

/-- A computation that is refused under a condition. -/
theorem guard {p : Prop} [Decidable p] {y z : Except ModelError τ} (hp : c.holds ↔ ¬ p)
    (hy : y = .error c.error) (hz : DecidedBy z ds a) :
    DecidedBy (if p then y else z) (c :: ds) a where
  ok h := by
    rw [if_neg (hp.1 (h c (by simp)))]
    exact hz.ok fun d hd => h d (by simp [hd])
  error d h := by
    cases h with
    | here hc => rw [if_pos (by simpa [hp] using hc), hy]
    | later hc hrest =>
      rw [if_neg (hp.1 hc)]
      exact hz.error d hrest

/-- A computation on a part that need not be given. -/
theorem mapM {ι : Type} {f : ι → Except ModelError τ} {checks : ι → List Check} {value : ι → τ}
    (h : ∀ i, DecidedBy (f i) (checks i) (value i)) (i : Option ι) :
    DecidedBy (i.mapM f) (i.elim [] checks) (i.map value) := by
  cases i with
  | none => exact pure none
  | some i =>
    have hi := (h i).bind (f := fun v => .ok (some v)) (pure (some (value i)))
    rw [List.append_nil] at hi
    exact hi

end DecidedBy

/-! ## Values -/

/-- The whole number that a text stands for, if it is in range. -/
def wholeOf (bound : Nat) (text : String) : Nat := (readWhole bound text).getD 0

/-- The number that a text stands for, if it is one. -/
def realOf (text : String) : Real64 := (Real64.read text).getD ⟨0⟩

/-- The rate that is written, if it is one. -/
def rateOf : RawRate → Rate
  | .infinite => .infinite
  | .finite text => .finite (realOf text)

/-- A text in a statement is a whole number below a bound. -/
def numberCheck (s : Statement) (bound : Nat) (text : String) : Check where
  statement := s
  holds := ∃ n, readWhole bound text = some n
  error := .numberOutOfRange text s.line

/-- A rate in a statement is a number, and this is positive and finite. -/
def rateChecks (s : Statement) : RawRate → List Check
  | .infinite => []
  | .finite text =>
    [⟨s, ∃ x, Real64.read text = some x, .numberOutOfRange text s.line⟩,
      ⟨s, (realOf text).isPositive = true, .invalidRate (realOf text) s.line⟩]

theorem readNumber_decided (s : Statement) (bound : Nat) (text : String) :
    DecidedBy (readNumber bound text s.line) [numberCheck s bound text] (wholeOf bound text) := by
  unfold readNumber
  apply DecidedBy.single
  · rintro ⟨n, hn⟩
    simp [wholeOf, hn]
  · intro h
    have hn : readWhole bound text = none := Option.eq_none_iff_forall_ne_some.2 fun n hn => h ⟨n, hn⟩
    simp [numberCheck, hn]

/-- The number of a text. -/
def readReal (text : String) (line : Nat) : Except ModelError Real64 :=
  match Real64.read text with
  | some x => .ok x
  | none => .error (.numberOutOfRange text line)

theorem readRate_finite (text : String) (line : Nat) :
    readRate (.finite text) line = readReal text line >>= fun x =>
      if x.isPositive = true then .ok (.finite x) else .error (.invalidRate x line) := by
  unfold readReal
  cases hread : Real64.read text with
  | none =>
    simp only [readRate, hread]
    rfl
  | some x =>
    simp only [readRate, hread]
    rfl

theorem readRate_decided (s : Statement) (raw : RawRate) :
    DecidedBy (readRate raw s.line) (rateChecks s raw) (rateOf raw) := by
  cases raw with
  | infinite => exact .pure _
  | finite text =>
    rw [readRate_finite]
    refine .cons (a := realOf text) (.single ?_ ?_) (.single ?_ ?_)
    · rintro ⟨x, hx⟩
      simp [readReal, realOf, hx]
    · intro h
      have hx : Real64.read text = none := Option.eq_none_iff_forall_ne_some.2 fun x hx => h ⟨x, hx⟩
      simp [readReal, hx]
    · intro h
      exact if_pos h
    · intro h
      exact if_neg h

/-! ## Directives and sorts -/

/-- The rate that a statement makes the default. -/
@[simp] def Statement.defaultRate? : Statement → Option Rate
  | .defaultRate raw _ => some (rateOf raw)
  | _ => none

/-- The absorption that a statement sets. -/
@[simp] def Statement.absorption? : Statement → Option Nat
  | .absorption value _ => some (wholeOf 4294967296 value)
  | _ => none

/-- The sort that a statement declares. -/
@[simp] def Statement.sort? : Statement → Option ProcessSort
  | .process name max _ => some ⟨name, wholeOf Size.bound max⟩
  | _ => none

/-- The sorts that are declared, in order. -/
def declaredSorts (ss : List Statement) : List ProcessSort := ss.filterMap Statement.sort?

/-- The checks of a directive or a sort that comes after sorts with the given names. -/
def Statement.declarationChecks (names : List String) (s : Statement) : List Check :=
  match s with
  | .defaultRate raw _ => rateChecks s raw
  | .absorption value _ => [numberCheck s 4294967296 value]
  | .process name max line =>
    [⟨s, name ∉ names, .duplicateSort name line⟩, numberCheck s Size.bound max]
  | .action _ _ => []

/-- The checks of all directives and sorts in order. -/
def declarationChecks (names : List String) : List Statement → List Check
  | [] => []
  | s :: ss =>
    s.declarationChecks names ++ declarationChecks (names ++ s.sort?.toList.map (·.name)) ss

namespace Model

/-- The model with everything that the statements declare. -/
def taking (m : Model) (ss : List Statement) : Model where
  defaultRate := (ss.filterMap Statement.defaultRate?).getLast?.getD m.defaultRate
  absorption := (ss.filterMap Statement.absorption?).getLast?.getD m.absorption
  sorts := m.sorts ++ declaredSorts ss
  actions := m.actions

@[simp] theorem taking_nil (m : Model) : m.taking [] = m := by
  simp [taking, declaredSorts]

theorem taking_cons (m : Model) (s : Statement) (ss : List Statement) :
    m.taking (s :: ss) = (m.taking [s]).taking ss := by
  cases s <;> simp [taking, declaredSorts, List.filterMap_cons, List.getLast?_cons]

theorem sort?_isSome {m : Model} {name : String} :
    (m.sort? name).isSome = true ↔ name ∈ m.sorts.map (·.name) := by
  simp [sort?]

theorem declare_decided (m : Model) (s : Statement) :
    DecidedBy (m.declare s) (s.declarationChecks (m.sorts.map (·.name))) (m.taking [s]) := by
  cases s with
  | defaultRate raw line =>
    have htaking : m.taking [.defaultRate raw line] = { m with defaultRate := rateOf raw } := by
      simp [taking, declaredSorts, List.filterMap_cons]
    have h := (readRate_decided (.defaultRate raw line) raw).bind
      (f := fun rate => .ok { m with defaultRate := rate }) (.pure _)
    rw [List.append_nil] at h
    rw [htaking]
    exact h
  | absorption value line =>
    have htaking : m.taking [.absorption value line] =
        { m with absorption := wholeOf 4294967296 value } := by
      simp [taking, declaredSorts, List.filterMap_cons]
    rw [htaking]
    exact (readNumber_decided (.absorption value line) 4294967296 value).cons (.pure _)
  | process name max line =>
    have htaking : m.taking [.process name max line] =
        { m with sorts := m.sorts ++ [⟨name, wholeOf Size.bound max⟩] } := by
      simp [taking, declaredSorts, List.filterMap_cons]
    rw [htaking]
    apply DecidedBy.guard
    · rw [sort?_isSome]
    · rfl
    · exact (readNumber_decided (.process name max line) Size.bound max).cons (.pure _)
  | action raw line =>
    have htaking : m.taking [.action raw line] = m := by
      simp [taking, declaredSorts, List.filterMap_cons]
    rw [htaking]
    exact .pure m

theorem declareAll_decided (m : Model) (ss : List Statement) :
    DecidedBy (m.declareAll ss) (Hitting.declarationChecks (m.sorts.map (·.name)) ss) (m.taking ss) := by
  induction ss generalizing m with
  | nil =>
    rw [taking_nil]
    exact .pure m
  | cons s ss ih =>
    rw [taking_cons]
    have hnames : (m.taking [s]).sorts.map (·.name) =
        m.sorts.map (·.name) ++ s.sort?.toList.map (·.name) := by
      cases s <;> simp [taking, declaredSorts, List.filterMap_cons]
    have hrest := ih (m.taking [s])
    rw [hnames] at hrest
    exact (declare_decided m s).bind hrest

end Model

/-! ## Actions -/

/-- The declared sort of the given name, if there is one. -/
def sortOf (sorts : List ProcessSort) (name : String) : ProcessSort :=
  (sorts.find? (·.name == name)).getD ⟨name, 0⟩

/-- The action that is written, if its numbers are in range. -/
def RawAction.value (raw : RawAction) : Action where
  hitterSort := raw.hitterSort
  hitter := wholeOf Size.bound raw.hitter
  targetSort := raw.targetSort
  target := wholeOf Size.bound raw.target
  bounce := wholeOf Size.bound raw.bounce
  rate := raw.rate.map rateOf
  stochasticity := raw.stochasticity.map (wholeOf 4294967296)

/-- A sort that a statement mentions is declared. -/
def sortCheck (s : Statement) (sorts : List ProcessSort) (name : String) : Check where
  statement := s
  holds := ∃ t ∈ sorts, t.name = name
  error := .undeclaredSort name s.line

/-- A process that a statement mentions is one of its sort. -/
def indexCheck (s : Statement) (t : ProcessSort) (index : Nat) : Check where
  statement := s
  holds := index ≤ t.max
  error := .processOutOfRange t.name index t.max s.line

/-- The checks of an action against the declared sorts. -/
def RawAction.checks (sorts : List ProcessSort) (s : Statement) (raw : RawAction) : List Check :=
  [sortCheck s sorts raw.hitterSort, sortCheck s sorts raw.targetSort,
    numberCheck s Size.bound raw.hitter, numberCheck s Size.bound raw.target,
    numberCheck s Size.bound raw.bounce,
    indexCheck s (sortOf sorts raw.hitterSort) raw.value.hitter,
    indexCheck s (sortOf sorts raw.targetSort) raw.value.target,
    indexCheck s (sortOf sorts raw.targetSort) raw.value.bounce,
    ⟨s, raw.value.target ≠ raw.value.bounce, .noBounce raw.targetSort raw.value.target s.line⟩,
    ⟨s, raw.hitterSort = raw.targetSort → raw.value.hitter = raw.value.target,
      .selfHit raw.hitterSort raw.value.hitter s.line⟩] ++
  (raw.rate.elim [] (rateChecks s) ++
    raw.stochasticity.elim [] fun value => [numberCheck s 4294967296 value])

/-- The checks of a statement in the second pass. -/
def Statement.actionChecks (sorts : List ProcessSort) (s : Statement) : List Check :=
  match s with
  | .action raw _ => raw.checks sorts s
  | _ => []

/-- The action of a statement, with its line. -/
@[simp] def Statement.action? : Statement → Option (Action × Nat)
  | .action raw line => some (raw.value, line)
  | _ => none

/-- The actions in order, each with its line. -/
def declaredActions (ss : List Statement) : List (Action × Nat) := ss.filterMap Statement.action?

namespace Model

theorem lookupSort_decided (m : Model) (s : Statement) (name : String) :
    DecidedBy (m.lookupSort name s.line) [sortCheck s m.sorts name] (sortOf m.sorts name) := by
  unfold lookupSort sort?
  cases hfind : m.sorts.find? (·.name == name) with
  | some t =>
    apply DecidedBy.single
    · intro _
      simp [sortOf, hfind]
    · intro h
      exact absurd ⟨t, List.mem_of_find?_eq_some hfind, by simpa using List.find?_some hfind⟩ h
  | none =>
    apply DecidedBy.single
    · rintro ⟨t, ht, hname⟩
      have hother := List.find?_eq_none.1 hfind t ht
      simp [hname] at hother
    · intro _
      rfl

theorem checkProcess_decided (s : Statement) (t : ProcessSort) (index : Nat) :
    DecidedBy (checkProcess t index s.line) [indexCheck s t index] () := by
  unfold checkProcess
  apply DecidedBy.guard
  · exact Nat.not_lt.symm
  · rfl
  · exact .pure ()

theorem checkAction_decided (m : Model) (raw : RawAction) (line : Nat) :
    DecidedBy (m.checkAction raw line) (raw.checks m.sorts (.action raw line)) raw.value := by
  let s : Statement := .action raw line
  refine (lookupSort_decided m s raw.hitterSort).cons ?_
  refine (lookupSort_decided m s raw.targetSort).cons ?_
  refine (readNumber_decided s Size.bound raw.hitter).cons ?_
  refine (readNumber_decided s Size.bound raw.target).cons ?_
  refine (readNumber_decided s Size.bound raw.bounce).cons ?_
  refine (checkProcess_decided s _ _).cons ?_
  refine (checkProcess_decided s _ _).cons ?_
  refine (checkProcess_decided s _ _).cons ?_
  refine .guard Iff.rfl rfl (.guard ?_ rfl ?_)
  · simp [RawAction.value]
  · have hrate := DecidedBy.mapM (readRate_decided s) raw.rate
    have hstochasticity := DecidedBy.mapM (readNumber_decided s 4294967296) raw.stochasticity
    have hlast := hstochasticity.bind (f := fun n => .ok { raw.value with stochasticity := n }) (.pure _)
    rw [List.append_nil] at hlast
    exact hrate.bind hlast

/-- The model with further actions. -/
def adding (m : Model) (actions : List Action) : Model := { m with actions := m.actions ++ actions }

theorem addActions_fst_action (m : Model) (raw : RawAction) (line : Nat) (ss : List Statement) :
    (m.addActions (.action raw line :: ss)).1 =
      m.checkAction raw line >>= fun a => ((m.adding [a]).addActions ss).1 := by
  rw [addActions]
  cases m.checkAction raw line <;> rfl

theorem addActions_decided (m : Model) (ss : List Statement) :
    DecidedBy (m.addActions ss).1 (ss.flatMap (Statement.actionChecks m.sorts))
      (m.adding ((declaredActions ss).map (·.1))) := by
  induction ss generalizing m with
  | nil => simpa [adding, declaredActions] using .pure m
  | cons s ss ih =>
    cases s with
    | defaultRate | absorption | process => exact ih m
    | action raw line =>
      rw [addActions_fst_action]
      have hrest := ih (m.adding [raw.value])
      have hvalue : (m.adding [raw.value]).adding ((declaredActions ss).map (·.1)) =
          m.adding ((declaredActions (.action raw line :: ss)).map (·.1)) := by
        simp [adding, declaredActions]
      rw [hvalue] at hrest
      exact (checkAction_decided m raw line).bind hrest

end Model

/-! ## Whole lists -/

/-- All checks of a list of statements: those of the directives and sorts, and then those of the
actions. -/
def allChecks (ss : List Statement) : List Check :=
  declarationChecks [] ss ++ ss.flatMap (Statement.actionChecks (declaredSorts ss))

/-- What the statements say, one thing after the other. -/
def modelOf (ss : List Statement) : Model where
  defaultRate := (ss.filterMap Statement.defaultRate?).getLast?.getD .infinite
  absorption := (ss.filterMap Statement.absorption?).getLast?.getD 1
  sorts := declaredSorts ss
  actions := (declaredActions ss).map (·.1)

/-- A warning for each action that is also an earlier one, after those that the model has already. -/
def repeatWarnings (present : List Action) (actions : List (Action × Nat)) : List LogRecord :=
  (actions.zipIdx.filter fun p => p.1.1 ∈ present ++ (actions.take p.2).map (·.1)).map fun p =>
    Model.duplicateWarning p.1.1 p.1.2

theorem repeatWarnings_cons (present : List Action) (a : Action) (line : Nat)
    (actions : List (Action × Nat)) :
    repeatWarnings present ((a, line) :: actions) =
      (if a ∈ present then [Model.duplicateWarning a line] else []) ++
        repeatWarnings (present ++ [a]) actions := by
  -- Behind the first action all indices are one larger.
  have hrest : ((actions.zipIdx 1).filter fun p =>
      p.1.1 ∈ present ++ (((a, line) :: actions).take p.2).map (·.1)).map (fun p =>
        Model.duplicateWarning p.1.1 p.1.2) = repeatWarnings (present ++ [a]) actions := by
    rw [List.zipIdx_succ, List.filter_map, List.map_map]
    simp [repeatWarnings, Function.comp_def]
  rw [repeatWarnings, List.zipIdx_cons, List.filter_cons]
  by_cases ha : a ∈ present
  · simpa [ha] using hrest
  · simpa [ha] using hrest

namespace Model

theorem build_decided (ss : List Statement) : DecidedBy (build ss).1 (allChecks ss) (modelOf ss) := by
  have hsteps : (build ss).1 = declareAll {} ss >>= fun m => (m.addActions ss).1 := by
    unfold build
    cases declareAll {} ss <;> rfl
  have hactions := addActions_decided (taking {} ss) ss
  rw [hsteps]
  exact (declareAll_decided {} ss).bind (f := fun m => (m.addActions ss).1) hactions

/-- Actions are compared with those that the model has already. -/
theorem addActions_warnings {m m' : Model} {ss : List Statement}
    (h : (m.addActions ss).1 = .ok m') :
    (m.addActions ss).2 = repeatWarnings m.actions (declaredActions ss) := by
  induction ss generalizing m with
  | nil => rfl
  | cons s ss ih =>
    cases s with
    | defaultRate | absorption | process => exact ih h
    | action raw line =>
      rw [addActions_fst_action] at h
      obtain ⟨a, ha, hrest⟩ := bind_eq_ok.1 h
      obtain ⟨-, rfl⟩ := (checkAction_decided m raw line).eq_ok_iff.1 ha
      have hactions : declaredActions (.action raw line :: ss) =
          (raw.value, line) :: declaredActions ss := by
        simp [declaredActions]
      rw [hactions, repeatWarnings_cons, addActions, ha]
      exact congrArg _ (ih hrest)

theorem build_warnings {m : Model} {ss : List Statement} (h : (build ss).1 = .ok m) :
    (build ss).2 = repeatWarnings [] (declaredActions ss) := by
  unfold build at h ⊢
  cases hdeclare : declareAll {} ss with
  | error e => simp [hdeclare] at h
  | ok d =>
    simp only [hdeclare] at h
    -- The first pass leaves no actions behind.
    obtain ⟨-, rfl⟩ := (declareAll_decided {} ss).eq_ok_iff.1 hdeclare
    exact addActions_warnings h

end Model

/-! ## Valid lists -/

/-- The rate is infinite, or the text of a positive and finite number. -/
def RawRate.Valid : RawRate → Prop
  | .infinite => True
  | .finite text => ∃ x, Real64.read text = some x ∧ x.isPositive = true

/-- The directive or the sort has a value in range. -/
def Statement.InRange : Statement → Prop
  | .defaultRate raw _ => raw.Valid
  | .absorption value _ => ∃ n, readWhole 4294967296 value = some n
  | .process _ max _ => ∃ n, readWhole Size.bound max = some n
  | .action _ _ => True

/-- The action mentions processes of declared sorts, changes its target, and has a rate and a
stochasticity in range if it has any. -/
structure RawAction.Valid (sorts : List ProcessSort) (raw : RawAction) : Prop where
  processes : ∃ s ∈ sorts, ∃ t ∈ sorts, s.name = raw.hitterSort ∧ t.name = raw.targetSort ∧
    ∃ hitter target bounce, readWhole Size.bound raw.hitter = some hitter ∧
      readWhole Size.bound raw.target = some target ∧ readWhole Size.bound raw.bounce = some bounce ∧
      hitter ≤ s.max ∧ target ≤ t.max ∧ bounce ≤ t.max ∧ target ≠ bounce ∧
      (raw.hitterSort = raw.targetSort → hitter = target)
  rate : ∀ r, raw.rate = some r → r.Valid
  stochasticity : ∀ text, raw.stochasticity = some text → ∃ n, readWhole 4294967296 text = some n

/-- The statements make a model. -/
structure Valid (ss : List Statement) : Prop where
  inRange : ∀ s ∈ ss, s.InRange
  distinct : ((declaredSorts ss).map (·.name)).Nodup
  actions : ∀ raw line, .action raw line ∈ ss → raw.Valid (declaredSorts ss)

theorem rateChecks_hold {s : Statement} {raw : RawRate} :
    (∀ c ∈ rateChecks s raw, c.holds) ↔ raw.Valid := by
  cases raw with
  | infinite => simp [rateChecks, RawRate.Valid]
  | finite text =>
    cases hread : Real64.read text with
    | none => simp [rateChecks, RawRate.Valid, hread]
    | some x => simp [rateChecks, RawRate.Valid, realOf, hread]

theorem Statement.declarationChecks_hold {names : List String} {s : Statement}
    (hnames : names.Nodup) :
    (∀ c ∈ s.declarationChecks names, c.holds) ↔
      s.InRange ∧ (names ++ s.sort?.toList.map (·.name)).Nodup := by
  cases s with
  | defaultRate raw line => simp [declarationChecks, InRange, rateChecks_hold, hnames]
  | absorption value line => simp [declarationChecks, InRange, numberCheck, hnames]
  | process name max line =>
    -- The new name is not among the earlier ones.
    have hfresh : (∀ n ∈ names, n ≠ name) ↔ name ∉ names := by
      constructor
      · intro h hmem
        exact h name hmem rfl
      · rintro h n hn rfl
        exact h hn
    simp [declarationChecks, InRange, numberCheck, List.nodup_append, hnames, hfresh, and_comm]
  | action raw line => simp [declarationChecks, InRange, hnames]

theorem declaredSorts_cons (s : Statement) (ss : List Statement) :
    declaredSorts (s :: ss) = s.sort?.toList ++ declaredSorts ss := by
  cases s <;> simp [declaredSorts, List.filterMap_cons]

theorem declarationChecks_hold {names : List String} {ss : List Statement} (hnames : names.Nodup) :
    (∀ c ∈ declarationChecks names ss, c.holds) ↔
      (∀ s ∈ ss, s.InRange) ∧ (names ++ (declaredSorts ss).map (·.name)).Nodup := by
  induction ss generalizing names with
  | nil => simpa [declarationChecks, declaredSorts] using hnames
  | cons s ss ih =>
    rw [declarationChecks, List.forall_mem_append, List.forall_mem_cons, declaredSorts_cons,
      List.map_append, ← List.append_assoc, s.declarationChecks_hold hnames]
    constructor
    · rintro ⟨⟨hs, hfresh⟩, hrest⟩
      obtain ⟨hss, hdistinct⟩ := (ih hfresh).1 hrest
      exact ⟨⟨hs, hss⟩, hdistinct⟩
    · rintro ⟨⟨hs, hss⟩, hdistinct⟩
      have hfresh := hdistinct.of_append_left
      exact ⟨⟨hs, hfresh⟩, (ih hfresh).2 ⟨hss, hdistinct⟩⟩

/-- Sorts with different names are found by their names. -/
theorem sortOf_eq {sorts : List ProcessSort} {s : ProcessSort} {name : String}
    (hdistinct : (sorts.map (·.name)).Nodup) (hs : s ∈ sorts) (hname : s.name = name) :
    sortOf sorts name = s := by
  cases hfind : sorts.find? (·.name == name) with
  | none =>
    have hother := List.find?_eq_none.1 hfind s hs
    simp [hname] at hother
  | some t =>
    have ht : t.name = name := by simpa using List.find?_some hfind
    have hst := List.inj_on_of_nodup_map hdistinct (List.mem_of_find?_eq_some hfind) hs
      (ht.trans hname.symm)
    simp [sortOf, hfind, hst]

theorem wholeOf_eq {bound n : Nat} {text : String} (h : readWhole bound text = some n) :
    wholeOf bound text = n := by
  simp [wholeOf, h]

theorem RawAction.checks_hold {sorts : List ProcessSort} {s : Statement} {raw : RawAction}
    (hdistinct : (sorts.map (·.name)).Nodup) :
    (∀ c ∈ raw.checks sorts s, c.holds) ↔ raw.Valid sorts := by
  have hrate : (∀ c ∈ raw.rate.elim [] (rateChecks s), c.holds) ↔
      ∀ r, raw.rate = some r → r.Valid := by
    cases raw.rate with
    | none => simp
    | some r => simp [rateChecks_hold]
  have hstochasticity :
      (∀ c ∈ raw.stochasticity.elim [] fun value => [numberCheck s 4294967296 value], c.holds) ↔
        ∀ text, raw.stochasticity = some text → ∃ n, readWhole 4294967296 text = some n := by
    cases raw.stochasticity with
    | none => simp
    | some text => simp [numberCheck]
  rw [checks, List.forall_mem_append, List.forall_mem_append, hrate, hstochasticity]
  simp only [List.forall_mem_cons, sortCheck, numberCheck, indexCheck]
  constructor
  · rintro ⟨⟨⟨h, hh, hhname⟩, ⟨t, ht, htname⟩, ⟨hitter, hhitter⟩, ⟨target, htarget⟩,
      ⟨bounce, hbounce⟩, hhitterRange, htargetRange, hbounceRange, hbounces, halone, -⟩, hr, hn⟩
    simp only [sortOf_eq hdistinct hh hhname, sortOf_eq hdistinct ht htname, value,
      wholeOf_eq hhitter, wholeOf_eq htarget, wholeOf_eq hbounce] at *
    exact ⟨⟨h, hh, t, ht, hhname, htname, hitter, target, bounce, hhitter, htarget, hbounce,
      hhitterRange, htargetRange, hbounceRange, hbounces, halone⟩, hr, hn⟩
  · rintro ⟨⟨h, hh, t, ht, hhname, htname, hitter, target, bounce, hhitter, htarget, hbounce,
      hhitterRange, htargetRange, hbounceRange, hbounces, halone⟩, hr, hn⟩
    simp only [sortOf_eq hdistinct hh hhname, sortOf_eq hdistinct ht htname, value,
      wholeOf_eq hhitter, wholeOf_eq htarget, wholeOf_eq hbounce]
    exact ⟨⟨⟨h, hh, hhname⟩, ⟨t, ht, htname⟩, ⟨hitter, hhitter⟩, ⟨target, htarget⟩,
      ⟨bounce, hbounce⟩, hhitterRange, htargetRange, hbounceRange, hbounces, halone, by simp⟩, hr, hn⟩

/-- **The checks hold exactly for the valid lists.** -/
theorem allChecks_hold {ss : List Statement} : (∀ c ∈ allChecks ss, c.holds) ↔ Valid ss := by
  have hdeclarations : (∀ c ∈ declarationChecks [] ss, c.holds) ↔
      (∀ s ∈ ss, s.InRange) ∧ ((declaredSorts ss).map (·.name)).Nodup :=
    declarationChecks_hold List.nodup_nil
  rw [allChecks, List.forall_mem_append, hdeclarations]
  have hactions (hdistinct : ((declaredSorts ss).map (·.name)).Nodup) :
      (∀ c ∈ ss.flatMap (Statement.actionChecks (declaredSorts ss)), c.holds) ↔
        ∀ raw line, .action raw line ∈ ss → raw.Valid (declaredSorts ss) := by
    simp only [List.mem_flatMap]
    constructor
    · intro h raw line hs
      exact (RawAction.checks_hold hdistinct).1 fun c hc => h c ⟨_, hs, hc⟩
    · rintro h c ⟨s, hs, hc⟩
      cases s with
      | defaultRate | absorption | process => cases hc
      | action raw line => exact (RawAction.checks_hold hdistinct).2 (h raw line hs) c hc
  constructor
  · rintro ⟨⟨hrange, hdistinct⟩, h⟩
    exact ⟨hrange, hdistinct, (hactions hdistinct).1 h⟩
  · intro h
    exact ⟨⟨h.inRange, h.distinct⟩, (hactions h.distinct).2 h.actions⟩

/-! ## Lines -/

namespace Model

/-- The name of a sort is looked at before its number of processes. -/
example : (build [.process "a" "1" 1, .process "a" "x" 2]).1 = .error (.duplicateSort "a" 2) := by
  decide

end Model

end Pegwork.Hitting
