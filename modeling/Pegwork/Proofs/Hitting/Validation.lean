import Pegwork.Hitting.Validation
import Pegwork.Proofs.Hitting.Language
import Pegwork.Proofs.Number.Written
import Pegwork.Proofs.Run

/-!
# Legal models

A model is `Legal` if it passes all checks that are made when it is built.

* `Model.legal_of_build`: every model that is built from statements is legal.
* `Model.build_placed`: a legal model is built from the statements that say what it is, on whatever
  lines these stand.

The checks of a statement depend on the sorts alone, so adding an action does not make an earlier one
illegal.
-/

namespace Pegwork.Hitting

open Pegwork.Number

/-! ## Values -/

/-- The rate is positive and finite, or infinite. -/
def Rate.Legal : Rate → Prop
  | finite value => value.isPositive = true
  | infinite => True

/-- The rate as it is written. -/
def Rate.raw : Rate → RawRate
  | finite value => .finite value.text
  | infinite => .infinite

theorem readNumber_eq_ok_iff {bound n line : Nat} {text : String} :
    readNumber bound text line = .ok n ↔ readWhole bound text = some n := by
  unfold readNumber
  split
  next m hread => rw [hread, Except.ok.injEq, Option.some.injEq]
  next hread => simp [hread]

theorem readNumber_toString {bound n : Nat} (line : Nat) (h : n < bound) :
    readNumber bound (toString n) line = .ok n :=
  readNumber_eq_ok_iff.2 (readWhole_toString h)

theorem lt_of_readNumber {bound n line : Nat} {text : String}
    (h : readNumber bound text line = .ok n) : n < bound :=
  lt_of_readWhole (readNumber_eq_ok_iff.1 h)

theorem legal_of_readRate {raw : RawRate} {line : Nat} {r : Rate} (h : readRate raw line = .ok r) :
    r.Legal := by
  unfold readRate at h
  cases raw with
  | infinite =>
    cases h
    trivial
  | finite text =>
    cases hread : Real64.read text with
    | none => simp [hread] at h
    | some value =>
      by_cases hvalue : value.isPositive = true
      · simp only [hread, hvalue, if_true] at h
        cases h
        exact hvalue
      · simp [hread, hvalue] at h

theorem readRate_raw {r : Rate} (line : Nat) (h : r.Legal) : readRate r.raw line = .ok r := by
  cases r with
  | finite value =>
    have hpositive : value.isPositive = true := h
    simp [readRate, Rate.raw, Real64.read_text hpositive, hpositive]
  | infinite => rfl

/-! ## Legal models -/

/-- The action mentions processes of declared sorts, changes its target, and has legal values. -/
structure Action.Legal (sorts : List ProcessSort) (a : Action) : Prop where
  hitter : ∃ s, sorts.find? (·.name == a.hitterSort) = some s ∧ a.hitter ≤ s.max
  target : ∃ s, sorts.find? (·.name == a.targetSort) = some s ∧ a.target ≤ s.max ∧ a.bounce ≤ s.max
  bounces : a.target ≠ a.bounce
  alone : a.hitterSort = a.targetSort → a.hitter = a.target
  rate : ∀ r, a.rate = some r → r.Legal
  stochasticity : ∀ n, a.stochasticity = some n → n < 4294967296

/-- The model passes all checks. -/
structure Model.Legal (m : Model) : Prop where
  defaultRate : m.defaultRate.Legal
  absorption : m.absorption < 4294967296
  sorts : ∀ s ∈ m.sorts, IsName s.name.toList ∧ s.max < Size.bound
  distinct : (m.sorts.map (·.name)).Nodup
  actions : ∀ a ∈ m.actions, a.Legal m.sorts

namespace Model

/-- The sort that a statement declares, if it declares one, has a legal name. -/
def Named (s : Statement) : Prop := ∀ name max line, s = .process name max line → IsName name.toList

theorem legal_empty : ({} : Model).Legal where
  defaultRate := trivial
  absorption := by decide
  sorts := by simp
  distinct := by simp
  actions := by simp

theorem sort?_eq_none {m : Model} {name : String} (h : ¬ (m.sort? name).isSome = true) :
    ∀ s ∈ m.sorts, s.name ≠ name := by
  simpa [sort?] using h

theorem legal_of_declare {m m' : Model} {s : Statement} (hm : m.Legal) (hempty : m.actions = [])
    (hs : Named s) (h : m.declare s = .ok m') : m'.Legal ∧ m'.actions = [] := by
  cases s with
  | defaultRate raw line =>
    obtain ⟨r, hr, hm'⟩ := bind_eq_ok.1 h
    cases hm'
    exact ⟨{ hm with defaultRate := legal_of_readRate hr }, hempty⟩
  | absorption value line =>
    obtain ⟨n, hn, hm'⟩ := bind_eq_ok.1 h
    cases hm'
    exact ⟨{ hm with absorption := lt_of_readNumber hn }, hempty⟩
  | process name max line =>
    simp only [declare] at h
    split at h
    next => cases h
    next hfresh =>
      obtain ⟨n, hn, hm'⟩ := bind_eq_ok.1 h
      cases hm'
      -- The new sort has a name of its own, and there are no actions yet that it could affect.
      have hother := sort?_eq_none hfresh
      refine ⟨{ hm with sorts := ?_, distinct := ?_, actions := ?_ }, hempty⟩
      · intro s hs'
        rcases List.mem_append.1 hs' with hs' | hs'
        · exact hm.sorts s hs'
        · cases List.mem_singleton.1 hs'
          exact ⟨hs name max line rfl, lt_of_readNumber hn⟩
      · rw [List.map_append, List.nodup_append]
        refine ⟨hm.distinct, by simp, ?_⟩
        simpa using hother
      · simp [hempty]
  | action raw line =>
    cases h
    exact ⟨hm, hempty⟩

theorem legal_of_declareAll {m m' : Model} {ss : List Statement} (hm : m.Legal)
    (hempty : m.actions = []) (hss : ∀ s ∈ ss, Named s) (h : m.declareAll ss = .ok m') :
    m'.Legal ∧ m'.actions = [] := by
  induction ss generalizing m with
  | nil =>
    cases h
    exact ⟨hm, hempty⟩
  | cons s ss ih =>
    obtain ⟨next, hnext, hrest⟩ := bind_eq_ok.1 h
    obtain ⟨hlegal, hnone⟩ := legal_of_declare hm hempty (hss s (by simp)) hnext
    exact ih hlegal hnone (fun t ht => hss t (by simp [ht])) hrest

/-! ## Actions -/

theorem lookupSort_eq_ok_iff {m : Model} {name : String} {line : Nat} {s : ProcessSort} :
    m.lookupSort name line = .ok s ↔ m.sorts.find? (·.name == name) = some s := by
  unfold lookupSort sort?
  split
  next t hfind => rw [hfind, Except.ok.injEq, Option.some.injEq]
  next hfind => simp [hfind]

theorem checkProcess_eq_ok_iff {s : ProcessSort} {index line : Nat} :
    checkProcess s index line = .ok () ↔ index ≤ s.max := by
  unfold checkProcess
  split <;> simp <;> omega

/-- Everything that is checked about an action. -/
theorem checkAction_eq_ok_iff {m : Model} {raw : RawAction} {line : Nat} {a : Action} :
    m.checkAction raw line = .ok a ↔
      a.hitterSort = raw.hitterSort ∧ a.targetSort = raw.targetSort ∧
      readSize raw.hitter line = .ok a.hitter ∧ readSize raw.target line = .ok a.target ∧
      readSize raw.bounce line = .ok a.bounce ∧
      (∃ s, m.sorts.find? (·.name == a.hitterSort) = some s ∧ a.hitter ≤ s.max) ∧
      (∃ s, m.sorts.find? (·.name == a.targetSort) = some s ∧ a.target ≤ s.max ∧ a.bounce ≤ s.max) ∧
      a.target ≠ a.bounce ∧ (a.hitterSort = a.targetSort → a.hitter = a.target) ∧
      raw.rate.mapM (readRate · line) = .ok a.rate ∧
      raw.stochasticity.mapM (readAbsorption · line) = .ok a.stochasticity := by
  constructor
  · intro h
    obtain ⟨s, hs, h⟩ := bind_eq_ok.1 h
    obtain ⟨t, ht, h⟩ := bind_eq_ok.1 h
    obtain ⟨hitter, hhitter, h⟩ := bind_eq_ok.1 h
    obtain ⟨target, htarget, h⟩ := bind_eq_ok.1 h
    obtain ⟨bounce, hbounce, h⟩ := bind_eq_ok.1 h
    obtain ⟨⟨⟩, hhitterRange, h⟩ := bind_eq_ok.1 h
    obtain ⟨⟨⟩, htargetRange, h⟩ := bind_eq_ok.1 h
    obtain ⟨⟨⟩, hbounceRange, h⟩ := bind_eq_ok.1 h
    -- From here on all texts are numbers in range; what is left compares them.
    by_cases hbounces : target = bounce
    · simp only [if_pos hbounces] at h
      cases h
    · by_cases hself : raw.hitterSort = raw.targetSort ∧ hitter ≠ target
      · simp only [if_neg hbounces, if_pos hself] at h
        cases h
      · simp only [if_neg hbounces, if_neg hself] at h
        obtain ⟨rate, hrate, h⟩ := bind_eq_ok.1 h
        obtain ⟨stochasticity, hstochasticity, h⟩ := bind_eq_ok.1 h
        cases h
        refine ⟨rfl, rfl, hhitter, htarget, hbounce, ?_, ?_, hbounces, ?_, hrate, hstochasticity⟩
        · exact ⟨s, lookupSort_eq_ok_iff.1 hs, checkProcess_eq_ok_iff.1 hhitterRange⟩
        · exact ⟨t, lookupSort_eq_ok_iff.1 ht, checkProcess_eq_ok_iff.1 htargetRange,
            checkProcess_eq_ok_iff.1 hbounceRange⟩
        · intro hsame
          exact Decidable.of_not_not fun hne => hself ⟨hsame, hne⟩
  · obtain ⟨hitterSort, hitter, targetSort, target, bounce, rate, stochasticity⟩ := a
    rintro ⟨rfl, rfl, hhitter, htarget, hbounce, ⟨s, hs, hhitterRange⟩, ⟨t, ht, htargetRange, hbounceRange⟩,
      hbounces, halone, hrate, hstochasticity⟩
    -- Each check is passed in its turn, in the order in which they are made.
    have hself : ¬ (raw.hitterSort = raw.targetSort ∧ hitter ≠ target) := fun h => h.2 (halone h.1)
    refine bind_eq_ok.2 ⟨s, lookupSort_eq_ok_iff.2 hs, ?_⟩
    refine bind_eq_ok.2 ⟨t, lookupSort_eq_ok_iff.2 ht, ?_⟩
    refine bind_eq_ok.2 ⟨hitter, hhitter, bind_eq_ok.2 ⟨target, htarget, ?_⟩⟩
    refine bind_eq_ok.2 ⟨bounce, hbounce, ?_⟩
    refine bind_eq_ok.2 ⟨(), checkProcess_eq_ok_iff.2 hhitterRange, ?_⟩
    refine bind_eq_ok.2 ⟨(), checkProcess_eq_ok_iff.2 htargetRange, ?_⟩
    refine bind_eq_ok.2 ⟨(), checkProcess_eq_ok_iff.2 hbounceRange, ?_⟩
    simp only [if_neg hbounces, if_neg hself]
    exact bind_eq_ok.2 ⟨rate, hrate, bind_eq_ok.2 ⟨stochasticity, hstochasticity, rfl⟩⟩

theorem mapM_eq_ok {ε τ υ : Type} {f : τ → Except ε υ} {x : Option τ} {y : Option υ}
    (h : x.mapM f = .ok y) {b : υ} (hb : y = some b) : ∃ a, x = some a ∧ f a = .ok b := by
  cases x with
  | none =>
    cases h
    cases hb
  | some a =>
    subst hb
    obtain ⟨b', hb', hsome⟩ := bind_eq_ok.1 h
    cases hsome
    exact ⟨a, rfl, hb'⟩

theorem legal_of_checkAction {m : Model} {raw : RawAction} {line : Nat} {a : Action}
    (h : m.checkAction raw line = .ok a) : a.Legal m.sorts := by
  obtain ⟨-, -, -, -, -, hhitter, htarget, hbounces, halone, hrate, hstochasticity⟩ :=
    checkAction_eq_ok_iff.1 h
  refine ⟨hhitter, htarget, hbounces, halone, ?_, ?_⟩
  · intro r hr
    obtain ⟨_, -, hread⟩ := mapM_eq_ok hrate hr
    exact legal_of_readRate hread
  · intro n hn
    obtain ⟨_, -, hread⟩ := mapM_eq_ok hstochasticity hn
    exact lt_of_readNumber hread

theorem Legal.addAction {m : Model} {a : Action} (hm : m.Legal) (ha : a.Legal m.sorts) :
    ({ m with actions := m.actions ++ [a] } : Model).Legal := by
  refine { hm with actions := ?_ }
  intro b hb
  rcases List.mem_append.1 hb with hb | hb
  · exact hm.actions b hb
  · cases List.mem_singleton.1 hb
    exact ha

theorem legal_of_addActions {m m' : Model} {ss : List Statement} (hm : m.Legal)
    (h : (m.addActions ss).1 = .ok m') : m'.Legal := by
  induction ss generalizing m with
  | nil =>
    cases h
    exact hm
  | cons s ss ih =>
    cases s with
    | defaultRate | absorption | process => exact ih hm h
    | action raw line =>
      rw [addActions] at h
      cases hcheck : m.checkAction raw line with
      | error e => simp [hcheck] at h
      | ok a =>
        simp only [hcheck] at h
        exact ih (hm.addAction (legal_of_checkAction hcheck)) h

/-- **Every model that is built is legal.** -/
theorem legal_of_build {m : Model} {ss : List Statement} (hss : ∀ s ∈ ss, Named s)
    (h : (build ss).1 = .ok m) : m.Legal := by
  unfold build at h
  cases hdeclare : declareAll {} ss with
  | error e => simp [hdeclare] at h
  | ok d =>
    simp only [hdeclare] at h
    obtain ⟨hlegal, -⟩ := legal_of_declareAll legal_empty rfl hss hdeclare
    exact legal_of_addActions hlegal h

/-! ## Building a model again -/

/-- The statements say the given things in order, each on some line. -/
def Placed (sayings : List (Nat → Statement)) (ss : List Statement) : Prop :=
  List.Forall₂ (fun saying s => ∃ line, s = saying line) sayings ss

end Model

/-- The sort as it is written. -/
def ProcessSort.saying (s : ProcessSort) : Nat → Statement := .process s.name (toString s.max)

/-- The parts of the action as they are written. -/
def Action.raw (a : Action) : RawAction :=
  ⟨a.hitterSort, toString a.hitter, a.targetSort, toString a.target, toString a.bounce,
    a.rate.map Rate.raw, a.stochasticity.map toString⟩

/-- The action as it is written. -/
def Action.saying (a : Action) : Nat → Statement := .action a.raw

namespace Model

/-- The directives of the model as they are written. -/
def directives (m : Model) : List (Nat → Statement) :=
  [.defaultRate m.defaultRate.raw, .absorption (toString m.absorption)]

/-- What the text of the model says, up to the lines on which it is said. -/
def sayings (m : Model) : List (Nat → Statement) :=
  m.directives ++ m.sorts.map ProcessSort.saying ++ m.actions.map Action.saying

theorem placed_append {a b : List (Nat → Statement)} {ss : List Statement} (h : Placed (a ++ b) ss) :
    ∃ first second, ss = first ++ second ∧ Placed a first ∧ Placed b second := by
  induction a generalizing ss with
  | nil => exact ⟨[], ss, rfl, .nil, h⟩
  | cons saying a ih =>
    obtain _ | ⟨hs, hss⟩ := h
    obtain ⟨first, second, rfl, hfirst, hsecond⟩ := ih hss
    exact ⟨_ :: first, second, rfl, .cons hs hfirst, hsecond⟩

/-- Statements are of the forms in which things are said. -/
theorem Placed.forms {sayings : List (Nat → Statement)} {ss : List Statement} (h : Placed sayings ss)
    (p : Form → Prop) (hsayings : ∀ saying ∈ sayings, ∀ line, p (saying line).form) :
    ∀ s ∈ ss, p s.form := by
  induction h with
  | nil => simp
  | cons hs _ ih =>
    obtain ⟨line, rfl⟩ := hs
    intro t ht
    rcases List.mem_cons.1 ht with rfl | ht
    · exact hsayings _ (by simp) line
    · exact ih (fun saying hsaying => hsayings saying (by simp [hsaying])) t ht

theorem declareAll_append (m : Model) (ss ts : List Statement) :
    m.declareAll (ss ++ ts) = m.declareAll ss >>= fun d => d.declareAll ts :=
  List.foldlM_append

theorem declareAll_directives {m : Model} {ss : List Statement} (hm : m.Legal)
    (h : Placed m.directives ss) :
    declareAll {} ss = .ok { m with sorts := [], actions := [] } := by
  obtain _ | ⟨⟨first, rfl⟩, _ | ⟨⟨second, rfl⟩, ⟨⟩⟩⟩ := h
  refine bind_eq_ok.2 ⟨{ defaultRate := m.defaultRate }, ?_, ?_⟩
  · exact bind_eq_ok.2 ⟨_, readRate_raw first hm.defaultRate, rfl⟩
  · refine bind_eq_ok.2 ⟨_, bind_eq_ok.2 ⟨_, readNumber_toString second hm.absorption, rfl⟩, ?_⟩
    rfl

theorem declareAll_sorts {m : Model} {sorts : List ProcessSort} {ss : List Statement}
    (hmax : ∀ s ∈ sorts, s.max < Size.bound) (hdistinct : ((m.sorts ++ sorts).map (·.name)).Nodup)
    (h : Placed (sorts.map ProcessSort.saying) ss) :
    m.declareAll ss = .ok { m with sorts := m.sorts ++ sorts } := by
  induction sorts generalizing m ss with
  | nil =>
    obtain ⟨⟩ := h
    rw [List.append_nil]
    rfl
  | cons s sorts ih =>
    obtain _ | ⟨⟨line, rfl⟩, hss⟩ := h
    -- A sort of this name further up would make two of them.
    have hfresh : ¬ (m.sort? s.name).isSome = true := by
      intro hsome
      obtain ⟨t, ht, hname⟩ : ∃ t ∈ m.sorts, t.name = s.name := by simpa [sort?] using hsome
      rw [List.map_append, List.nodup_append] at hdistinct
      exact hdistinct.2.2 t.name (List.mem_map_of_mem ht) s.name (by simp) hname
    have hstep : m.declare (s.saying line) = .ok { m with sorts := m.sorts ++ [s] } := by
      have hread := readNumber_toString line (hmax s (by simp))
      simp only [ProcessSort.saying, declare, if_neg hfresh]
      exact bind_eq_ok.2 ⟨s.max, hread, rfl⟩
    refine bind_eq_ok.2 ⟨_, hstep, ?_⟩
    have hrest := ih (m := { m with sorts := m.sorts ++ [s] }) (fun t ht => hmax t (by simp [ht]))
      (by simpa using hdistinct) hss
    rw [List.append_assoc] at hrest
    exact hrest

/-- The first pass does nothing for an action. -/
theorem declare_of_action {s : Statement} (hs : s.form = .action) (m : Model) : m.declare s = .ok m := by
  cases s with
  | action raw line => rfl
  | defaultRate | absorption | process => cases hs

theorem declareAll_of_actions {ss : List Statement} (h : ∀ s ∈ ss, s.form = .action) (m : Model) :
    m.declareAll ss = .ok m := by
  induction ss with
  | nil => rfl
  | cons s ss ih =>
    have hstep : m.declare s = .ok m := declare_of_action (h s (by simp)) m
    exact bind_eq_ok.2 ⟨m, hstep, ih fun t ht => h t (by simp [ht])⟩

theorem mapM_map_eq_ok {ε τ υ : Type} {f : υ → Except ε τ} {g : τ → υ} {x : Option τ}
    (h : ∀ a, x = some a → f (g a) = .ok a) : (x.map g).mapM f = .ok x := by
  cases x with
  | none => rfl
  | some a => exact bind_eq_ok.2 ⟨a, h a rfl, rfl⟩

theorem checkAction_raw {m : Model} {a : Action} (line : Nat)
    (hmax : ∀ s ∈ m.sorts, s.max < Size.bound) (ha : a.Legal m.sorts) :
    m.checkAction a.raw line = .ok a := by
  -- Indices are not larger than the last process of a sort, which is a size.
  obtain ⟨s, hs, hhitter⟩ := ha.hitter
  obtain ⟨t, ht, htarget, hbounce⟩ := ha.target
  have hsmax := hmax s (List.mem_of_find?_eq_some hs)
  have htmax := hmax t (List.mem_of_find?_eq_some ht)
  apply checkAction_eq_ok_iff.2
  refine ⟨rfl, rfl, ?_, ?_, ?_, ha.hitter, ha.target, ha.bounces, ha.alone, ?_, ?_⟩
  · exact readNumber_toString line (by omega)
  · exact readNumber_toString line (by omega)
  · exact readNumber_toString line (by omega)
  · exact mapM_map_eq_ok fun r hr => readRate_raw line (ha.rate r hr)
  · exact mapM_map_eq_ok fun n hn => readNumber_toString line (ha.stochasticity n hn)

/-- The first pass over the statements leaves the actions out. -/
theorem declareAll_placed {m : Model} {ss : List Statement} (hm : m.Legal) (h : Placed m.sayings ss) :
    declareAll {} ss = .ok { m with actions := [] } := by
  -- The directives, then the sorts, then the actions.
  obtain ⟨first, third, rfl, hfirst, hthird⟩ := placed_append h
  obtain ⟨first, second, rfl, hfirst, hsecond⟩ := placed_append hfirst
  rw [declareAll_append, declareAll_append, declareAll_directives hm hfirst]
  have hsorts := declareAll_sorts (m := { m with sorts := [], actions := [] })
    (fun s hs => (hm.sorts s hs).2) hm.distinct hsecond
  simp only [bind, Except.bind, hsorts, List.nil_append]
  apply declareAll_of_actions
  apply hthird.forms (· = .action)
  intro saying hsaying line
  obtain ⟨a, -, rfl⟩ := List.mem_map.1 hsaying
  rfl

/-- The second pass does nothing for directives and sorts. -/
theorem addActions_skip {ss : List Statement} (h : ∀ s ∈ ss, s.form ≠ .action) (m : Model)
    (ts : List Statement) : m.addActions (ss ++ ts) = m.addActions ts := by
  induction ss with
  | nil => rfl
  | cons s ss ih =>
    have hrest : ∀ s ∈ ss, s.form ≠ .action := fun s hs => h s (by simp [hs])
    cases s with
    | defaultRate | absorption | process => exact ih hrest
    | action raw line => exact absurd rfl (h (.action raw line) (by simp))

theorem addActions_placed {m : Model} {actions : List Action} {ss : List Statement}
    (hmax : ∀ s ∈ m.sorts, s.max < Size.bound) (hactions : ∀ a ∈ actions, a.Legal m.sorts)
    (h : Placed (actions.map Action.saying) ss) :
    (m.addActions ss).1 = .ok { m with actions := m.actions ++ actions } := by
  induction actions generalizing m ss with
  | nil =>
    obtain ⟨⟩ := h
    rw [List.append_nil]
    rfl
  | cons a actions ih =>
    obtain _ | ⟨⟨line, rfl⟩, hss⟩ := h
    -- A duplicate only adds a warning, so nothing is asked about earlier actions.
    have hcheck := checkAction_raw line hmax (hactions a (by simp))
    have hrest := ih (m := { m with actions := m.actions ++ [a] }) hmax
      (fun b hb => hactions b (by simp [hb])) hss
    rw [List.append_assoc] at hrest
    rw [Action.saying, addActions, hcheck]
    exact hrest

/-- **A legal model is built from what its text says.** -/
theorem build_placed {m : Model} {ss : List Statement} (hm : m.Legal) (h : Placed m.sayings ss) :
    (build ss).1 = .ok m := by
  have hdeclare := declareAll_placed hm h
  obtain ⟨first, second, rfl, hfirst, hsecond⟩ := placed_append h
  -- The second pass over the statements begins with those that are no actions.
  have hskip : ({ m with actions := [] } : Model).addActions (first ++ second) =
      ({ m with actions := [] } : Model).addActions second := by
    apply addActions_skip
    apply hfirst.forms (· ≠ .action)
    intro saying hsaying line
    simp only [directives, List.mem_append, List.mem_cons, List.mem_map, List.not_mem_nil,
      or_false] at hsaying
    rcases hsaying with (rfl | rfl) | ⟨s, -, rfl⟩
    · nofun
    · nofun
    · nofun
  have hadd := addActions_placed (m := { m with actions := [] }) (fun s hs => (hm.sorts s hs).2)
    hm.actions hsecond
  rw [build, hdeclare]
  show (addActions _ _).1 = _
  rw [hskip, hadd]
  rfl

end Model

end Pegwork.Hitting
