import Pegwork.Proofs.Contract
import Pegwork.Proofs.Range
import Pegwork.Proofs.Trail

/-!
# Announced runs

Who is called in the course of a parse, and with which cursors? Hooks, recording actions and traces leave
events; most rules are tried and many flags are set without leaving any. To see them all, a grammar is
rewritten: `Rule.announced` puts a call around every rule in it and a recording action beside every action
that sets a flag. The additional events carry no label, and those of the grammar itself keep theirs.

* `Store.Announces` relates the stores of the two runs: the trail of the one is what the other has on its
  trail with a label (`Event.own?`), and what has been added is disciplined.
* `Rule.announced_denote` follows the two runs side by side, for each form of rules.

`Rule.callbacks_disciplined` is what comes out: in every window, a run and its announced run end alike, and
both trails are disciplined.
-/

namespace Pegwork

variable {κ α β γ : Type}

/-! ## Rewriting a grammar -/

/-- The rule with all its parts announced: a call without a label stands around every rule, and an action that
sets a flag comes with one that records. -/
def Rule.announced : Rule α β γ → Rule α (Option β) γ
  | empty => call empty none
  | any => call any none
  | element a => call (element a) none
  | token t => call (token t) none
  | literal text => call (literal text) none
  | elements as => call (elements as) none
  | satisfy p => call (satisfy p) none
  | run p min max => call (run p min max) none
  | probe flag => call (probe flag) none
  | constant value => call (constant value) none
  | identifier => call identifier none
  | ending => call ending none
  | advance count => call (advance count) none
  | image word => call (image word) none
  | readWord name => call (readWord name) none
  | readArray name => call (readArray name) none
  | readSequence name min max => call (readSequence name min max) none
  | seq a b => call (seq a.announced b.announced) none
  | choice a b => call (choice a.announced b.announced) none
  | exclusive a b => call (exclusive a.announced b.announced) none
  | negation a => call (negation a.announced) none
  | optional a => call (optional a.announced) none
  | repetition item separator bounds => call (repetition item.announced separator.announced bounds) none
  | find a => call (find a.announced) none
  | select a b c => call (select a.announced b.announced c.announced) none
  | lookahead a => call (lookahead a.announced) none
  | onFailure a label => call (onFailure a.announced (some label)) none
  | onSuccess a (.record label) => call (onSuccess a.announced (.record (some label))) none
  | onSuccess a (.setFlag flag value) =>
    call (onSuccess (onSuccess a.announced (.record none)) (.setFlag flag value)) none
  | traced a name => call (traced a.announced name) none
  | boxed a => call (boxed a.announced) none
  | reference a => call (reference a.announced) none
  | cell key => call (cell key) none
  | owned key => call (owned key) none
  | call a label => call (call a.announced (some label)) none
  | foreign f => call (foreign f) none

/-- What has become of a cell, with its definition announced. -/
def Life.announced : Life α β γ → Life α (Option β) γ
  | undefined => undefined
  | defined rule => defined rule.announced
  | dropped => dropped

/-- The cell with its definition announced. -/
def Cell.announced (c : Cell α β γ) : Cell α (Option β) γ := { c with life := c.life.announced }

/-- The cells with all definitions announced. -/
def Cells.announced (cells : Cells α β γ) : Cells α (Option β) γ := cells.map fun e => (e.1, e.2.announced)

theorem Cells.get_announced (cells : Cells α β γ) (key : String) :
    cells.announced.get key = (cells.get key).announced := by
  induction cells with
  | nil => rfl
  | cons entry cells ih =>
    obtain ⟨first, c⟩ := entry
    simp only [get, announced, List.map_cons, List.lookup_cons] at ih ⊢
    cases key == first with
    | true => rfl
    | false => exact ih

/-! ## Events with and without a label -/

/-- The event as the grammar itself leaves it, unless it is an announcement. -/
def Event.own? : Event κ (Option β) → Option (Event κ β)
  | .action label start position => label.map fun label => .action label start position
  | .failure label start limit => label.map fun label => .failure label start limit
  | .probe flag value => some (.probe flag value)
  | .call label start limit => label.map fun label => .call label start limit
  | .entered name start => some (.entered name start)
  | .matched name start position => some (.matched name start position)
  | .failed name start => some (.failed name start)
  | .warning cause => some (.warning cause)

section Cursor

variable [Cursor κ α]

namespace Event

theorem traces_own {e : Event κ (Option β)} {own : Event κ β} (h : e.own? = some own) :
    own.traces = e.traces := by
  cases e with
  | action label | failure label | call label =>
    obtain ⟨label, -, rfl⟩ := Option.map_eq_some_iff.1 h
    rfl
  | probe | entered | matched | failed | warning =>
    cases h
    rfl

theorem Within.own [Track κ α] {w : Window α} {e : Event κ (Option β)} {own : Event κ β} (he : e.Within w)
    (h : e.own? = some own) : own.Within w := by
  cases he with
  | action label hxy hy =>
    obtain ⟨label, -, rfl⟩ := Option.map_eq_some_iff.1 h
    exact .action label hxy hy
  | failure label hx =>
    obtain ⟨label, -, rfl⟩ := Option.map_eq_some_iff.1 h
    exact .failure label hx
  | call label hx =>
    obtain ⟨label, -, rfl⟩ := Option.map_eq_some_iff.1 h
    exact .call label hx
  | probe flag value => cases h; exact .probe flag value
  | entered name hx => cases h; exact .entered name hx
  | matched name hxy hy => cases h; exact .matched name hxy hy
  | failed name hx => cases h; exact .failed name hx
  | warning cause => cases h; exact .warning cause

/-- Announcements leave no trace, so traces stay nested without them. -/
theorem Nested.own {events : List (Event κ (Option β))} (h : Nested events) :
    Nested (events.filterMap own?) := by
  induction h with
  | nil => exact .nil
  | @other e rest htraces _ ih =>
    -- An announcement goes; any other event stays, without a trace as before.
    cases hown : e.own? with
    | none => rwa [List.filterMap_cons_none hown]
    | some own =>
      rw [List.filterMap_cons_some hown]
      exact .other ((traces_own hown).trans htraces) ih
  | matched name start position _ _ hinside hrest =>
    rw [List.filterMap_cons, List.filterMap_append, List.filterMap_cons]
    exact .matched name start position hinside hrest
  | failed name start _ _ hinside hrest =>
    rw [List.filterMap_cons, List.filterMap_append, List.filterMap_cons]
    exact .failed name start hinside hrest

end Event

variable [Track κ α]

theorem Window.Disciplined.own {w : Window α} {all : List (Event κ (Option β))} (h : w.Disciplined all) :
    w.Disciplined (all.filterMap Event.own?) := by
  constructor
  · intro e he
    obtain ⟨announced, hmem, hown⟩ := List.mem_filterMap.1 he
    exact (h.within announced hmem).own hown
  · rw [← List.filterMap_reverse]
    exact h.nested.own

/-! ## Stores -/

/-- Two stores with the same flags and the same variables. Since the stores `old` and `old'` the second has
gathered events with announcements, and the first the same events without. -/
structure Store.Announces (w : Window α) (old : Store κ β) (old' : Store κ (Option β)) (s : Store κ β)
    (t : Store κ (Option β)) : Prop where
  raised_eq : s.raised = t.raised
  memory_eq : s.memory = t.memory
  trail : ∃ all, t.trail = all ++ old'.trail ∧ s.trail = all.filterMap Event.own? ++ old.trail ∧
    w.Disciplined all

namespace Store

variable {w : Window α} {old s : Store κ β} {old' t : Store κ (Option β)}

theorem announces_refl (hraised : old.raised = old'.raised) (hmemory : old.memory = old'.memory) :
    Announces w old old' old old' :=
  ⟨hraised, hmemory, [], rfl, rfl, .nil⟩

/-- An event of the grammar itself is recorded on both sides. -/
theorem Announces.record (h : Announces w old old' s t) {e : Event κ (Option β)} {own : Event κ β}
    (hown : e.own? = some own) (hwithin : e.Within w) (htraces : e.traces = false) :
    Announces w old old' (s.record own) (t.record e) := by
  obtain ⟨all, ht, hs, hall⟩ := h.trail
  refine ⟨h.raised_eq, h.memory_eq, e :: all, ?_, ?_, hall.cons hwithin htraces⟩
  · rw [Store.record, ht, List.cons_append]
  · rw [Store.record, hs, List.filterMap_cons_some hown, List.cons_append]

/-- An announcement is recorded on one side only. -/
theorem Announces.record_right (h : Announces w old old' s t) {e : Event κ (Option β)}
    (hown : e.own? = none) (hwithin : e.Within w) (htraces : e.traces = false) :
    Announces w old old' s (t.record e) := by
  obtain ⟨all, ht, hs, hall⟩ := h.trail
  refine ⟨h.raised_eq, h.memory_eq, e :: all, ?_, ?_, hall.cons hwithin htraces⟩
  · rw [Store.record, ht, List.cons_append]
  · rw [hs, List.filterMap_cons_none hown]

theorem mirrors_announces : Mirrors (Announces w old old') where
  raised_eq h := h.raised_eq
  memory_eq h := h.memory_eq
  setFlag _ _ h := ⟨by simp only [Store.setFlag, h.raised_eq], h.memory_eq, h.trail⟩
  setVariable _ _ h := ⟨h.raised_eq, by simp only [Store.setVariable, h.memory_eq], h.trail⟩
  probe flag value h := h.record rfl (.probe flag value) rfl
  warning cause h := h.record rfl (.warning cause) rfl

/-- A traced rule: what happened inside it since the entry goes between the entry and the record that closes
it. -/
theorem Announces.traced (h : Announces w old old' s t) {name : String} {x : Nat} {m : Match κ}
    {u : Store κ β} {u' : Store κ (Option β)} (hx : x ≤ w.length)
    (hinside : Announces w (s.record (.entered name (w.cursor x))) (t.record (.entered name (w.cursor x)))
      u u')
    (hstart : m.matched = true → m.start = w.cursor x)
    (hposition : m.matched = true → ∃ y, x ≤ y ∧ y ≤ w.length ∧ m.position = w.cursor y) :
    Announces w old old' (u.record (Event.closing name (w.cursor x) m))
      (u'.record (Event.closing name (w.cursor x) m)) := by
  obtain ⟨all, ht, hs, hall⟩ := h.trail
  obtain ⟨inside, hu', hu, hinner⟩ := hinside.trail
  refine ⟨hinside.raised_eq, hinside.memory_eq, _, ?_, ?_, hall.traced hinner name hx hstart hposition⟩
  · simp only [Store.record, hu', ht, List.cons_append, List.append_assoc]
  · have hclosing : (Event.closing name (w.cursor x) m : Event κ (Option β)).own? =
        some (Event.closing name (w.cursor x) m) := by
      unfold Event.closing
      split
      · rfl
      · rfl
    have hentered : (Event.entered name (w.cursor x) : Event κ (Option β)).own? =
        some (Event.entered name (w.cursor x)) := rfl
    rw [List.filterMap_cons_some hclosing, List.filterMap_append, List.filterMap_cons_some hentered]
    simp only [Store.record, hu, hs, List.cons_append, List.append_assoc]

end Store

/-! ## Recognizers -/

open Recognizer Run

namespace Meaning

section Emit

variable {w : Window α} {old : Store κ β} {old' : Store κ (Option β)} {H : Halt → Prop}

theorem announced_emit {e : Event κ (Option β)} {own : Event κ β} (hown : e.own? = some own)
    (hwithin : e.Within w) (htraces : e.traces = false) :
    Paired (Store.Announces w old old') H (fun _ _ => True) (emit own) (emit e) :=
  paired_modify fun _ _ h => h.record hown hwithin htraces

/-- An announcement is one more step of the second run. -/
theorem announced_emit_right {e : Event κ (Option β)} (hown : e.own? = none) (hwithin : e.Within w)
    (htraces : e.traces = false) {τ υ : Type} {V : τ → υ → Prop} {x : Run (Store κ β) τ}
    {y : Run (Store κ (Option β)) υ} (h : Paired (Store.Announces w old old') H V x y) :
    Paired (Store.Announces w old old') H V x (emit e >>= fun _ => y) :=
  fun s t hst => h s (t.record e) (hst.record_right hown hwithin htraces)

end Emit

variable [Steps κ α] {w : Window α} {hfits : Steps.Fits κ w.data}

/-- In the window the second of two rules does what the first does and announces it, whatever is on the
trails already. -/
def Announced (w : Window α) (hfits : Steps.Fits κ w.data) (a : Meaning κ β) (a' : Meaning κ (Option β)) :
    Prop :=
  ∀ old old', Recognizer.Alike (Twin.self w hfits) (Store.Announces w old old') (fun _ => True) 0 0 a a'

/-- The start and the end of a part of the window that reaches to its end. -/
def Offered (w : Window α) (i j : κ) : Prop := ∃ x, x ≤ w.length ∧ i = w.cursor x ∧ j = w.limit

/-- A match says where the rule was started. -/
def NamesStart (i : κ) (m : Match κ) : Prop := m.matched = true → m.start = i

variable {a : Meaning κ β} {a' : Meaning κ (Option β)}

theorem announced_ofTerminal {n : Nat} {t : Terminal κ} (ht : Terminal.Alike (Twin.self w hfits) n t t) :
    Announced w hfits (ofTerminal t : Meaning κ β) (ofTerminal t) :=
  fun _ _ => (alike_ofTerminal ht).mono (Nat.le_refl 0) (Nat.zero_le n)

/-- Calling a rule is announced with the range that is offered to it. -/
theorem Announced.call (ha : Announced w hfits a a') :
    Announced w hfits a (a'.observed (fun i j => emit (.call none i j)) fun _ _ => pure ()) := by
  intro old old' y hy hlength
  have hbody : Paired (Store.Announces w old old') (fun _ => True)
      (Match.Alike (Twin.self w hfits) (y + 0)) (a (w.cursor y) w.limit)
      (a' (w.cursor y) w.limit >>= fun m => pure () >>= fun _ => pure m) := by
    simp only [pure_bind, bind_pure]
    exact ha old old' y hy hlength
  exact announced_emit_right rfl (.call none hlength) rfl hbody

theorem Announced.labelled (ha : Announced w hfits a a') (label : β) :
    Announced w hfits (a.observed (fun i j => emit (.call label i j)) fun _ _ => pure ())
      (a'.observed (fun i j => emit (.call (some label) i j)) fun _ _ => pure ()) :=
  fun old old' => (ha old old').observed
    (fun _ hlength => announced_emit rfl (.call (some label) hlength) rfl)
    fun _ _ _ _ _ => paired_pure trivial

theorem Announced.hook (ha : Announced w hfits a a') (label : β) :
    Announced w hfits (a.onFailure (Meaning.hook label)) (a'.onFailure (Meaning.hook (some label))) :=
  fun old old' => (ha old old').onFailure
    fun _ hlength => announced_emit rfl (.failure (some label) hlength) rfl

theorem Announced.record (ha : Announced w hfits a a') (label : β) :
    Announced w hfits (a.onSuccess (perform (.record label)))
      (a'.onSuccess (perform (.record (some label)))) := by
  refine fun old old' => (ha old old').onSuccess ?_
  rintro y _ _ hlength ⟨z, hyz, hz, rfl, rfl⟩
  exact announced_emit rfl (.action (some label) hyz hz) rfl

/-- Two actions on one rule are one action. -/
theorem onSuccess_onSuccess {σ : Type} (a : Recognizer κ σ) (first second : κ → κ → Run σ Unit) :
    (a.onSuccess first).onSuccess second =
      a.onSuccess fun i position => first i position >>= fun _ => second i position := by
  funext i j
  simp only [onSuccess, bind_assoc]
  congr 1
  funext m
  cases hm : m.matched with
  | true => simp [hm, Match.restart]
  | false => simp [hm, Match.restart]

theorem Announced.setFlag (ha : Announced w hfits a a') (flag : String) (value : Bool) :
    Announced w hfits (a.onSuccess (perform (.setFlag flag value)))
      ((a'.onSuccess (perform (.record none))).onSuccess (perform (.setFlag flag value))) := by
  rw [onSuccess_onSuccess]
  refine fun old old' => (ha old old').onSuccess ?_
  rintro y _ _ hlength ⟨z, hyz, hz, rfl, rfl⟩
  refine announced_emit_right rfl (.action none hyz hz) rfl ?_
  exact paired_setFlag Store.mirrors_announces flag value _ _ _ _

/-- A traced rule runs between its entry and the record that closes it. -/
theorem ends_traced {a : Meaning κ β} {name : String} {i j : κ} {s t : Store κ β} {m : Match κ} :
    (Meaning.traced a name i j).Ends s m t ↔
      ∃ u, (a i j).Ends (s.record (.entered name i)) m u ∧ t = u.record (Event.closing name i m) := by
  rw [Meaning.traced, ends_observed]
  constructor
  · rintro ⟨_, u, hentered, ha, hclosed⟩
    obtain rfl := ends_modify.1 hentered
    exact ⟨u, ha, (ends_modify.1 hclosed).symm⟩
  · rintro ⟨u, ha, rfl⟩
    exact ⟨_, u, ends_modify.2 rfl, ha, ends_modify.2 rfl⟩

/-- The trace of a rule is nested if the events inside it are, as long as its matches name their start. -/
theorem Announced.traced (ha : Announced w hfits a a') (hstart : a.Yields (Offered w) NamesStart)
    (name : String) : Announced w hfits (Meaning.traced a name) (Meaning.traced a' name) := by
  intro old old' y hy hlength s t hst
  have hinside := ha (s.record (.entered name (w.cursor y))) (t.record (.entered name (w.cursor y))) y hy
    hlength _ _ (Store.announces_refl hst.raised_eq hst.memory_eq)
  rcases hinside with ⟨m, m', u, u', hend, hend', hm, hu⟩ | ⟨h, u, u', hhalt, hhalt', -⟩
  · obtain rfl := hm.eq_of_self
    refine .inl ⟨m, m, _, _, ends_traced.2 ⟨u, hend, rfl⟩, ends_traced.2 ⟨u', hend', rfl⟩, hm, ?_⟩
    refine hst.traced hlength hu (hstart _ _ ⟨y, hlength, rfl, rfl⟩ _ m u hend) fun hmatched => ?_
    obtain ⟨z, hyz, hz, hposition, -⟩ := hm.level hmatched
    exact ⟨z, hyz, hz, hposition⟩
  · exact .inr ⟨h, u, u', hhalt.bind _, hhalt'.bind _, trivial⟩

end Meaning

/-! ## Rules -/

variable [Steps κ α] {w : Window α} {hfits : Steps.Fits κ w.data}

/-- A handle announces what the definition behind it does. -/
theorem Cells.announced_handle {cells : Cells α β γ} {define : Rule α β γ → Meaning κ β}
    {define' : Rule α (Option β) γ → Meaning κ (Option β)} (key : String)
    (hdefine : ∀ rule, (cells.get key).life = .defined rule →
      Meaning.Announced w hfits (define rule) (define' rule.announced)) :
    Meaning.Announced w hfits (cells.handle define key) (cells.announced.handle define' key) := by
  cases hlife : (cells.get key).life with
  | undefined =>
    simp only [Cells.handle, get_announced, Cell.announced, hlife, Life.announced]
    exact fun _ _ => Meaning.alike_warn Store.mirrors_announces _
  | defined rule =>
    simp only [Cells.handle, get_announced, Cell.announced, hlife, Life.announced]
    exact hdefine rule hlife
  | dropped =>
    simp only [Cells.handle, get_announced, Cell.announced, hlife, Life.announced]
    exact fun _ _ => Meaning.alike_warn Store.mirrors_announces _

/-- What shows through a rule is mentioned in it. -/
theorem Rule.Shows.mentions {cells : Cells α β γ} {rule : Rule α β γ} {f : γ} (h : Shows cells rule f) :
    Mentions cells rule f := by
  induction h with
  | foreign f => exact .inl (List.mem_singleton_self f)
  | traced _ _ ih | boxed _ ih | reference _ ih | call _ _ ih => exact ih
  | cell key hlife _ ih | owned key hlife _ ih =>
    rcases ih with hf | hf
    · exact .inr ⟨key, _, hlife, hf⟩
    · exact .inr hf

namespace Rule

variable [Element α] [DecidableEq α] {foreign : γ → κ → κ → Match κ}

open Meaning

/-- The foreign rule stays in the window, and its matches name their start. -/
def Behaves (w : Window α) (f : κ → κ → Match κ) : Prop :=
  w.Keeps f ∧ ∀ i j, Offered w i j → NamesStart i (f i j)

theorem namesStart_of_settled (i : κ) (m : Match κ) (h : m.Settled i) : NamesStart i m :=
  fun _ => h.start_eq

/-- **One level of handles.** The announced rule does what the rule does and announces it, if the handles
do. -/
theorem announced_denote (rule : Rule α β γ) (hforeign : ∀ f ∈ rule.foreigns, Behaves w (foreign f))
    {handle : String → Meaning κ β} {handle' : String → Meaning κ (Option β)}
    (hhandle : ∀ key, Announced w hfits (handle key) (handle' key))
    (hstarts : ∀ key, (handle key).Yields (Offered w) NamesStart) :
    Announced w hfits (rule.denote foreign handle) (rule.announced.denote foreign handle') := by
  -- The record that closes a trace has the start that a match names, so all parts have to name it.
  have hdenote : ∀ rule : Rule α β γ, (∀ f ∈ rule.foreigns, Behaves w (foreign f)) →
      (rule.denote foreign handle).Yields (Offered w) NamesStart := by
    intro rule hforeign
    have hshown : ShowsYielding (Offered w) NamesStart foreign [] rule := by
      intro f hshows
      rcases hshows.mentions with hf | ⟨_, _, hlife, -⟩
      · exact (hforeign f hf).2
      · cases hlife
    exact yields_denote namesStart_of_settled (fun key _ => hstarts key) (fun key _ => hstarts key) rule
      hshown
  induction rule with
  | empty => exact (announced_ofTerminal (Terminal.alike_constant fun _ => rfl)).call
  | any => exact (announced_ofTerminal (Terminal.alike_satisfy _)).call
  | element a => exact (announced_ofTerminal (Terminal.alike_satisfy _)).call
  | token t => exact (announced_ofTerminal (Terminal.alike_satisfy _)).call
  | literal text => exact (announced_ofTerminal (Terminal.alike_literal _)).call
  | elements as => exact (announced_ofTerminal (Terminal.alike_literal _)).call
  | satisfy p => exact (announced_ofTerminal (Terminal.alike_satisfy p)).call
  | run p min max => exact (announced_ofTerminal (Terminal.alike_run p min max)).call
  | probe flag => exact Announced.call fun _ _ => alike_probe Store.mirrors_announces flag
  | constant value => exact (announced_ofTerminal (Terminal.alike_constant fun _ => rfl)).call
  | identifier => exact (announced_ofTerminal Terminal.alike_identifier).call
  | ending => exact (announced_ofTerminal Terminal.alike_ending).call
  | advance count => exact (announced_ofTerminal (Terminal.alike_advance count)).call
  | image word => exact (announced_ofTerminal (Terminal.alike_literal _)).call
  | readWord name => exact Announced.call fun _ _ => alike_readWord Store.mirrors_announces name
  | readArray name => exact Announced.call fun _ _ => alike_readArray Store.mirrors_announces name
  | readSequence name min max =>
    refine Announced.call fun _ _ => ?_
    exact (alike_readSequence Store.mirrors_announces name min max).mono (Nat.le_refl 0) (Nat.zero_le min)
  | seq a b iha ihb =>
    have ha := iha fun f hf => hforeign f (List.mem_append_left _ hf)
    have hb := ihb fun f hf => hforeign f (List.mem_append_right _ hf)
    exact Announced.call fun old old' => (ha old old').seq (hb old old')
  | choice a b iha ihb =>
    have ha := iha fun f hf => hforeign f (List.mem_append_left _ hf)
    have hb := ihb fun f hf => hforeign f (List.mem_append_right _ hf)
    exact Announced.call fun old old' => (ha old old').choice (hb old old')
  | exclusive a b iha ihb =>
    have ha := iha fun f hf => hforeign f (List.mem_append_left _ hf)
    have hb := ihb fun f hf => hforeign f (List.mem_append_right _ hf)
    exact Announced.call fun old old' => (ha old old').exclusive (hb old old')
  | negation a ih => exact Announced.call fun old old' => (ih hforeign old old').negation
  | optional a ih => exact Announced.call fun old old' => (ih hforeign old old').optional
  | repetition item separator bounds ihitem ihseparator =>
    have hitem := ihitem fun f hf => hforeign f (List.mem_append_left _ hf)
    have hseparator := ihseparator fun f hf => hforeign f (List.mem_append_right _ hf)
    refine Announced.call fun old old' => ?_
    exact Alike.repetition (fun _ => hitem old old') (fun _ => hseparator old old') (Nat.le_refl 0)
      fun _ => rfl
  | find a ih => exact Announced.call fun old old' => (ih hforeign old old').find
  | select a b c iha ihb ihc =>
    have ha := iha fun f hf => hforeign f (by simp [foreigns, hf])
    have hb := ihb fun f hf => hforeign f (by simp [foreigns, hf])
    have hc := ihc fun f hf => hforeign f (by simp [foreigns, hf])
    exact Announced.call fun old old' =>
      (ha old old').select (hb old old') (hc old old') (Nat.le_refl 0)
  | lookahead a ih => exact Announced.call fun old old' => (ih hforeign old old').lookahead
  | onFailure a label ih => exact ((ih hforeign).hook label).call
  | onSuccess a effect ih =>
    cases effect with
    | record label => exact ((ih hforeign).record label).call
    -- Setting a flag leaves no event, so here the announced rule has an action of its own.
    | setFlag flag value => exact ((ih hforeign).setFlag flag value).call
  | traced a name ih => exact ((ih hforeign).traced (hdenote a hforeign) name).call
  | boxed a ih => exact (ih hforeign).call
  | reference a ih => exact (ih hforeign).call
  | cell key => exact (hhandle key).call
  | owned key => exact (hhandle key).call
  | call a label ih => exact ((ih hforeign).labelled label).call
  | foreign f =>
    have hf := hforeign f (List.mem_singleton_self f)
    exact Announced.call fun _ _ => hf.1.alike hfits

/-- Handles inside handles, to any depth. -/
theorem announced_parse {cells : Cells α β γ} (depth : Nat) (rule : Rule α β γ)
    (hforeign : ∀ f, Mentions cells rule f → Behaves w (foreign f)) :
    Announced w hfits (rule.parse foreign cells depth)
      (rule.announced.parse foreign cells.announced depth) := by
  induction depth generalizing rule with
  | zero =>
    refine announced_denote rule (fun f hf => hforeign f (.inl hf)) (fun key => ?_) fun key => ?_
    · exact Cells.announced_handle key fun _ _ _ _ _ _ _ => paired_throw trivial
    · exact Cells.yields_handle namesStart_of_settled fun _ _ _ _ _ _ _ _ hend =>
        absurd hend not_ends_throw
  | succ depth ih =>
    have hdefinition : ∀ key definition, (cells.get key).life = .defined definition →
        ∀ f, Mentions cells definition f → Behaves w (foreign f) := by
      intro key definition hlife f hf
      rcases hf with hf | hf
      · exact hforeign f (.inr ⟨key, definition, hlife, hf⟩)
      · exact hforeign f (.inr hf)
    refine announced_denote rule (fun f hf => hforeign f (.inl hf)) (fun key => ?_) fun key => ?_
    · exact Cells.announced_handle key fun definition hlife => ih definition (hdefinition key definition hlife)
    · refine Cells.yields_handle namesStart_of_settled fun definition hlife => ?_
      exact yields_parse namesStart_of_settled foreign cells depth definition
        fun f hshows => (hdefinition key definition hlife f hshows.mentions).2

/-- A run that ends has an announced run that ends alike, and both trails are disciplined. -/
theorem ends_announced (hfits : Steps.Fits κ w.data) {cells : Cells α β γ} {depth : Nat} {rule : Rule α β γ}
    (hforeign : ∀ f, Mentions cells rule f → Behaves w (foreign f)) {before after : Store κ β} {m : Match κ}
    (hend : (rule.parse foreign cells depth (w.cursor 0) w.limit).Ends before m after) :
    ∃ announced : Store κ (Option β),
      (rule.announced.parse foreign cells.announced depth (w.cursor 0) w.limit).Ends
        ⟨before.raised, before.memory, []⟩ m announced ∧
      announced.raised = after.raised ∧ announced.memory = after.memory ∧
      after.trail = announced.trail.filterMap Event.own? ++ before.trail ∧
      w.Disciplined announced.trail := by
  have hannounced : Announced w hfits _ _ := announced_parse depth rule hforeign
  -- The announced run starts with nothing on its trail, so that all it leaves is what has been added.
  have hruns := hannounced before ⟨before.raised, before.memory, []⟩ 0 (Nat.le_refl 0) (Nat.zero_le _) _ _
    (Store.announces_refl rfl rfl)
  rcases hruns with ⟨m₁, m', u, announced, hend₁, hend', hm, hu⟩ | ⟨h, u, u', hhalt, -, -⟩
  · obtain ⟨rfl, rfl⟩ := hend.unique hend₁
    obtain rfl := hm.eq_of_self
    obtain ⟨all, htrail, hown, hall⟩ := hu.trail
    rw [List.append_nil] at htrail
    subst htrail
    exact ⟨announced, hend', hu.raised_eq.symm, hu.memory_eq.symm, hown, hall⟩
  · exact absurd hend (not_ends_of_halts hhalt)

/-- **Callbacks and traces are disciplined.** Foreign rules stay in the window, and their matches name their
start. Then a run that ends has added only such events to the trail: actions with a start and a position
behind it in the window, failure hooks and calls with a start in the window and its end as the limit, and
traces that are nested, each closed by one record of the same name and place. The same holds of all rules
that are tried on the way and of the actions that leave no event: the announced run, which shows them, ends
alike and differs by the announcements only. What a traced rule adds are the events of the rule inside,
between its entry and the record that closes it. -/
theorem callbacks_disciplined (foreign : γ → κ → κ → Match κ) (cells : Cells α β γ) (depth : Nat)
    (w : Window α) (hfits : Steps.Fits κ w.data) {rule : Rule α β γ}
    (hforeign : ∀ f, Mentions cells rule f → Behaves w (foreign f)) {before after : Store κ β} {m : Match κ}
    (hend : (rule.parse foreign cells depth (w.cursor 0) w.limit).Ends before m after) :
    (∃ new, after.trail = new ++ before.trail ∧ w.Disciplined new ∧
      ∃ announced : Store κ (Option β),
        (rule.announced.parse foreign cells.announced depth (w.cursor 0) w.limit).Ends
          ⟨before.raised, before.memory, []⟩ m announced ∧
        announced.raised = after.raised ∧ announced.memory = after.memory ∧
        announced.trail.filterMap Event.own? = new ∧ w.Disciplined announced.trail) ∧
    ∀ part name, rule = .traced part name → ∃ inside closed,
      (part.parse foreign cells depth (w.cursor 0) w.limit).Ends
        (before.record (.entered name (w.cursor 0))) m closed ∧
      closed.trail = inside ++ .entered name (w.cursor 0) :: before.trail ∧ w.Disciplined inside ∧
      after.trail = (if m.matched then .matched name (w.cursor 0) m.position
        else .failed name (w.cursor 0)) :: closed.trail := by
  constructor
  · obtain ⟨announced, hend', hraised, hmemory, htrail, hall⟩ := ends_announced hfits hforeign hend
    exact ⟨_, htrail, hall.own, announced, hend', hraised, hmemory, rfl, hall⟩
  · rintro part name rfl
    have hpart : ∀ f, Mentions cells part f → Behaves w (foreign f) := hforeign
    have htraced : ((part.traced name).parse foreign cells depth : Meaning κ β) =
        Meaning.traced (part.parse foreign cells depth) name := by
      simp only [parse_eq]
      rfl
    rw [htraced] at hend
    obtain ⟨closed, hinside, rfl⟩ := ends_traced.1 hend
    obtain ⟨announced, -, -, -, htrail, hall⟩ := ends_announced hfits hpart hinside
    refine ⟨_, closed, hinside, htrail, hall.own, ?_⟩
    have hstart : NamesStart (w.cursor 0) m :=
      yields_parse namesStart_of_settled foreign cells depth part
        (fun f hshows => (hpart f hshows.mentions).2) _ _ ⟨0, Nat.zero_le _, rfl, rfl⟩ _ _ _ hinside
    cases hm : m.matched with
    | true => simp [Store.record, Event.closing, hm, hstart hm]
    | false => simp [Store.record, Event.closing, hm]

/-- Two tokens between parentheses. The foreign rule takes the first and sets a flag; the second is not the one
that is asked for, so a hook is called. The run leaves eight events, and the announced run leaves ten calls
and an action more. -/
theorem callbacks_disciplined_nested :
    let foreign (_ : Unit) (i j : SliceCursor Char) : Match (SliceCursor Char) :=
      match Cursor.next i j with
      | .ok (some (_, next)) => .success i next
      | _ => .failure i
    let first : Rule Char String Unit := .traced (.onSuccess (.foreign ()) (.setFlag "seen" true)) "first"
    let two : Rule Char String Unit := .traced (.onFailure (.element '2') "no two") "two"
    let both : Rule Char String Unit := .onSuccess (.seq first (.optional two)) (.record "both")
    let rule : Rule Char String Unit := .traced both "all"
    let w : Window Char := .between 0 ['(', '1', 'é', ')'] (i := 1) (j := 3) (by decide) (by decide)
    ∃ (after : Store (SliceCursor Char) String) (announced : Store (SliceCursor Char) (Option String)),
      Steps.Fits (SliceCursor Char) w.data ∧ (∀ f, Mentions [] rule f → Behaves w (foreign f)) ∧
      (rule.parse foreign [] 0 (w.cursor 0) w.limit).Ends {} (.success (w.cursor 0) (w.cursor 1)) after ∧
      (rule.announced.parse foreign [] 0 (w.cursor 0) w.limit).Ends {}
        (.success (w.cursor 0) (w.cursor 1)) announced ∧
      w.Disciplined after.trail ∧ w.Disciplined announced.trail ∧
      after.trail.length = 8 ∧ announced.trail.length = 19 := by
  intro foreign first two both rule w
  have hfits : Steps.Fits (SliceCursor Char) w.data := by
    show 4 < Size.bound
    decide
  have hbehaves : ∀ f, Mentions [] rule f → Behaves w (foreign f) := by
    refine fun f _ => ⟨fun x hx hmatched => ?_, ?_⟩
    · have hx : x ≤ 2 := hx
      interval_cases x
      · exact ⟨1, by decide, by decide, rfl⟩
      · exact ⟨2, by decide, by decide, rfl⟩
      · cases hmatched
    · rintro _ _ ⟨x, hx, rfl, rfl⟩ hmatched
      have hx : x ≤ 2 := hx
      interval_cases x <;> rfl
  -- Both runs are evaluated; that their trails are disciplined comes from the theorem.
  have hend : ∃ after, (rule.parse foreign [] 0 (w.cursor 0) w.limit).Ends {}
      (.success (w.cursor 0) (w.cursor 1)) after ∧ after.trail.length = 8 := ⟨_, rfl, rfl⟩
  have hends : ∃ announced, (rule.announced.parse foreign [] 0 (w.cursor 0) w.limit).Ends {}
      (.success (w.cursor 0) (w.cursor 1)) announced ∧ announced.trail.length = 19 := ⟨_, rfl, rfl⟩
  obtain ⟨after, hend, hlength⟩ := hend
  obtain ⟨announced, hends, hlengths⟩ := hends
  obtain ⟨⟨_, htrail, hall, _, hunique, -, -, -, hannounced⟩, -⟩ :=
    callbacks_disciplined foreign [] 0 w hfits hbehaves hend
  obtain ⟨-, rfl⟩ := hunique.unique hends
  rw [List.append_nil] at htrail
  subst htrail
  exact ⟨after, _, hfits, hbehaves, hend, hends, hall, hannounced, hlength, hlengths⟩

end Rule

end Cursor

end Pegwork
