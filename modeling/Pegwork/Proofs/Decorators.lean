import Pegwork.Proofs.Congruence
import Pegwork.Proofs.Contract
import Pegwork.Proofs.Mirror

/-!
# Decorators only observe

Traces, boxes, references, failure hooks and recording actions stand around a rule without having a say in
its outcome. If some of them are removed, anywhere in a grammar, a parse gives the same outcome, the same
flags and variables and the same events, but for those of the removed decorators.

To say which events these are, both grammars are taken as images of one *plan*: a grammar in which every
decorator may have a label of its own. An `Edit` says how the labels of the plan appear in the events and
which decorators go; `Rule.Edited` relates a plan to what is made of it. A run of the plan and a run of its
image are then followed side by side. What hooks and actions of a removed decorator would restate is
what the rule inside has answered already, as long as that keeps the contract of outcomes.
-/

namespace Pegwork

variable {κ α β β' γ : Type}

open Recognizer Run

/-! ## Edits -/

/-- What is made of the decorators of a plan. -/
structure Edit (β β' : Type) where
  /-- How the label of a hook, an action or a call appears in the events. -/
  label : β → β'
  /-- How the name of a trace appears in the events. -/
  name : String → String
  /-- Whether the hooks and actions of a label are removed. -/
  removesLabel : β → Bool
  /-- Whether the traces of a name are removed. -/
  removesName : String → Bool

namespace Edit

/-- The same labels and names, with all hooks, actions and traces kept. -/
def keepAll (e : Edit β β') : Edit β β' :=
  { e with removesLabel := fun _ => false, removesName := fun _ => false }

/-- How an event of the plan appears. -/
def event (e : Edit β β') : Event κ β → Event κ β'
  | .action label start position => .action (e.label label) start position
  | .failure label start limit => .failure (e.label label) start limit
  | .probe flag value => .probe flag value
  | .call label start limit => .call (e.label label) start limit
  | .entered name start => .entered (e.name name) start
  | .matched name start position => .matched (e.name name) start position
  | .failed name start => .failed (e.name name) start
  | .warning cause => .warning cause

/-- Whether an event is one of a removed decorator. Probes, calls and warnings always remain. -/
def removes (e : Edit β β') : Event κ β → Bool
  | .action label _ _ => e.removesLabel label
  | .failure label _ _ => e.removesLabel label
  | .probe _ _ => false
  | .call _ _ _ => false
  | .entered name _ => e.removesName name
  | .matched name _ _ => e.removesName name
  | .failed name _ => e.removesName name
  | .warning _ => false

/-- What remains of a list of events of the plan. -/
def events (e : Edit β β') (new : List (Event κ β)) : List (Event κ β') :=
  (new.filter fun event => !e.removes event).map e.event

theorem removes_keepAll (e : Edit β β') (event : Event κ β) : e.keepAll.removes event = false := by
  cases event <;> rfl

theorem events_keepAll (e : Edit β β') (new : List (Event κ β)) :
    e.keepAll.events new = new.map e.event := by
  have hall : (new.filter fun event => !e.keepAll.removes event) = new := by
    simp [removes_keepAll]
  rw [events, hall]
  apply List.map_congr_left
  intro event _
  cases event <;> rfl

end Edit

/-- The second rule is made of the first by an edit. Boxes and references go or stay as one likes;
actions that put a flag up or down always stay. -/
inductive Rule.Edited (e : Edit β β') : Rule α β γ → Rule α β' γ → Prop where
  | empty : Edited e .empty .empty
  | any : Edited e .any .any
  | element (a : α) : Edited e (.element a) (.element a)
  | token (t : Token α) : Edited e (.token t) (.token t)
  | literal (text : String) : Edited e (.literal text) (.literal text)
  | elements (as : List α) : Edited e (.elements as) (.elements as)
  | satisfy (p : α → Bool) : Edited e (.satisfy p) (.satisfy p)
  | run (p : α → Bool) (min max : Nat) : Edited e (.run p min max) (.run p min max)
  | probe (flag : String) : Edited e (.probe flag) (.probe flag)
  | constant (value : Bool) : Edited e (.constant value) (.constant value)
  | identifier : Edited e .identifier .identifier
  | ending : Edited e .ending .ending
  | advance (count : Nat) : Edited e (.advance count) (.advance count)
  | image {t : WordType} (word : Word t) : Edited e (.image word) (.image word)
  | readWord (name : String) : Edited e (.readWord name) (.readWord name)
  | readArray (name : String) : Edited e (.readArray name) (.readArray name)
  | readSequence (name : String) (min max : Nat) :
      Edited e (.readSequence name min max) (.readSequence name min max)
  | seq {a b : Rule α β γ} {a' b' : Rule α β' γ} :
      Edited e a a' → Edited e b b' → Edited e (.seq a b) (.seq a' b')
  | choice {a b : Rule α β γ} {a' b' : Rule α β' γ} :
      Edited e a a' → Edited e b b' → Edited e (.choice a b) (.choice a' b')
  | exclusive {a b : Rule α β γ} {a' b' : Rule α β' γ} :
      Edited e a a' → Edited e b b' → Edited e (.exclusive a b) (.exclusive a' b')
  | negation {a : Rule α β γ} {a' : Rule α β' γ} :
      Edited e a a' → Edited e (.negation a) (.negation a')
  | optional {a : Rule α β γ} {a' : Rule α β' γ} :
      Edited e a a' → Edited e (.optional a) (.optional a')
  | repetition {a b : Rule α β γ} {a' b' : Rule α β' γ} (bounds : Bounds) :
      Edited e a a' → Edited e b b' → Edited e (.repetition a b bounds) (.repetition a' b' bounds)
  | find {a : Rule α β γ} {a' : Rule α β' γ} : Edited e a a' → Edited e (.find a) (.find a')
  | select {a b c : Rule α β γ} {a' b' c' : Rule α β' γ} :
      Edited e a a' → Edited e b b' → Edited e c c' → Edited e (.select a b c) (.select a' b' c')
  | lookahead {a : Rule α β γ} {a' : Rule α β' γ} :
      Edited e a a' → Edited e (.lookahead a) (.lookahead a')
  | cell (key : String) : Edited e (.cell key) (.cell key)
  | owned (key : String) : Edited e (.owned key) (.owned key)
  | foreign (f : γ) : Edited e (.foreign f) (.foreign f)
  | call {a : Rule α β γ} {a' : Rule α β' γ} (label : β) :
      Edited e a a' → Edited e (.call a label) (.call a' (e.label label))
  | setFlag {a : Rule α β γ} {a' : Rule α β' γ} (flag : String) (value : Bool) :
      Edited e a a' → Edited e (.onSuccess a (.setFlag flag value)) (.onSuccess a' (.setFlag flag value))
  /-- A hook stays. -/
  | onFailure {a : Rule α β γ} {a' : Rule α β' γ} {label : β} : e.removesLabel label = false →
      Edited e a a' → Edited e (.onFailure a label) (.onFailure a' (e.label label))
  /-- A hook goes. -/
  | ofFailure {a : Rule α β γ} {a' : Rule α β' γ} {label : β} : e.removesLabel label = true →
      Edited e a a' → Edited e (.onFailure a label) a'
  /-- A recording action stays. -/
  | onSuccess {a : Rule α β γ} {a' : Rule α β' γ} {label : β} : e.removesLabel label = false →
      Edited e a a' → Edited e (.onSuccess a (.record label)) (.onSuccess a' (.record (e.label label)))
  /-- A recording action goes. -/
  | ofSuccess {a : Rule α β γ} {a' : Rule α β' γ} {label : β} : e.removesLabel label = true →
      Edited e a a' → Edited e (.onSuccess a (.record label)) a'
  /-- A trace stays. -/
  | traced {a : Rule α β γ} {a' : Rule α β' γ} {name : String} : e.removesName name = false →
      Edited e a a' → Edited e (.traced a name) (.traced a' (e.name name))
  /-- A trace goes. -/
  | ofTraced {a : Rule α β γ} {a' : Rule α β' γ} {name : String} : e.removesName name = true →
      Edited e a a' → Edited e (.traced a name) a'
  /-- A box stays. -/
  | boxed {a : Rule α β γ} {a' : Rule α β' γ} : Edited e a a' → Edited e (.boxed a) (.boxed a')
  /-- A box goes. -/
  | ofBoxed {a : Rule α β γ} {a' : Rule α β' γ} : Edited e a a' → Edited e (.boxed a) a'
  /-- A reference stays. -/
  | reference {a : Rule α β γ} {a' : Rule α β' γ} :
      Edited e a a' → Edited e (.reference a) (.reference a')
  /-- A reference gives way to the rule it refers to. -/
  | ofReference {a : Rule α β γ} {a' : Rule α β' γ} : Edited e a a' → Edited e (.reference a) a'

/-- Every rule is an image of itself, with all decorators kept. -/
theorem Rule.edited_refl (rule : Rule α β γ) :
    rule.Edited ⟨id, id, fun _ => false, fun _ => false⟩ rule := by
  induction rule with
  | empty | any | element | token | literal | elements | satisfy | run | probe | constant
  | identifier | ending | advance | image | readWord | readArray | readSequence | cell | owned
  | foreign => constructor
  | seq a b iha ihb => exact .seq iha ihb
  | choice a b iha ihb => exact .choice iha ihb
  | exclusive a b iha ihb => exact .exclusive iha ihb
  | negation a iha => exact .negation iha
  | optional a iha => exact .optional iha
  | repetition item separator bounds iha ihb => exact .repetition bounds iha ihb
  | find a iha => exact .find iha
  | select a b c iha ihb ihc => exact .select iha ihb ihc
  | lookahead a iha => exact .lookahead iha
  | onFailure a label iha => exact .onFailure rfl iha
  | onSuccess a effect iha =>
    cases effect with
    | record label => exact .onSuccess rfl iha
    | setFlag flag value => exact .setFlag flag value iha
  | traced a name iha => exact .traced rfl iha
  | boxed a iha => exact .boxed iha
  | reference a iha => exact .reference iha
  | call a label iha => exact .call label iha

/-- What has become of a cell, before and after an edit of its definition. -/
inductive Life.Edited (e : Edit β β') : Life α β γ → Life α β' γ → Prop where
  | undefined : Edited e .undefined .undefined
  | defined {rule : Rule α β γ} {rule' : Rule α β' γ} : rule.Edited e rule' →
      Edited e (.defined rule) (.defined rule')
  | dropped : Edited e .dropped .dropped

/-- The cells have the same names, and their definitions are edited. -/
def Cells.Edited (e : Edit β β') (cells : Cells α β γ) (cells' : Cells α β' γ) : Prop :=
  ∀ key, (cells.get key).name = (cells'.get key).name ∧
    (cells.get key).life.Edited e (cells'.get key).life

namespace Cells

variable {e : Edit β β'}

theorem edited_nil : Edited (γ := γ) e ([] : Cells α β γ) [] := fun _ => ⟨rfl, .dropped⟩

theorem Edited.cons {cells : Cells α β γ} {cells' : Cells α β' γ} (h : cells.Edited e cells')
    (key : String) {c : Cell α β γ} {c' : Cell α β' γ} (hname : c.name = c'.name)
    (hlife : c.life.Edited e c'.life) : Edited e ((key, c) :: cells) ((key, c') :: cells') := by
  intro key'
  by_cases hkey : key' = key
  · simpa [get, List.lookup_cons, hkey] using ⟨hname, hlife⟩
  · simpa [get, List.lookup_cons, beq_eq_false_iff_ne.2 hkey] using h key'

end Cells

/-! ## Stores -/

/-- Two stores with the same flags and the same variables. Since the stores `old` and `old'` the second
has gathered what remains of the events of the first. -/
structure Store.Edited (e : Edit β β') (old : Store κ β) (old' : Store κ β') (s : Store κ β)
    (t : Store κ β') : Prop where
  raised_eq : s.raised = t.raised
  memory_eq : s.memory = t.memory
  trail : ∃ new, s.trail = new ++ old.trail ∧ t.trail = e.events new ++ old'.trail

namespace Store

variable {e : Edit β β'} {old s : Store κ β} {old' t : Store κ β'}

theorem edited_refl (hraised : old.raised = old'.raised) (hmemory : old.memory = old'.memory) :
    Edited e old old' old old' :=
  ⟨hraised, hmemory, [], rfl, rfl⟩

/-- An event that remains is recorded on both sides. -/
theorem Edited.record (h : Edited e old old' s t) {event : Event κ β} (hkept : e.removes event = false) :
    Edited e old old' (s.record event) (t.record (e.event event)) := by
  obtain ⟨new, hs, ht⟩ := h.trail
  refine ⟨h.raised_eq, h.memory_eq, event :: new, ?_, ?_⟩
  · simp [Store.record, hs]
  · simp [Store.record, ht, Edit.events, hkept]

/-- An event that is removed is recorded on one side only. -/
theorem Edited.record_left (h : Edited e old old' s t) {event : Event κ β}
    (hremoved : e.removes event = true) : Edited e old old' (s.record event) t := by
  obtain ⟨new, hs, ht⟩ := h.trail
  refine ⟨h.raised_eq, h.memory_eq, event :: new, ?_, ?_⟩
  · simp [Store.record, hs]
  · simp [ht, Edit.events, hremoved]

theorem mirrors_edited : Mirrors (Edited e old old' : Store κ β → Store κ β' → Prop) where
  raised_eq h := h.raised_eq
  memory_eq h := h.memory_eq
  setFlag _ _ h := ⟨by simp only [Store.setFlag, h.raised_eq], h.memory_eq, h.trail⟩
  setVariable _ _ h := ⟨h.raised_eq, by simp only [Store.setVariable, h.memory_eq], h.trail⟩
  probe flag value h := Edited.record h rfl
  warning cause h := Edited.record h rfl

end Store

/-! ## Runs -/

namespace Run

variable {σ ρ τ : Type} {S : σ → ρ → Prop} {H : Halt → Prop}

theorem congruence_paired (S : σ → ρ → Prop) :
    Congruence fun _ => Paired S (fun _ => True) Eq where
  pure _ := paired_pure rfl
  halt _ := paired_throw trivial
  bind hx hfg := hx.bind fun a _ hab => hab ▸ hfg a

/-- What is known of the values of the first run may be used behind a pairing. -/
theorem Paired.and_ends {x : Run σ τ} {y : Run ρ τ} {P : τ → Prop} (h : Paired S H Eq x y)
    (hP : ∀ s a t, x.Ends s a t → P a) : Paired S H (fun a b => a = b ∧ P a) x y := by
  intro s t hst
  rcases h s t hst with ⟨a, b, s', t', hx, hy, hab, hst'⟩ | hhalts
  · exact .inl ⟨a, b, s', t', hx, hy, ⟨hab, hP s a s' hx⟩, hst'⟩
  · exact .inr hhalts

end Run

namespace Meaning

variable {e : Edit β β'} {old : Store κ β} {old' : Store κ β'}

/-- The second of two rules does what remains of the first. -/
abbrev Edited (e : Edit β β') (old : Store κ β) (old' : Store κ β') (a : Meaning κ β)
    (a' : Meaning κ β') : Prop :=
  Related (fun _ => Paired (Store.Edited e old old') (fun _ => True) Eq) a a'

theorem edited_emit (event : Event κ β) (hkept : e.removes event = false) :
    Paired (Store.Edited e old old') (fun _ => True) Eq (emit event) (emit (e.event event)) :=
  (paired_modify fun _ _ h => h.record hkept).mono fun _ _ _ => rfl

/-- An event that is removed is one more step of the first run. -/
theorem edited_emit_left (event : Event κ β) (hremoved : e.removes event = true) {τ : Type}
    {V : τ → τ → Prop} {x : Run (Store κ β) τ} {y : Run (Store κ β') τ}
    (h : Paired (Store.Edited e old old') (fun _ => True) V x y) :
    Paired (Store.Edited e old old') (fun _ => True) V (emit event >>= fun _ => x) y :=
  fun s t hst => h (s.record event) t (hst.record_left hremoved)

variable [Cursor κ α]

/-! ### Warnings, probes and reads -/

theorem edited_warn (cause : Warning) : Edited e old old' (warn cause) (warn cause) :=
  fun _ _ => paired_warn Store.mirrors_edited cause rfl

theorem edited_probe (flag : String) : Edited e old old' (probe flag) (probe flag) :=
  fun _ _ => paired_probe Store.mirrors_edited flag fun _ => rfl

/-- A read goes alike with itself, whether it halts or not. -/
theorem readAlike_self {τ : Type} (x : Except Halt (τ × Match κ)) :
    ReadAlike (Store.Edited e old old') (fun _ => True) Eq x x :=
  ((congruence_paired _).lift x).mono fun _ _ h => h ▸ ⟨rfl, rfl⟩

section Reads

variable [Element α]

theorem edited_readWord (name : String) : Edited e old old' (readWord name) (readWord name) :=
  fun _ _ => paired_readWord Store.mirrors_edited name rfl fun _ => readAlike_self _

theorem edited_readArray (name : String) : Edited e old old' (readArray name) (readArray name) :=
  fun _ _ => paired_readArray Store.mirrors_edited name rfl fun _ => readAlike_self _

theorem edited_readSequence (name : String) (min max : Nat) :
    Edited e old old' (readSequence name min max) (readSequence name min max) :=
  fun _ _ => paired_readSequence Store.mirrors_edited name min max rfl fun _ => readAlike_self _

end Reads

/-! ### Decorators that stay -/

variable {a : Meaning κ β} {a' : Meaning κ β'}

theorem edited_perform_record {label : β} (hkept : e.removesLabel label = false) (i p : κ) :
    Paired (Store.Edited e old old') (fun _ => True) Eq (perform (.record label) i p)
      (perform (.record (e.label label)) i p) :=
  edited_emit (.action label i p) hkept

theorem edited_perform_setFlag (flag : String) (value : Bool) (i p : κ) :
    Paired (Store.Edited e old old') (fun _ => True) Eq (perform (.setFlag flag value) i p)
      (perform (.setFlag flag value) i p) :=
  (paired_setFlag Store.mirrors_edited flag value i p i p).mono fun _ _ _ => rfl

theorem Edited.traced (ha : Edited e old old' a a') {name : String}
    (hkept : e.removesName name = false) :
    Edited e old old' (traced a name) (traced a' (e.name name)) := by
  refine Related.observed (congruence_paired _) ha ?_ ?_
  · exact fun i _ => edited_emit (.entered name i) hkept
  · intro i m
    cases hm : m.matched with
    | true => exact edited_emit (.matched name m.start m.position) hkept
    | false => exact edited_emit (.failed name i) hkept

/-! ### Decorators that go -/

/-- A settled outcome is not changed by being restated. -/
theorem restart_eq_of_settled {m : Match κ} {i : κ} (h : m.Settled i) : m.restart i = m := by
  obtain ⟨matched, position, start⟩ := m
  obtain ⟨rfl, hposition⟩ := h
  cases matched with
  | true => rfl
  | false => cases hposition rfl; rfl

theorem Edited.ofFailure (ha : Edited e old old' a a') (hsettles : a.Settles) {label : β}
    (hremoved : e.removesLabel label = true) : Edited e old old' (a.onFailure (hook label)) a' := by
  intro i j
  rw [← bind_pure (a' i j)]
  refine ((ha i j).and_ends (hsettles i j)).bind ?_
  rintro m _ ⟨rfl, hm⟩
  rw [restart_eq_of_settled hm]
  cases m.matched with
  | true => exact paired_pure rfl
  | false => exact edited_emit_left (.failure label i j) hremoved (paired_pure rfl)

theorem Edited.ofSuccess (ha : Edited e old old' a a') (hsettles : a.Settles) {label : β}
    (hremoved : e.removesLabel label = true) :
    Edited e old old' (a.onSuccess (perform (.record label))) a' := by
  intro i j
  rw [← bind_pure (a' i j)]
  refine ((ha i j).and_ends (hsettles i j)).bind ?_
  rintro m _ ⟨rfl, hm⟩
  rw [restart_eq_of_settled hm]
  cases m.matched with
  | true => exact edited_emit_left (.action label i m.position) hremoved (paired_pure rfl)
  | false => exact paired_pure rfl

theorem Edited.ofTraced (ha : Edited e old old' a a') {name : String}
    (hremoved : e.removesName name = true) : Edited e old old' (Meaning.traced a name) a' := by
  intro i j
  rw [← bind_pure (a' i j)]
  refine edited_emit_left (.entered name i) hremoved ((ha i j).bind ?_)
  rintro m _ rfl
  have hleave : e.removes (if m.matched then Event.matched name m.start m.position
      else .failed name i) = true := by
    cases m.matched <;> exact hremoved
  exact edited_emit_left _ hleave (paired_pure rfl)

end Meaning

/-! ## Rules -/

/-- Handles do what remains of them if the definitions do. -/
theorem Cells.edited_handle [Cursor κ α] {e : Edit β β'} {old : Store κ β} {old' : Store κ β'}
    {cells : Cells α β γ} {cells' : Cells α β' γ} (hcells : cells.Edited e cells')
    {define : Rule α β γ → Meaning κ β} {define' : Rule α β' γ → Meaning κ β'}
    (hdefine : ∀ rule rule', Rule.Edited e rule rule' →
      Meaning.Edited e old old' (define rule) (define' rule')) (key : String) :
    Meaning.Edited e old old' (cells.handle define key) (cells'.handle define' key) := by
  obtain ⟨hname, hlife⟩ := hcells key
  simp only [Cells.handle, hname]
  generalize (cells.get key).life = life at hlife ⊢
  generalize (cells'.get key).life = life' at hlife ⊢
  cases hlife with
  | undefined => exact Meaning.edited_warn _
  | defined h => exact hdefine _ _ h
  | dropped => exact Meaning.edited_warn _

namespace Rule

variable [Cursor κ α] [Element α] [DecidableEq α] {e : Edit β β'} {old : Store κ β}
  {old' : Store κ β'} {foreign : γ → κ → κ → Match κ}

/-- **One level of handles.** An edited rule does what remains of the rule, if its handles do. -/
theorem Edited.denote {rule : Rule α β γ} {rule' : Rule α β' γ} (h : rule.Edited e rule')
    (hforeign : ∀ f i j, (foreign f i j).Settled i) {handle : String → Meaning κ β}
    {handle' : String → Meaning κ β'} (hsettles : ∀ key, (handle key).Settles)
    (hhandle : ∀ key, Meaning.Edited e old old' (handle key) (handle' key)) :
    Meaning.Edited e old old' (rule.denote foreign handle) (rule'.denote foreign handle') := by
  have hR := congruence_paired (Store.Edited e old old')
  have hdenote (rule : Rule α β γ) : (rule.denote foreign handle).Settles :=
    settles_denote hforeign hsettles rule
  induction h with
  | empty | any | element | token | literal | elements | satisfy | run | constant | identifier
  | ending | advance | image => exact related_ofTerminal hR _
  | probe flag => exact Meaning.edited_probe flag
  | readWord name => exact Meaning.edited_readWord name
  | readArray name => exact Meaning.edited_readArray name
  | readSequence name min max => exact Meaning.edited_readSequence name min max
  | seq _ _ iha ihb => exact iha.seq hR ihb
  | choice _ _ iha ihb => exact iha.choice hR ihb
  | exclusive _ _ iha ihb => exact iha.exclusive hR ihb
  | negation _ iha => exact iha.negation hR
  | optional _ iha => exact iha.optional hR
  | repetition bounds _ _ iha ihb => exact iha.repetition hR ihb bounds
  | find _ iha => exact iha.find hR
  | select _ _ _ iha ihb ihc => exact iha.select hR ihb ihc
  | lookahead _ iha => exact iha.lookahead hR
  | cell key => exact hhandle key
  | owned key => exact hhandle key
  | foreign f => exact related_ofFunction hR (foreign f)
  | call label _ iha =>
    refine iha.observed hR (fun i j => ?_) fun _ _ => hR.pure ()
    exact Meaning.edited_emit (.call label i j) rfl
  | setFlag flag value _ iha => exact iha.onSuccess hR (Meaning.edited_perform_setFlag flag value)
  | onFailure hkept _ iha =>
    exact iha.onFailure hR fun i j => Meaning.edited_emit (.failure _ i j) hkept
  | onSuccess hkept _ iha => exact iha.onSuccess hR (Meaning.edited_perform_record hkept)
  | traced hkept _ iha => exact iha.traced hkept
  | boxed _ iha => exact iha
  | reference _ iha => exact iha
  -- What goes adds nothing to an outcome that is settled already.
  | ofFailure hremoved _ iha => exact iha.ofFailure (hdenote _) hremoved
  | ofSuccess hremoved _ iha => exact iha.ofSuccess (hdenote _) hremoved
  | ofTraced hremoved _ iha => exact iha.ofTraced hremoved
  | ofBoxed _ iha => exact iha
  | ofReference _ iha => exact iha

/-- Handles inside handles, to any depth. -/
theorem Edited.parse {cells : Cells α β γ} {cells' : Cells α β' γ} {rule : Rule α β γ}
    {rule' : Rule α β' γ} (h : rule.Edited e rule') (hcells : cells.Edited e cells')
    (hforeign : ∀ f i j, (foreign f i j).Settled i) (depth : Nat) :
    Meaning.Edited e old old' (rule.parse foreign cells depth) (rule'.parse foreign cells' depth) := by
  induction depth generalizing rule rule' with
  | zero =>
    apply h.denote hforeign
    · intro key
      apply Cells.settles_handle
      intro definition _ i j s m t hend
      exact absurd hend Run.not_ends_throw
    · exact Cells.edited_handle hcells fun _ _ _ _ _ => paired_throw trivial
  | succ depth ih =>
    apply h.denote hforeign
    · intro key
      apply Cells.settles_handle
      intro definition _
      exact settles_parse_of_shown foreign cells depth definition fun f _ => hforeign f
    · exact Cells.edited_handle hcells fun _ _ => ih

/-- **Decorators never change an outcome.** Two grammars are made of one plan: in the first all hooks,
recording actions and traces have stayed, in the second some of them have gone, and boxes and references
may have gone in both. All foreign rules keep the contract of outcomes. Then a parse with the first grammar
that ends does so with the second as well, from a store with the same flags and variables: with the same
outcome, the same flags and variables again, and the same events but for those of the decorators that have
gone. If it halts with one grammar it halts with the other. -/
theorem parse_edited (foreign : γ → κ → κ → Match κ) (hforeign : ∀ f i j, (foreign f i j).Settled i)
    (e : Edit β β') {plan : Rule α β γ} {decorated bare : Rule α β' γ} {cells : Cells α β γ}
    {decoratedCells bareCells : Cells α β' γ} (hdecorated : plan.Edited e.keepAll decorated)
    (hbare : plan.Edited e bare) (hdecoratedCells : cells.Edited e.keepAll decoratedCells)
    (hbareCells : cells.Edited e bareCells) (depth : Nat) (i j : κ) (before before' : Store κ β')
    (hraised : before'.raised = before.raised) (hmemory : before'.memory = before.memory) :
    (∃ (m : Match κ) (after after' : Store κ β') (events : List (Event κ β)),
      (decorated.parse foreign decoratedCells depth i j).Ends before m after ∧
      (bare.parse foreign bareCells depth i j).Ends before' m after' ∧
      after'.raised = after.raised ∧ after'.memory = after.memory ∧
      after.trail = events.map e.event ++ before.trail ∧
      after'.trail = (events.filter fun event => !e.removes event).map e.event ++ before'.trail) ∨
    ∃ h after after', (decorated.parse foreign decoratedCells depth i j).Halts before h after ∧
      (bare.parse foreign bareCells depth i j).Halts before' h after' := by
  -- The plan runs from the same flags and variables, on an empty trail.
  let old : Store κ β := ⟨before.raised, before.memory, []⟩
  have hfullStores : Store.Edited e.keepAll old before old before := Store.edited_refl rfl rfl
  have hpartStores : Store.Edited e old before' old before' :=
    Store.edited_refl hraised.symm hmemory.symm
  have hfull := hdecorated.parse hdecoratedCells hforeign depth i j old before hfullStores
  have hpart := hbare.parse hbareCells hforeign depth i j old before' hpartStores
  rcases hfull with ⟨m, _, run, after, hrun, hend, rfl, hafter⟩ | ⟨h, run, after, hrun, hhalt, -⟩
  · rcases hpart with ⟨m', _, run', after', hrun', hend', rfl, hafter'⟩ | ⟨h, _, _, hrun', -, -⟩
    · obtain ⟨rfl, rfl⟩ := hrun.unique hrun'
      obtain ⟨new, hnew, htrail⟩ := hafter.trail
      obtain ⟨new', hnew', htrail'⟩ := hafter'.trail
      -- The trail of the plan tells which events there are.
      obtain rfl : new = new' := by simpa [hnew, old] using hnew'
      rw [Edit.events_keepAll] at htrail
      refine .inl ⟨m, after, after', new, hend, hend', ?_, ?_, htrail, htrail'⟩
      · rw [← hafter.raised_eq, hafter'.raised_eq]
      · rw [← hafter.memory_eq, hafter'.memory_eq]
    · exact absurd hrun (not_ends_of_halts hrun')
  · rcases hpart with ⟨m', _, run', after', hrun', -, -, -⟩ | ⟨h', run', after', hrun', hhalt', -⟩
    · exact absurd hrun' (not_ends_of_halts hrun)
    · have hsame : ((.error h, run) : Except Halt (Match κ) × Store κ β) = (.error h', run') :=
        hrun.symm.trans hrun'
      obtain ⟨rfl, -⟩ : h = h' ∧ run = run' := by simpa using hsame
      exact .inr ⟨h, after, after', hhalt, hhalt'⟩

/-- Two recording actions that leave the same label, one around the handle of a cell and one inside its
definition. Without the trace and the outer action a repetition of the handle takes as much, and leaves
the labels of the inner action only. -/
theorem parse_edited_repeated :
    let digit : Rule UInt8 Nat Unit := .onSuccess (.satisfy (· < 10)) (.record 0)
    let cells : Cells UInt8 Nat Unit := [("digit", ⟨"digit", .defined (.boxed digit), true⟩)]
    let plan : Rule UInt8 Nat Unit := .traced (.star (.onSuccess (.cell "digit") (.record 1))) "all"
    let digit' : Rule UInt8 String Unit := .onSuccess (.satisfy (· < 10)) (.record "digit")
    let decoratedCells : Cells UInt8 String Unit :=
      [("digit", ⟨"digit", .defined (.boxed digit'), true⟩)]
    let decorated : Rule UInt8 String Unit :=
      .traced (.star (.onSuccess (.cell "digit") (.record "digit"))) "all"
    let bareCells : Cells UInt8 String Unit := [("digit", ⟨"digit", .defined digit', true⟩)]
    let e : Edit Nat String := ⟨fun _ => "digit", id, (· == 1), (· == "all")⟩
    plan.Edited e.keepAll decorated ∧ plan.Edited e (.star (.cell "digit")) ∧
      cells.Edited e.keepAll decoratedCells ∧ cells.Edited e bareCells ∧
      ∃ m after after',
        (decorated.parse (fun _ i _ => .failure i) decoratedCells 1
          (.beginning 0 [7, 7] : SliceCursor UInt8) (.ending 0 [7, 7])).Ends {} m after ∧
        (Rule.parse (fun _ i _ => .failure i) bareCells 1 (.star (.cell "digit"))
          (.beginning 0 [7, 7] : SliceCursor UInt8) (.ending 0 [7, 7])).Ends {} m after' ∧
        after.trail.length = 6 ∧ after'.trail.length = 2 := by
  intro digit cells plan digit' decoratedCells decorated bareCells e
  have hdecorated : plan.Edited e.keepAll decorated :=
    .traced rfl (.repetition _ (.onSuccess rfl (.cell "digit")) .empty)
  have hbare : plan.Edited e (.star (.cell "digit")) :=
    .ofTraced rfl (.repetition _ (.ofSuccess rfl (.cell "digit")) .empty)
  have hdigit (e' : Edit Nat String) (hlabel : e'.label 0 = "digit")
      (hkept : e'.removesLabel 0 = false) : digit.Edited e' digit' := by
    have hstays := Edited.onSuccess hkept (.satisfy (e := e') (γ := Unit) fun c : UInt8 => c < 10)
    rwa [hlabel] at hstays
  have hdecoratedCells : cells.Edited e.keepAll decoratedCells :=
    Cells.edited_nil.cons "digit" rfl (.defined (.boxed (hdigit e.keepAll rfl rfl)))
  have hbareCells : cells.Edited e bareCells :=
    Cells.edited_nil.cons "digit" rfl (.defined (.ofBoxed (hdigit e rfl rfl)))
  refine ⟨hdecorated, hbare, hdecoratedCells, hbareCells, ?_⟩
  have hrun : ∃ m after, (decorated.parse (fun _ i _ => .failure i) decoratedCells 1
      (.beginning 0 [7, 7] : SliceCursor UInt8) (.ending 0 [7, 7])).Ends {} m after ∧
      after.trail.length = 6 := ⟨_, _, rfl, rfl⟩
  obtain ⟨m, after, hend, hlength⟩ := hrun
  rcases parse_edited (fun _ i _ => .failure i) (fun _ i _ => Match.settled_failure i) e hdecorated hbare
    hdecoratedCells hbareCells 1 (.beginning 0 [7, 7] : SliceCursor UInt8) (.ending 0 [7, 7])
    {} {} rfl rfl with
    ⟨m', after₁, after', events, hend₁, hend', -, -, htrail, htrail'⟩ | ⟨_, _, _, hhalt, -⟩
  · obtain ⟨rfl, rfl⟩ := hend.unique hend₁
    have hrun' : ∃ m' after', (Rule.parse (fun _ i _ => .failure i) bareCells 1 (.star (.cell "digit"))
        (.beginning 0 [7, 7] : SliceCursor UInt8) (.ending 0 [7, 7])).Ends {} m' after' ∧
        after'.trail.length = 2 := ⟨_, _, rfl, rfl⟩
    obtain ⟨m', after'', hend'', hlength'⟩ := hrun'
    obtain ⟨rfl, rfl⟩ := hend'.unique hend''
    exact ⟨m, after, after', hend, hend', hlength, hlength'⟩
  · exact absurd hend (not_ends_of_halts hhalt)

end Rule

end Pegwork
