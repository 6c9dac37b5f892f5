import Pegwork.Cursor.Slice
import Pegwork.Proofs.Run
import Pegwork.Rule.Meaning

/-!
# The contract of outcomes

Whoever applies a rule relies on two things: the outcome names the cursor the rule was started at, and
a rule that fails has not moved. `Match.Settled` is this contract.

Terminals keep it by themselves and composites keep it whatever their parts do, since they restate
every outcome from their own start. Only the pass-through shapes hand an outcome on as it is. So the
contract can be broken in one way: a foreign rule, which may answer anything, shows through pass-through
shapes up to the root. `Rule.Shows` is that relation, and `parse_start_and_failure` says that there is no
other way, for every family of cells and every state. The same holds of any property that all settled
outcomes have (`yields_parse`).
-/

namespace Pegwork

/-! ## Settled outcomes -/

/-- The outcome of a rule started at `i` says so, and has not moved if it is a failure. -/
structure Match.Settled {κ : Type} (m : Match κ) (i : κ) : Prop where
  start_eq : m.start = i
  position_eq : m.matched = false → m.position = i

namespace Match

variable {κ : Type}

theorem settled_stay (b : Bool) (i : κ) : (stay b i).Settled i := ⟨rfl, fun _ => rfl⟩

theorem settled_success (i p : κ) : (success i p).Settled i := ⟨rfl, nofun⟩

theorem settled_failure (i : κ) : (failure i).Settled i := settled_stay false i

theorem settled_restart (m : Match κ) (i : κ) : (m.restart i).Settled i := by
  unfold restart
  split
  · exact settled_success i _
  · exact settled_failure i

theorem settled_ite {c : Prop} [Decidable c] {m n : Match κ} {i : κ} (hm : m.Settled i)
    (hn : n.Settled i) : (if c then m else n).Settled i := by
  split
  · exact hm
  · exact hn

end Match

/-! ## Terminals -/

/-- Every outcome of the terminal is settled. -/
def Terminal.Settles {κ : Type} (t : Terminal κ) : Prop :=
  ∀ i j m, t i j = .ok m → m.Settled i

namespace Terminal

variable {κ α : Type} [Cursor κ α]

open Match

theorem settles_constant (value : Bool) : Settles (constant value : Terminal κ) := by
  intro i j m h
  cases h
  exact settled_stay value i

theorem settles_ending : Settles (ending : Terminal κ) := by
  intro i j m h
  cases h
  exact settled_stay _ i

theorem settles_satisfy (p : α → Bool) : Settles (satisfy p : Terminal κ) := by
  intro i j m h
  obtain ⟨next, -, h⟩ := bind_eq_ok.1 h
  cases next with
  | none =>
    cases h
    exact settled_failure i
  | some next =>
    obtain ⟨a, next⟩ := next
    cases h
    exact settled_ite (settled_success i next) (settled_failure i)

theorem settles_literal (conditions : List (α → Bool)) :
    Settles (literal conditions : Terminal κ) := by
  intro i j m h
  obtain ⟨stop, -, h⟩ := bind_eq_ok.1 h
  cases stop with
  | none =>
    cases h
    exact settled_failure i
  | some stop =>
    cases h
    exact settled_success i stop

theorem settles_run (p : α → Bool) (min max : Nat) : Settles (run p min max : Terminal κ) := by
  intro i j m h
  obtain ⟨⟨stop, count⟩, -, h⟩ := bind_eq_ok.1 h
  cases h
  exact settled_ite (settled_success i stop) (settled_failure i)

theorem settles_identifier [Classify α] : Settles (identifier : Terminal κ) := by
  intro i j m h
  obtain ⟨next, -, h⟩ := bind_eq_ok.1 h
  cases next with
  | none =>
    cases h
    exact settled_failure i
  | some next =>
    -- The letter that an identifier starts with decides; the rest cannot fail.
    obtain ⟨a, next⟩ := next
    simp only at h
    split at h
    · obtain ⟨stop, -, h⟩ := bind_eq_ok.1 h
      cases h
      exact settled_success i stop
    · cases h
      exact settled_failure i

theorem settles_advance (n : Nat) : Settles (advance n : Terminal κ) := by
  intro i j m h
  unfold advance at h
  split at h
  · obtain ⟨stop, -, h⟩ := bind_eq_ok.1 h
    cases h
    exact settled_success i stop
  · cases h
    exact settled_failure i

variable [Element α]

theorem settled_of_readWords {t : WordType} {old words : List (Word t)} {i j : κ} {m : Match κ}
    (h : readWords old i j = .ok (words, m)) : m.Settled i := by
  obtain ⟨⟨read, stop⟩, -, h⟩ := bind_eq_ok.1 h
  cases stop with
  | none =>
    cases h
    exact settled_failure i
  | some stop =>
    cases h
    exact settled_success i stop

theorem settled_of_readMany {t : WordType} {min max : Nat} {words : List (Word t)} {i j : κ}
    {m : Match κ} (h : readMany t min max i j = .ok (words, m)) : m.Settled i := by
  obtain ⟨⟨read, stop⟩, -, h⟩ := bind_eq_ok.1 h
  cases h
  exact settled_ite (settled_success i stop) (settled_failure i)

end Terminal

/-! ## Combinators -/

/-- Every outcome of the recognizer is settled, from every state in which its run ends. -/
def Recognizer.Settles {κ σ : Type} (a : Recognizer κ σ) : Prop :=
  ∀ i j s m t, (a i j).Ends s m t → m.Settled i

namespace Recognizer

variable {κ α σ : Type}

open Match Run

theorem settles_ofTerminal {t : Terminal κ} (h : t.Settles) :
    (ofTerminal t : Recognizer κ σ).Settles := by
  intro i j s m u hend
  exact h i j m (ends_lift.1 hend).1

theorem settles_seq (a b : Recognizer κ σ) : (a.seq b).Settles := by
  intro i j s m t hend
  obtain ⟨first, u, -, hend⟩ := ends_bind.1 hend
  split at hend
  · obtain ⟨second, v, -, hend⟩ := ends_bind.1 hend
    obtain ⟨rfl, -⟩ := ends_pure.1 hend
    exact settled_restart second i
  · obtain ⟨rfl, -⟩ := ends_pure.1 hend
    exact settled_failure i

theorem settles_choice (a b : Recognizer κ σ) : (a.choice b).Settles := by
  intro i j s m t hend
  obtain ⟨first, u, -, hend⟩ := ends_bind.1 hend
  split at hend
  · obtain ⟨rfl, -⟩ := ends_pure.1 hend
    exact settled_restart first i
  · obtain ⟨second, v, -, hend⟩ := ends_bind.1 hend
    obtain ⟨rfl, -⟩ := ends_pure.1 hend
    exact settled_restart second i

theorem settles_exclusive (a b : Recognizer κ σ) : (a.exclusive b).Settles := by
  intro i j s m t hend
  obtain ⟨first, u, -, hend⟩ := ends_bind.1 hend
  obtain ⟨second, v, -, hend⟩ := ends_bind.1 hend
  split at hend
  · obtain ⟨rfl, -⟩ := ends_pure.1 hend
    exact settled_restart first i
  · obtain ⟨rfl, -⟩ := ends_pure.1 hend
    exact settled_restart second i
  · obtain ⟨rfl, -⟩ := ends_pure.1 hend
    exact settled_failure i

theorem settles_select (p a b : Recognizer κ σ) : (p.select a b).Settles := by
  intro i j s m t hend
  obtain ⟨first, u, -, hend⟩ := ends_bind.1 hend
  split at hend
  · obtain ⟨second, v, -, hend⟩ := ends_bind.1 hend
    obtain ⟨rfl, -⟩ := ends_pure.1 hend
    exact settled_restart second i
  · obtain ⟨second, v, -, hend⟩ := ends_bind.1 hend
    obtain ⟨rfl, -⟩ := ends_pure.1 hend
    exact settled_restart second i

theorem settles_negation (a : Recognizer κ σ) : a.negation.Settles := by
  intro i j s m t hend
  obtain ⟨inner, u, -, hend⟩ := ends_bind.1 hend
  obtain ⟨rfl, -⟩ := ends_pure.1 hend
  exact settled_stay _ i

theorem settles_lookahead (a : Recognizer κ σ) : a.lookahead.Settles := by
  intro i j s m t hend
  obtain ⟨inner, u, -, hend⟩ := ends_bind.1 hend
  obtain ⟨rfl, -⟩ := ends_pure.1 hend
  exact settled_stay _ i

theorem settles_optional (a : Recognizer κ σ) : a.optional.Settles := by
  intro i j s m t hend
  obtain ⟨inner, u, -, hend⟩ := ends_bind.1 hend
  obtain ⟨rfl, -⟩ := ends_pure.1 hend
  exact settled_ite (settled_restart inner i) (settled_stay true i)

/-- The loop of a repetition may stop anywhere; the outcome is made from the start. -/
theorem settles_repetition [Walk κ α] (item separator : Recognizer κ σ) (bounds : Bounds) :
    (item.repetition separator bounds).Settles := by
  intro i j s m t hend
  -- Neither the loop nor the passes in it are looked at: only the answer made from them is.
  obtain ⟨⟨outcome, n⟩, u, hcounted, hend⟩ := ends_bind.1 hend
  obtain ⟨rfl, -⟩ := ends_pure.1 hend
  obtain ⟨⟨position, count⟩, v, -, hcounted⟩ := ends_bind.1 hcounted
  obtain ⟨hresult, -⟩ := ends_pure.1 hcounted
  split at hresult
  · cases hresult
    exact settled_success i position
  · cases hresult
    exact settled_failure i

/-- A search that began at `start` answers from `start`, however far it has come. -/
theorem settled_of_findFrom [Walk κ α] (a : Recognizer κ σ) {start limit position : κ} {left : Nat}
    {s t : σ} {m : Match κ} (hend : (findFrom a start limit left position).Ends s m t) :
    m.Settled start := by
  induction left generalizing position s with
  -- By induction on what is left to search, with the start of the search kept.
  | zero => exact absurd hend not_ends_throw
  | succ left ih =>
    obtain ⟨inner, u, -, hend⟩ := ends_bind.1 hend
    split at hend
    · obtain ⟨rfl, -⟩ := ends_pure.1 hend
      exact settled_success start _
    · split at hend
      · obtain ⟨rfl, -⟩ := ends_pure.1 hend
        exact settled_failure start
      · obtain ⟨next, v, -, hend⟩ := ends_bind.1 hend
        exact ih hend

theorem settles_find [Walk κ α] (a : Recognizer κ σ) : a.find.Settles :=
  fun _ _ _ _ _ hend => settled_of_findFrom a hend

theorem settles_onFailure (a : Recognizer κ σ) (hook : κ → κ → Run σ Unit) :
    (a.onFailure hook).Settles := by
  intro i j s m t hend
  obtain ⟨inner, u, -, hend⟩ := ends_bind.1 hend
  split at hend
  · obtain ⟨rfl, -⟩ := ends_pure.1 hend
    exact settled_restart inner i
  · obtain ⟨-, v, -, hend⟩ := ends_bind.1 hend
    obtain ⟨rfl, -⟩ := ends_pure.1 hend
    exact settled_restart inner i

theorem settles_onSuccess (a : Recognizer κ σ) (act : κ → κ → Run σ Unit) :
    (a.onSuccess act).Settles := by
  intro i j s m t hend
  obtain ⟨inner, u, -, hend⟩ := ends_bind.1 hend
  split at hend
  · obtain ⟨-, v, -, hend⟩ := ends_bind.1 hend
    obtain ⟨rfl, -⟩ := ends_pure.1 hend
    exact settled_restart inner i
  · obtain ⟨rfl, -⟩ := ends_pure.1 hend
    exact settled_restart inner i

/-! ### Outcomes of a kind -/

/-- Started on a range in `D`, the recognizer answers with outcomes that have the property `Q` of the start
and the outcome. -/
def Yields (D : κ → κ → Prop) (Q : κ → Match κ → Prop) (a : Recognizer κ σ) : Prop :=
  ∀ i j, D i j → ∀ s m t, (a i j).Ends s m t → Q i m

variable {D : κ → κ → Prop} {Q : κ → Match κ → Prop} {a : Recognizer κ σ}

theorem Settles.yields (h : a.Settles) (hsettled : ∀ i m, m.Settled i → Q i m) : a.Yields D Q :=
  fun i j _ s m t hend => hsettled i m (h i j s m t hend)

theorem Yields.settles (h : a.Yields (fun _ _ => True) fun i m => m.Settled i) : a.Settles :=
  fun i j s m t hend => h i j trivial s m t hend

/-- An observer passes the outcome on, so it answers as its part does. -/
theorem Yields.observed (h : a.Yields D Q) (enter : κ → κ → Run σ Unit) (leave : κ → Match κ → Run σ Unit) :
    (a.observed enter leave).Yields D Q := by
  intro i j hij s m t hend
  -- The outcome of the part is the outcome of the whole, and nothing restates it.
  obtain ⟨u, v, -, hpart, -⟩ := ends_observed.1 hend
  exact h i j hij u m v hpart

end Recognizer

/-! ## Warnings, probes and reads -/

namespace Meaning

variable {κ α β : Type} [Cursor κ α]

open Match Run

/-- A warning is all that a rule which cannot be tried leaves behind. -/
theorem ends_warn {cause : Warning} (i j : κ) (s : Store κ β) (m : Match κ) (t : Store κ β) :
    (warn cause i j).Ends s m t ↔ m = .failure i ∧ t = s.record (.warning cause) := by
  have houtcome : (warn cause i j : Run (Store κ β) (Match κ)).outcome s =
      (.ok (.failure i), s.record (.warning cause)) := rfl
  rw [Ends, houtcome]
  simp [eq_comm]

theorem settles_warn (cause : Warning) : (warn cause : Meaning κ β).Settles := by
  intro i j s m t hend
  obtain ⟨rfl, -⟩ := (ends_warn i j s m t).1 hend
  exact settled_failure i

theorem settles_probe (flag : String) : (probe flag : Meaning κ β).Settles := by
  intro i j s m t hend
  obtain ⟨store, u, -, hend⟩ := ends_bind.1 hend
  obtain ⟨-, v, -, hend⟩ := ends_bind.1 hend
  obtain ⟨rfl, -⟩ := ends_pure.1 hend
  exact settled_stay _ i

variable [Element α]

theorem settles_overwrite (name : String) (v : Variable) :
    (overwrite name v : Meaning κ β).Settles := by
  intro i j s m t hend
  -- The variable is written after the read, which has made the outcome by then.
  obtain ⟨⟨words, outcome⟩, u, hread, hend⟩ := ends_bind.1 hend
  obtain ⟨-, w, -, hend⟩ := ends_bind.1 hend
  obtain ⟨rfl, -⟩ := ends_pure.1 hend
  exact Terminal.settled_of_readWords (ends_lift.1 hread).1

theorem settles_readWord (name : String) : (readWord name : Meaning κ β).Settles := by
  intro i j s m t hend
  obtain ⟨store, u, -, hend⟩ := ends_bind.1 hend
  split at hend
  · exact settles_overwrite name _ i j _ m t hend
  · obtain ⟨rfl, -⟩ := ends_pure.1 hend
    exact settled_failure i

theorem settles_readArray (name : String) : (readArray name : Meaning κ β).Settles := by
  intro i j s m t hend
  obtain ⟨store, u, -, hend⟩ := ends_bind.1 hend
  split at hend
  · split at hend
    · exact settles_warn .lentArray i j _ m t hend
    · exact settles_overwrite name _ i j _ m t hend
  · obtain ⟨rfl, -⟩ := ends_pure.1 hend
    exact settled_failure i

theorem settles_readSequence (name : String) (min max : Nat) :
    (readSequence name min max : Meaning κ β).Settles := by
  intro i j s m t hend
  obtain ⟨store, u, -, hend⟩ := ends_bind.1 hend
  split at hend
  · split at hend
    · exact settles_warn .lentSequence i j _ m t hend
    · obtain ⟨⟨words, outcome⟩, v, hread, hend⟩ := ends_bind.1 hend
      obtain ⟨-, w, -, hend⟩ := ends_bind.1 hend
      obtain ⟨rfl, -⟩ := ends_pure.1 hend
      exact Terminal.settled_of_readMany (ends_lift.1 hread).1
  · obtain ⟨rfl, -⟩ := ends_pure.1 hend
    exact settled_failure i

end Meaning

/-! ## Rules -/

/-- A handle answers as the definition behind it does. One without a definition fails where it is. -/
theorem Cells.yields_handle {κ α β γ : Type} {cells : Cells α β γ} {define : Rule α β γ → Meaning κ β}
    {key : String} {D : κ → κ → Prop} {Q : κ → Match κ → Prop} (hsettled : ∀ i m, m.Settled i → Q i m)
    (h : ∀ rule, (cells.get key).life = .defined rule → (define rule).Yields D Q) :
    (cells.handle define key).Yields D Q := by
  cases hlife : (cells.get key).life with
  | undefined =>
    simp only [Cells.handle, hlife]
    exact (Meaning.settles_warn _).yields hsettled
  | defined rule =>
    simp only [Cells.handle, hlife]
    exact h rule hlife
  | dropped =>
    simp only [Cells.handle, hlife]
    exact (Meaning.settles_warn _).yields hsettled

theorem Cells.settles_handle {κ α β γ : Type} {cells : Cells α β γ} {define : Rule α β γ → Meaning κ β}
    {key : String} (h : ∀ rule, (cells.get key).life = .defined rule → (define rule).Settles) :
    (cells.handle define key).Settles :=
  (yields_handle (fun _ _ hm => hm) fun rule hlife => (h rule hlife).yields fun _ _ hm => hm).settles

/-- The foreign rule `f` shows through `rule`: it is reached from the root through shapes that pass an
outcome on as it is. Cells pass on the outcome of their definition. -/
inductive Rule.Shows {α β γ : Type} (cells : Cells α β γ) : Rule α β γ → γ → Prop where
  /-- A foreign rule shows itself. -/
  | foreign (f : γ) : Shows cells (.foreign f) f
  /-- A trace records what its rule answers and passes it on. -/
  | traced {rule : Rule α β γ} {f : γ} (name : String) :
      Shows cells rule f → Shows cells (.traced rule name) f
  /-- A box only hides the shape of its rule. -/
  | boxed {rule : Rule α β γ} {f : γ} : Shows cells rule f → Shows cells (.boxed rule) f
  /-- A reference is the rule it refers to. -/
  | reference {rule : Rule α β γ} {f : γ} : Shows cells rule f → Shows cells (.reference rule) f
  /-- A labelled call passes on what its rule answers. -/
  | call {rule : Rule α β γ} {f : γ} (label : β) :
      Shows cells rule f → Shows cells (.call rule label) f
  /-- A handle delegates to the definition of its cell. -/
  | cell {rule : Rule α β γ} {f : γ} (key : String) :
      (cells.get key).life = .defined rule → Shows cells rule f → Shows cells (.cell key) f
  /-- So does a cell that lives inside the rule. -/
  | owned {rule : Rule α β γ} {f : γ} (key : String) :
      (cells.get key).life = .defined rule → Shows cells rule f → Shows cells (.owned key) f

namespace Rule

variable {κ α β γ : Type} [Cursor κ α] [Element α] [DecidableEq α]

/-- The foreign rules that show through a rule keep the contract. -/
def ShowsSettled (foreign : γ → κ → κ → Match κ) (cells : Cells α β γ) (rule : Rule α β γ) : Prop :=
  ∀ f, Shows cells rule f → ∀ i j, (foreign f i j).Settled i

/-- The foreign rules that show through a rule answer with outcomes that have the property `Q`, on every
range in `D`. -/
def ShowsYielding (D : κ → κ → Prop) (Q : κ → Match κ → Prop) (foreign : γ → κ → κ → Match κ)
    (cells : Cells α β γ) (rule : Rule α β γ) : Prop :=
  ∀ f, Shows cells rule f → ∀ i j, D i j → Q i (foreign f i j)

section Yields

variable {D : κ → κ → Prop} {Q : κ → Match κ → Prop}

open Recognizer in
/-- One level of handles: a property of all settled outcomes is one of the outcomes of a rule if the foreign
rules that show through it have it, and the handles of such rules. -/
theorem yields_denote (hsettled : ∀ i m, m.Settled i → Q i m) {foreign : γ → κ → κ → Match κ}
    {handle : String → Meaning κ β} {cells : Cells α β γ}
    (hcell : ∀ key, ShowsYielding D Q foreign cells (.cell key) → (handle key).Yields D Q)
    (howned : ∀ key, ShowsYielding D Q foreign cells (.owned key) → (handle key).Yields D Q)
    (rule : Rule α β γ) (hshown : ShowsYielding D Q foreign cells rule) :
    (rule.denote foreign handle).Yields D Q := by
  induction rule with
  | empty => exact (settles_ofTerminal (Terminal.settles_constant true)).yields hsettled
  | any => exact (settles_ofTerminal (Terminal.settles_satisfy _)).yields hsettled
  | element a => exact (settles_ofTerminal (Terminal.settles_satisfy _)).yields hsettled
  | token t => exact (settles_ofTerminal (Terminal.settles_satisfy _)).yields hsettled
  | literal text => exact (settles_ofTerminal (Terminal.settles_literal _)).yields hsettled
  | elements as => exact (settles_ofTerminal (Terminal.settles_literal _)).yields hsettled
  | satisfy p => exact (settles_ofTerminal (Terminal.settles_satisfy p)).yields hsettled
  | run p min max => exact (settles_ofTerminal (Terminal.settles_run p min max)).yields hsettled
  | probe flag => exact (Meaning.settles_probe flag).yields hsettled
  | constant value => exact (settles_ofTerminal (Terminal.settles_constant value)).yields hsettled
  | identifier => exact (settles_ofTerminal Terminal.settles_identifier).yields hsettled
  | ending => exact (settles_ofTerminal Terminal.settles_ending).yields hsettled
  | advance count => exact (settles_ofTerminal (Terminal.settles_advance count)).yields hsettled
  | image word => exact (settles_ofTerminal (Terminal.settles_literal _)).yields hsettled
  | readWord name => exact (Meaning.settles_readWord name).yields hsettled
  | readArray name => exact (Meaning.settles_readArray name).yields hsettled
  | readSequence name min max => exact (Meaning.settles_readSequence name min max).yields hsettled
  -- Composites restate what their parts answer, so nothing is asked of the parts.
  | seq a b => exact (settles_seq _ _).yields hsettled
  | choice a b => exact (settles_choice _ _).yields hsettled
  | exclusive a b => exact (settles_exclusive _ _).yields hsettled
  | negation a => exact (settles_negation _).yields hsettled
  | optional a => exact (settles_optional _).yields hsettled
  | repetition item separator bounds => exact (settles_repetition _ _ bounds).yields hsettled
  | find a => exact (settles_find _).yields hsettled
  | select p a b => exact (settles_select _ _ _).yields hsettled
  | lookahead a => exact (settles_lookahead _).yields hsettled
  | onFailure a label => exact (settles_onFailure _ _).yields hsettled
  | onSuccess a effect => exact (settles_onSuccess _ _).yields hsettled
  -- Pass-through shapes show what their part shows.
  | traced a name ih => exact (ih fun f h => hshown f (.traced name h)).observed _ _
  | boxed a ih => exact ih fun f h => hshown f (.boxed h)
  | reference a ih => exact ih fun f h => hshown f (.reference h)
  | cell key => exact hcell key hshown
  | owned key => exact howned key hshown
  | call a label ih => exact (ih fun f h => hshown f (.call label h)).observed _ _
  | foreign f =>
    intro i j hij s m t hend
    obtain ⟨rfl, -⟩ := Run.ends_pure.1 hend
    exact hshown f (.foreign f) i j hij

/-- Rules of any depth have outcomes with the property if the foreign rules that show through them do. -/
theorem yields_parse (hsettled : ∀ i m, m.Settled i → Q i m) (foreign : γ → κ → κ → Match κ)
    (cells : Cells α β γ) (depth : Nat) (rule : Rule α β γ)
    (hshown : ShowsYielding D Q foreign cells rule) :
    (rule.parse (β := β) foreign cells depth).Yields D Q := by
  induction depth generalizing rule with
  | zero =>
    -- Handles inside the deepest handle give up, so they answer nothing.
    have hgiven : ∀ key, (cells.handle (κ := κ) (fun _ _ _ => throw .unending) key).Yields D Q := by
      intro key
      apply Cells.yields_handle hsettled
      intro rule hlife i j _ s m t hend
      exact absurd hend Run.not_ends_throw
    exact yields_denote hsettled (fun key _ => hgiven key) (fun key _ => hgiven key) rule hshown
  | succ depth ih =>
    -- What shows through a definition shows through every handle of its cell.
    apply yields_denote hsettled ?_ ?_ rule hshown
    · intro key hkey
      apply Cells.yields_handle hsettled
      intro definition hlife
      exact ih definition fun f h => hkey f (.cell key hlife h)
    · intro key hkey
      apply Cells.yields_handle hsettled
      intro definition hlife
      exact ih definition fun f h => hkey f (.owned key hlife h)

end Yields

/-- One level of handles: a rule keeps the contract if all foreign rules and all handles do. -/
theorem settles_denote {foreign : γ → κ → κ → Match κ} {handle : String → Meaning κ β}
    (hforeign : ∀ f i j, (foreign f i j).Settled i) (hhandle : ∀ key, (handle key).Settles)
    (rule : Rule α β γ) : (rule.denote foreign handle).Settles := by
  have hyields : ∀ key, (handle key).Yields (fun _ _ => True) fun i m => m.Settled i :=
    fun key => (hhandle key).yields fun _ _ h => h
  have hshown : ShowsYielding (fun _ _ => True) (fun i m => m.Settled i) foreign ([] : Cells α β γ) rule :=
    fun f _ i j _ => hforeign f i j
  exact (yields_denote (fun _ _ h => h) (fun key _ => hyields key) (fun key _ => hyields key) rule
    hshown).settles

/-- Rules of any depth keep the contract if the foreign rules that show through them do. -/
theorem settles_parse_of_shown (foreign : γ → κ → κ → Match κ) (cells : Cells α β γ) (depth : Nat)
    (rule : Rule α β γ) (hshown : ShowsSettled foreign cells rule) :
    (rule.parse (β := β) foreign cells depth).Settles :=
  (yields_parse (fun _ _ h => h) foreign cells depth rule fun f h i j _ => hshown f h i j).settles

/-- Rules of any depth keep the contract unless a foreign rule shows through them. -/
theorem settles_parse (foreign : γ → κ → κ → Match κ) (cells : Cells α β γ) (depth : Nat)
    (rule : Rule α β γ) (hhidden : ∀ f, ¬ Shows cells rule f) :
    (rule.parse (β := β) foreign cells depth).Settles :=
  settles_parse_of_shown foreign cells depth rule fun f h => absurd h (hhidden f)

/-- **No partial consumption.** Whatever the cells are and whatever the flags and variables hold: a
rule that ends names the cursor it was started at, and has not moved if it fails. Foreign rules inside
it may answer anything, as long as none of them shows through up to the root. -/
theorem parse_start_and_failure (foreign : γ → κ → κ → Match κ) (cells : Cells α β γ) (depth : Nat)
    (rule : Rule α β γ) (hhidden : ∀ f, ¬ Shows cells rule f) (i j : κ) (before after : Store κ β)
    (m : Match κ) (hend : (rule.parse foreign cells depth i j).run.run before = (.ok m, after)) :
    m.start = i ∧ (m.matched = false → m.position = i) := by
  have hsettled : m.Settled i := settles_parse foreign cells depth rule hhidden i j before m after hend
  exact ⟨hsettled.start_eq, hsettled.position_eq⟩

/-- A foreign rule that claims to have started and stopped at the end, in front of a handle of a cell
that is gone: the traced sequence fails at its own start. -/
theorem parse_start_and_failure_odd :
    let i : SliceCursor UInt8 := .beginning 0 [1, 2]
    let j : SliceCursor UInt8 := .ending 0 [1, 2]
    let rule : Rule UInt8 String Unit := .traced (.seq (.foreign ()) (.cell "gone")) "odd"
    let cells : Cells UInt8 String Unit := [("gone", ⟨"gone", .dropped, false⟩)]
    (∀ f, ¬ Shows cells rule f) ∧
      ∃ m after, (rule.parse (fun _ _ j => ⟨true, j, j⟩) cells 0 i j).run.run {} = (.ok m, after) ∧
        m.matched = false ∧ m.start = i ∧ m.position = i := by
  intro i j rule cells
  have hhidden : ∀ f, ¬ Shows cells rule f := by
    intro f hshows
    change Shows cells (.traced (.seq (.foreign ()) (.cell "gone")) "odd") f at hshows
    cases hshows with
    | traced _ h => cases h
  -- The foreign rule matches, the handle of the dropped cell does not.
  have hend : ∃ m after, (rule.parse (fun _ _ j => ⟨true, j, j⟩) cells 0 i j).run.run {} =
      (.ok m, after) ∧ m.matched = false := ⟨_, _, rfl, rfl⟩
  obtain ⟨m, after, hend, hmatched⟩ := hend
  obtain ⟨hstart, hposition⟩ := parse_start_and_failure _ cells 0 rule hhidden i j {} after m hend
  exact ⟨hhidden, m, after, hend, hmatched, hstart, hposition hmatched⟩

end Rule

end Pegwork
