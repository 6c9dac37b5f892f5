import Mathlib.Data.List.Induction
import Pegwork.Cursor.Slice
import Pegwork.Proofs.Contract
import Pegwork.Proofs.Depth
import Pegwork.Session

/-!
# The life of a cell

A cell waits for its definition, has it, and is gone in the end. What happens to the cells of a session is
put together from three changes of a family of cells: cells are moved into rules (`Cells.get_take`), a cell
gets its definition (`Cells.get_supply`), and cells are dropped together with the cells inside their
definitions (`Cells.dropFrom_preserves`).

`Operation.Changes` says which of these an operation makes. From it follows what one operation does to one
cell, and by induction what any number of them do (`Session.performAll_get`): the first definition stays
until the cell is dropped. A handle asks for the cell at the time when it is tried. So it does not matter
when the handle was taken, nor in which rule it stands (`Session.life_cycle`).
-/

namespace Pegwork

variable {κ α β γ : Type}

/-! ## Families of cells -/

/-- The cell when it is dropped. -/
def Cell.gone (c : Cell α β γ) : Cell α β γ := { c with life := .dropped, held := false }

namespace Cells

variable {cells : Cells α β γ} {key k : String} {c : Cell α β γ}

theorem lookup_set (cells : Cells α β γ) (key k : String) (c : Cell α β γ) :
    (cells.set key c).lookup k = (cells.lookup k).map fun old => if k = key then c else old :=
  lookup_replace cells key k c

theorem get_set_of_ne (h : k ≠ key) : (cells.set key c).get k = cells.get k := by
  simp [get, lookup_set, h]

/-- A cell that was never made cannot be changed, and counts as one that is gone. -/
theorem get_set_self (h : cells.lookup key = none → c = ⟨key, .dropped, false⟩) :
    (cells.set key c).get key = c := by
  cases hlookup : cells.lookup key with
  | none => simp [get, lookup_set, hlookup, h hlookup]
  | some old => simp [get, lookup_set, hlookup]

theorem get_of_lookup_eq_none (h : cells.lookup key = none) :
    cells.get key = ⟨key, .dropped, false⟩ := by
  simp [get, h]

theorem get_set_gone (cells : Cells α β γ) (key k : String) :
    (cells.set key (cells.get key).gone).get k =
      if k = key then (cells.get k).gone else cells.get k := by
  by_cases hk : k = key
  · subst hk
    rw [if_pos rfl]
    apply get_set_self
    intro hnone
    rw [get_of_lookup_eq_none hnone]
    rfl
  · rw [if_neg hk, get_set_of_ne hk]

/-- The cells when one of them has got its definition. -/
def supply (cells : Cells α β γ) (key : String) (rule : Rule α β γ) : Cells α β γ :=
  cells.set key { cells.get key with life := .defined rule }

theorem get_supply (h : (cells.get key).life = .undefined) (rule : Rule α β γ) (k : String) :
    (cells.supply key rule).get k =
      if k = key then { cells.get k with life := .defined rule } else cells.get k := by
  by_cases hk : k = key
  · subst hk
    rw [if_pos rfl]
    apply get_set_self
    intro hnone
    rw [get_of_lookup_eq_none hnone] at h
    cases h
  · rw [if_neg hk]
    exact get_set_of_ne hk

/-- Moving cells into rules changes in whose hands they are, and nothing else. -/
theorem get_take (cells : Cells α β γ) (keys : List String) (k : String) :
    (cells.take keys).get k = { cells.get k with held := (cells.get k).held && !keys.contains k } := by
  induction keys generalizing cells with
  | nil => simp [take]
  | cons key keys ih =>
    have hstep : cells.take (key :: keys) =
        (cells.set key { cells.get key with held := false }).take keys := rfl
    rw [hstep, ih]
    by_cases hk : k = key
    · subst hk
      rw [get_set_self]
      · simp
      · intro hnone
        rw [get_of_lookup_eq_none hnone]
    · rw [get_set_of_ne hk]
      simp [hk]

/-- What is kept by dropping a single cell, out of those that may be dropped, is kept by dropping cells
with all that live inside them. -/
theorem dropFrom_preserves {P : Cells α β γ → Prop} {Q : String → Prop}
    (hset : ∀ cells key, P cells → Q key → P (cells.set key (cells.get key).gone))
    (howned : ∀ cells key rule, P cells → (cells.get key).life = .defined rule →
      ∀ k ∈ rule.ownedCells, Q k)
    (depth : Nat) (keys : List String) (hkeys : ∀ k ∈ keys, Q k) (cells : Cells α β γ) (h : P cells) :
    P (dropFrom depth keys cells) := by
  induction depth generalizing keys cells with
  | zero => exact h
  | succ depth ih =>
    rw [dropFrom]
    refine List.foldlRecOn keys _ h ?_
    intro left hleft key hkey
    have hgone := hset left key hleft (hkeys key hkey)
    -- The cell itself is dropped first, then those inside its definition.
    cases hlife : (left.get key).life with
    | undefined =>
      simp only [hlife]
      exact hgone
    | defined rule =>
      simp only [hlife]
      exact ih rule.ownedCells (howned left key rule hleft hlife) _ hgone
    | dropped =>
      simp only [hlife]
      exact hgone

/-- A cell is not affected by dropping others, unless it lives inside one of their definitions. -/
theorem get_dropFrom_of_unowned
    (hunowned : ∀ key rule, (cells.get key).life = .defined rule → k ∉ rule.ownedCells) {keys : List String}
    (hkeys : k ∉ keys) (depth : Nat) : (dropFrom depth keys cells).get k = cells.get k := by
  have hpreserved := dropFrom_preserves
    (P := fun left => left.get k = cells.get k ∧
      ∀ key rule, (left.get key).life = .defined rule → k ∉ rule.ownedCells)
    (Q := (· ≠ k)) ?_ ?_ depth keys ?_ cells ⟨rfl, hunowned⟩
  · exact hpreserved.1
  · rintro left key ⟨hget, hleft⟩ hkey
    refine ⟨?_, fun other rule hlife => ?_⟩
    · rw [get_set_gone, if_neg hkey.symm, hget]
    · rw [get_set_gone] at hlife
      split at hlife
      · cases hlife
      · exact hleft other rule hlife
  · rintro left key rule ⟨-, hleft⟩ hlife other hother rfl
    exact hleft key rule hlife hother
  · rintro other hother rfl
    exact hkeys hother

/-- A cell is left as it is or dropped. -/
theorem get_dropFrom (cells : Cells α β γ) (k : String) (depth : Nat) (keys : List String) :
    (dropFrom depth keys cells).get k = cells.get k ∨
      (dropFrom depth keys cells).get k = (cells.get k).gone := by
  refine dropFrom_preserves
    (P := fun left => left.get k = cells.get k ∨ left.get k = (cells.get k).gone)
    (Q := fun _ => True) ?_ (fun _ _ _ _ _ _ _ => trivial) depth keys (fun _ _ => trivial) cells
    (.inl rfl)
  intro left key hleft _
  rw [get_set_gone]
  split
  · rcases hleft with hleft | hleft
    · exact .inr (by rw [hleft])
    · exact .inr (by rw [hleft]; rfl)
  · exact hleft

/-- A cell that is dropped is gone. -/
theorem get_drop_self (cells : Cells α β γ) (key : String) :
    (cells.drop [key]).get key = (cells.get key).gone := by
  have hleft : (cells.set key (cells.get key).gone).get key = (cells.get key).gone := by
    rw [get_set_gone, if_pos rfl]
  rw [drop, dropFrom, List.foldl_cons, List.foldl_nil]
  cases hlife : (cells.get key).life with
  | undefined =>
    simp only [hlife]
    exact hleft
  | defined rule =>
    simp only [hlife]
    rcases get_dropFrom (cells.set key (cells.get key).gone) key cells.length rule.ownedCells with h | h
    · exact h.trans hleft
    · rw [hleft] at h
      exact h
  | dropped =>
    simp only [hlife]
    exact hleft

end Cells

/-! ## Operations -/

/-- Something that is done with the cells of a session. Handles need no operation: they are rules, and can
be written down at any time. -/
inductive Operation (κ α β γ : Type) : Type 1 where
  /-- A cell is defined. -/
  | define (key : String) (rule : Rule α β γ)
  /-- A cell is dropped. -/
  | drop (key : String)
  /-- A rule is kept under a name. -/
  | keep (name : String) (rule : Rule α β γ)
  /-- A rule is described. -/
  | describe (rule : Rule α β γ)
  /-- Rules are made for one step, in which they are parsed in some way. -/
  | use {τ : Type} (rules : List (Rule α β γ))
    (body : (Rule α β γ → Meaning κ β) → Run (Store κ β) τ)

namespace Operation

/-- The cells that are moved into the rules of an operation. -/
def ownedCells : Operation κ α β γ → List String
  | define _ rule => rule.ownedCells
  | drop _ => []
  | keep _ rule => rule.ownedCells
  | describe rule => rule.ownedCells
  | use rules _ => rules.flatMap Rule.ownedCells

/-- The definition that an operation has for a cell. -/
def definition? (k : String) : Operation κ α β γ → Option (Rule α β γ)
  | define key rule => if k = key then some rule else none
  | _ => none

end Operation

/-- What becomes of a cell if there is a definition for it: only a first one counts. -/
def Life.supplied : Life α β γ → Option (Rule α β γ) → Life α β γ
  | .undefined, some rule => .defined rule
  | life, _ => life

@[simp] theorem Life.supplied_none (life : Life α β γ) : life.supplied none = life := by
  cases life <;> rfl

theorem Life.supplied_of_ne_undefined {life : Life α β γ} (h : life ≠ .undefined)
    (definition : Option (Rule α β γ)) : life.supplied definition = life := by
  cases life with
  | undefined => exact absurd rfl h
  | defined rule => rfl
  | dropped => rfl

theorem Life.supplied_supplied (life : Life α β γ) (first second : Option (Rule α β γ)) :
    (life.supplied first).supplied second = life.supplied (first.or second) := by
  cases life <;> cases first <;> rfl

/-- What the first definition of a cell among some operations makes of it. -/
def Operation.firstDefinition (k : String) (ops : List (Operation κ α β γ)) : Life α β γ :=
  Life.undefined.supplied (ops.findSome? (definition? k))

theorem Operation.firstDefinition_append (k : String) (ops : List (Operation κ α β γ))
    (op : Operation κ α β γ) :
    firstDefinition k (ops ++ [op]) = (firstDefinition k ops).supplied (op.definition? k) := by
  have hlast : [op].findSome? (definition? k) = op.definition? k := by
    rw [List.findSome?_cons]
    cases op.definition? k <;> rfl
  rw [firstDefinition, firstDefinition, Life.supplied_supplied, List.findSome?_append, hlast]

/-- **What an operation does with the cells of a session.** Rules take the cells inside them along, and drop
them when they are dropped themselves. -/
inductive Operation.Changes (cells : Cells α β γ) : Operation κ α β γ → Cells α β γ → Prop where
  /-- A cell gets the definition it has been waiting for. -/
  | supply {key : String} {rule : Rule α β γ} (h : (cells.get key).life = .undefined) :
      Changes cells (.define key rule) ((cells.take rule.ownedCells).supply key rule)
  /-- A definition is refused, and its rule dropped. -/
  | refuse {key : String} {rule : Rule α β γ} (h : (cells.get key).life ≠ .undefined) :
      Changes cells (.define key rule) ((cells.take rule.ownedCells).drop rule.ownedCells)
  /-- A cell in hand is dropped. -/
  | drop {key : String} (h : (cells.get key).held = true) :
      Changes cells (.drop key) (cells.drop [key])
  /-- A cell that is not in hand cannot be dropped. -/
  | spare {key : String} (h : ¬ (cells.get key).held = true) : Changes cells (.drop key) cells
  /-- A rule that is kept lives for ever. -/
  | keep {name : String} {rule : Rule α β γ} :
      Changes cells (.keep name rule) (cells.take rule.ownedCells)
  /-- A rule that is described is dropped then. -/
  | describe {rule : Rule α β γ} : Changes cells (.describe rule) (cells.drop rule.ownedCells)
  /-- So are rules that are parsed. -/
  | use {τ : Type} {rules : List (Rule α β γ)} {body : (Rule α β γ → Meaning κ β) → Run (Store κ β) τ} :
      Changes cells (.use rules body)
        ((cells.take (rules.flatMap Rule.ownedCells)).drop (rules.flatMap Rule.ownedCells))
  /-- A parse that halts leaves the cells alone. -/
  | halt {τ : Type} {rules : List (Rule α β γ)}
      {body : (Rule α β γ → Meaning κ β) → Run (Store κ β) τ} : Changes cells (.use rules body) cells

namespace Session

section Definitions

variable {s : Session κ α β γ} {key : String} {rule : Rule α β γ}

theorem define_of_undefined (h : (s.cells.get key).life = .undefined) :
    s.define key rule =
      (none, { s with cells := (s.cells.take rule.ownedCells).supply key rule }) := by
  have hlife : ((s.cells.take rule.ownedCells).get key).life = .undefined := by
    rw [Cells.get_take, h]
  simp only [define, Cells.define, Cells.supply, hlife]

/-- A cell that does not wait for its definition refuses it, and the refused rule is dropped. -/
theorem define_of_ne_undefined (h : (s.cells.get key).life ≠ .undefined) :
    s.define key rule = (some (.alreadyDefined (s.cells.get key).name),
      { s with cells := (s.cells.take rule.ownedCells).drop rule.ownedCells }) := by
  have hlife : ((s.cells.take rule.ownedCells).get key).life = (s.cells.get key).life := by
    rw [Cells.get_take]
  have hname : ((s.cells.take rule.ownedCells).get key).name = (s.cells.get key).name := by
    rw [Cells.get_take]
  cases hcase : (s.cells.get key).life with
  | undefined => exact absurd hcase h
  | defined first => simp only [define, Cells.define, hlife, hcase, hname]
  | dropped => simp only [define, Cells.define, hlife, hcase, hname]

end Definitions

variable [Cursor κ α] [Element α] [DecidableEq α]

/-- The session after an operation. -/
def perform (foreign : γ → κ → κ → Match κ) (s : Session κ α β γ) :
    Operation κ α β γ → Session κ α β γ
  | .define key rule => (s.define key rule).2
  | .drop key => (s.drop key).2
  | .keep name rule => s.keep name rule
  | .describe rule => (s.describe rule).2
  | .use rules body => (s.use foreign rules body).2

theorem changes_perform (foreign : γ → κ → κ → Match κ) (s : Session κ α β γ)
    (op : Operation κ α β γ) : op.Changes s.cells (s.perform foreign op).cells := by
  cases op with
  | define key rule =>
    by_cases hlife : (s.cells.get key).life = .undefined
    · rw [perform, define_of_undefined hlife]
      exact .supply hlife
    · rw [perform, define_of_ne_undefined hlife]
      exact .refuse hlife
  | drop key =>
    rw [perform, drop]
    split
    next hheld => exact .drop hheld
    next hheld => exact .spare hheld
  | keep name rule => exact .keep
  | describe rule => exact .describe
  | use rules body =>
    simp only [perform, use]
    generalize (body _).run.run _ = answer
    obtain ⟨result, store⟩ := answer
    cases result with
    | ok value => exact .use
    | error h => exact .halt

end Session

/-! ## One cell -/

/-- What may become of a cell without a definition of its own: it changes hands, or it is dropped. -/
structure Cell.Passes (c c' : Cell α β γ) : Prop where
  name_eq : c'.name = c.name
  life : c'.life = .dropped ∨ c'.life = c.life

theorem Cells.passes_take (cells : Cells α β γ) (keys : List String) (k : String) :
    (cells.get k).Passes ((cells.take keys).get k) := by
  rw [get_take]
  exact ⟨rfl, .inr rfl⟩

theorem Cells.passes_drop (cells : Cells α β γ) (keys : List String) (k : String) :
    (cells.get k).Passes ((cells.drop keys).get k) := by
  rcases get_dropFrom cells k (cells.length + 1) keys with h | h
  · rw [drop, h]
    exact ⟨rfl, .inr rfl⟩
  · rw [drop, h]
    exact ⟨rfl, .inl rfl⟩

theorem Cell.Passes.trans {c c' c'' : Cell α β γ} (h : c.Passes c') (h' : c'.Passes c'') :
    c.Passes c'' := by
  refine ⟨h'.name_eq.trans h.name_eq, ?_⟩
  rcases h'.life with hlife | hlife
  · exact .inl hlife
  · rw [hlife]
    exact h.life

namespace Operation

/-- **One operation on one cell.** The cell keeps its name. It is dropped, or it gets its definition if it
waits for one, or it stays as it is. -/
theorem Changes.get {cells cells' : Cells α β γ} {op : Operation κ α β γ} (h : op.Changes cells cells')
    (k : String) :
    (cells'.get k).name = (cells.get k).name ∧
      ((cells'.get k).life = .dropped ∨
        (cells'.get k).life = (cells.get k).life.supplied (op.definition? k)) := by
  -- All but a first definition only moves or drops cells.
  have hpasses (hnext : (cells.get k).life.supplied (op.definition? k) = (cells.get k).life)
      (h : (cells.get k).Passes (cells'.get k)) :
      (cells'.get k).name = (cells.get k).name ∧
        ((cells'.get k).life = .dropped ∨
          (cells'.get k).life = (cells.get k).life.supplied (op.definition? k)) := by
    rw [hnext]
    exact ⟨h.name_eq, h.life⟩
  cases h with
  | @supply key rule hlife =>
    have htake := cells.passes_take rule.ownedCells k
    have hwaits : ((cells.take rule.ownedCells).get key).life = .undefined := by
      rw [Cells.get_take, hlife]
    by_cases hk : k = key
    · subst hk
      rw [Cells.get_supply hwaits, if_pos rfl, hlife, definition?, if_pos rfl]
      exact ⟨htake.name_eq, .inr rfl⟩
    · apply hpasses
      · rw [definition?, if_neg hk, Life.supplied_none]
      · rw [Cells.get_supply hwaits, if_neg hk]
        exact htake
  | @refuse key rule hlife =>
    apply hpasses
    · by_cases hk : k = key
      · subst hk
        exact Life.supplied_of_ne_undefined hlife _
      · rw [definition?, if_neg hk, Life.supplied_none]
    · exact (cells.passes_take rule.ownedCells k).trans (Cells.passes_drop _ _ k)
  | drop _ => exact hpasses (Life.supplied_none _) (cells.passes_drop _ k)
  | spare _ => exact hpasses (Life.supplied_none _) ⟨rfl, .inr rfl⟩
  | keep => exact hpasses (Life.supplied_none _) (cells.passes_take _ k)
  | describe => exact hpasses (Life.supplied_none _) (cells.passes_drop _ k)
  | use =>
    exact hpasses (Life.supplied_none _) ((cells.passes_take _ k).trans (Cells.passes_drop _ _ k))
  | halt => exact hpasses (Life.supplied_none _) ⟨rfl, .inr rfl⟩

end Operation

/-! ## Cells that are not moved -/

/-- The cell lives inside no other one, and is in hand as long as it lives. -/
structure Cells.AtLarge (cells : Cells α β γ) (k : String) : Prop where
  held : (cells.get k).life = .dropped ∨ (cells.get k).held = true
  unowned : ∀ key rule, (cells.get key).life = .defined rule → k ∉ rule.ownedCells

namespace Cells

variable {cells : Cells α β γ} {keys : List String} {k : String}

theorem get_take_of_not_mem (cells : Cells α β γ) (hkeys : k ∉ keys) :
    (cells.take keys).get k = cells.get k := by
  rw [get_take]
  simp [hkeys]

theorem AtLarge.take (h : cells.AtLarge k) (hkeys : k ∉ keys) : (cells.take keys).AtLarge k where
  held := by
    rw [get_take_of_not_mem cells hkeys]
    exact h.held
  unowned key rule hlife := by
    rw [get_take] at hlife
    exact h.unowned key rule hlife

theorem AtLarge.get_drop (h : cells.AtLarge k) (hkeys : k ∉ keys) :
    (cells.drop keys).get k = cells.get k :=
  get_dropFrom_of_unowned h.unowned hkeys _

theorem AtLarge.unowned_drop (h : cells.AtLarge k) (keys : List String) (key : String)
    (rule : Rule α β γ) (hlife : ((cells.drop keys).get key).life = .defined rule) :
    k ∉ rule.ownedCells := by
  rcases (cells.passes_drop keys key).life with hgone | hsame
  · rw [hgone] at hlife
    cases hlife
  · rw [hsame] at hlife
    exact h.unowned key rule hlife

theorem AtLarge.drop (h : cells.AtLarge k) (hkeys : k ∉ keys) : (cells.drop keys).AtLarge k where
  held := by
    rw [h.get_drop hkeys]
    exact h.held
  unowned := h.unowned_drop keys

theorem AtLarge.supply (h : cells.AtLarge k) {key : String} (hlife : (cells.get key).life = .undefined)
    {rule : Rule α β γ} (hrule : k ∉ rule.ownedCells) : (cells.supply key rule).AtLarge k where
  held := by
    rw [get_supply hlife]
    split
    next hk =>
      subst hk
      exact .inr (h.held.resolve_left (by simp [hlife]))
    next => exact h.held
  unowned other definition hdefined := by
    rw [get_supply hlife] at hdefined
    split at hdefined
    · cases hdefined
      exact hrule
    · exact h.unowned other definition hdefined

end Cells

/-- A cell that is not moved into a rule stays in hand, and is dropped by being dropped. -/
theorem Operation.Changes.atLarge {cells cells' : Cells α β γ} {op : Operation κ α β γ}
    (hchanges : op.Changes cells cells') {k : String} (h : cells.AtLarge k) (hop : k ∉ op.ownedCells) :
    cells'.AtLarge k ∧
      ((cells'.get k).life = .dropped ↔ (cells.get k).life = .dropped ∨ op = .drop k) := by
  -- Most operations spare the cell.
  have hspared (hlarge : cells'.AtLarge k) (hget : cells'.get k = cells.get k) (hother : op ≠ .drop k) :
      cells'.AtLarge k ∧
        ((cells'.get k).life = .dropped ↔ (cells.get k).life = .dropped ∨ op = .drop k) := by
    rw [hget]
    exact ⟨hlarge, by simp [hother]⟩
  have htake := h.take hop
  have hget := cells.get_take_of_not_mem hop
  cases hchanges with
  | @supply key rule hlife =>
    have hwaits : ((cells.take rule.ownedCells).get key).life = .undefined := by
      rw [Cells.get_take, hlife]
    have hsupply := Cells.get_supply hwaits rule k
    by_cases hk : k = key
    · subst hk
      refine ⟨htake.supply hwaits hop, ?_⟩
      rw [hsupply]
      simp [hlife]
    · rw [if_neg hk] at hsupply
      exact hspared (htake.supply hwaits hop) (hsupply.trans hget) nofun
  | refuse _ => exact hspared (htake.drop hop) ((htake.get_drop hop).trans hget) nofun
  | @drop key hheld =>
    by_cases hk : k = key
    · subst hk
      have hgone : ((cells.drop [k]).get k).life = .dropped := by
        rw [Cells.get_drop_self]
        rfl
      exact ⟨⟨.inl hgone, h.unowned_drop [k]⟩, by simp [hgone]⟩
    · have hkeys : k ∉ [key] := by simpa using hk
      refine hspared (h.drop hkeys) (h.get_drop hkeys) ?_
      rintro ⟨⟩
      exact hk rfl
  | @spare key hheld =>
    refine ⟨h, .inl, ?_⟩
    -- A cell at large that is not in hand is gone already.
    rintro (hgone | ⟨⟨⟩⟩)
    · exact hgone
    · exact h.held.resolve_right hheld
  | keep => exact hspared htake hget nofun
  | describe => exact hspared (h.drop hop) (h.get_drop hop) nofun
  | use => exact hspared (htake.drop hop) ((htake.get_drop hop).trans hget) nofun
  | halt => exact hspared h rfl nofun

/-! ## All operations -/

namespace Session

variable [Cursor κ α] [Element α] [DecidableEq α] {foreign : γ → κ → κ → Match κ}

/-- The session after several operations. -/
def performAll (foreign : γ → κ → κ → Match κ) (s : Session κ α β γ)
    (ops : List (Operation κ α β γ)) : Session κ α β γ :=
  ops.foldl (perform foreign) s

theorem performAll_append (s : Session κ α β γ) (ops : List (Operation κ α β γ))
    (op : Operation κ α β γ) :
    s.performAll foreign (ops ++ [op]) = (s.performAll foreign ops).perform foreign op := by
  simp [performAll]

/-- **The first definition stays.** Whatever is done with the cells of a session, a cell that has not been
defined before has its first definition, unless it is gone. -/
theorem performAll_get (foreign : γ → κ → κ → Match κ) (s : Session κ α β γ)
    (ops : List (Operation κ α β γ)) (k : String) (h : (s.cells.get k).life = .undefined) :
    ((s.performAll foreign ops).cells.get k).name = (s.cells.get k).name ∧
      (((s.performAll foreign ops).cells.get k).life = .dropped ∨
        ((s.performAll foreign ops).cells.get k).life = Operation.firstDefinition k ops) := by
  -- By induction on the operations, the last one at the end.
  induction ops using List.reverseRecOn with
  | nil => exact ⟨rfl, .inr h⟩
  | append_singleton ops op ih =>
    obtain ⟨hname, hlife⟩ := ih
    obtain ⟨hnameLast, hlifeLast⟩ := (changes_perform foreign (s.performAll foreign ops) op).get k
    rw [performAll_append, Operation.firstDefinition_append]
    refine ⟨hnameLast.trans hname, ?_⟩
    rcases hlifeLast with hgone | hlifeLast
    · exact .inl hgone
    · rcases hlife with hgone | hlife
      · rw [hgone] at hlifeLast
        exact .inl hlifeLast
      · rw [hlife] at hlifeLast
        exact .inr hlifeLast

/-- **Only dropping it ends the life of a cell** that is not moved into a rule. -/
theorem performAll_atLarge {s : Session κ α β γ} {ops : List (Operation κ α β γ)} {k : String}
    (h : s.cells.AtLarge k) (hops : ∀ op ∈ ops, k ∉ op.ownedCells) :
    (s.performAll foreign ops).cells.AtLarge k ∧
      (((s.performAll foreign ops).cells.get k).life = .dropped ↔
        (s.cells.get k).life = .dropped ∨ .drop k ∈ ops) := by
  induction ops using List.reverseRecOn with
  | nil => exact ⟨h, by simp [performAll]⟩
  | append_singleton ops op ih =>
    obtain ⟨hlarge, hlife⟩ := ih fun op hop => hops op (by simp [hop])
    obtain ⟨hlargeLast, hlifeLast⟩ := (changes_perform foreign (s.performAll foreign ops) op).atLarge
      hlarge (hops op (by simp))
    rw [performAll_append]
    refine ⟨hlargeLast, ?_⟩
    rw [hlifeLast, hlife, or_assoc]
    simp [eq_comm]

end Session

/-! ## Handles -/

section Handles

variable [Cursor κ α] [Element α] [DecidableEq α]

/-- Wherever a rule uses the cell or a handle of it, at whatever depth, this fails where it started and
gives one warning. -/
def Cells.Warns (foreign : γ → κ → κ → Match κ) (cells : Cells α β γ) (key : String)
    (cause : Warning) : Prop :=
  ∀ depth, ∃ handle : String → Meaning κ β,
    (∀ tree : Rule α β γ, tree.parse foreign cells depth = tree.denote foreign handle) ∧
    ∀ i j s m t, (handle key i j).Ends s m t ↔ m = .failure i ∧ t = s.record (.warning cause)

/-- Wherever a rule uses the cell or a handle of it, this does what the definition does. -/
def Cells.Follows (foreign : γ → κ → κ → Match κ) (cells : Cells α β γ) (key : String)
    (definition : Rule α β γ) : Prop :=
  ∀ depth, ∃ handle : String → Meaning κ β,
    (∀ tree : Rule α β γ, tree.parse foreign cells (depth + 1) = tree.denote foreign handle) ∧
    handle key = definition.parse foreign cells depth

namespace Cells

variable {foreign : γ → κ → κ → Match κ} {cells : Cells α β γ} {key : String}

theorem warns_of_handle {cause : Warning}
    (h : ∀ define : Rule α β γ → Meaning κ β, cells.handle define key = Meaning.warn cause) :
    cells.Warns foreign key cause := by
  intro depth
  -- The handles of each depth are given by the definitions of the next one.
  cases depth with
  | zero =>
    refine ⟨cells.handle fun _ _ _ => throw .unending, fun _ => rfl, ?_⟩
    rw [h]
    exact Meaning.ends_warn
  | succ depth =>
    refine ⟨cells.handle (Rule.parse foreign cells depth), fun _ => rfl, ?_⟩
    rw [h]
    exact Meaning.ends_warn

theorem warns_of_undefined (h : (cells.get key).life = .undefined) :
    cells.Warns foreign key (.undefinedCell (cells.get key).name) :=
  warns_of_handle fun define => by simp only [handle, h]

theorem warns_of_dropped (h : (cells.get key).life = .dropped) :
    cells.Warns foreign key (.droppedCell (cells.get key).name) :=
  warns_of_handle fun define => by simp only [handle, h]

theorem follows_of_defined {definition : Rule α β γ} (h : (cells.get key).life = .defined definition) :
    cells.Follows foreign key definition := by
  intro depth
  refine ⟨cells.handle (Rule.parse foreign cells depth), fun _ => rfl, ?_⟩
  simp only [handle, h]

end Cells

namespace Session

/-- **The life of a cell.** A cell is made, and then cells are defined and dropped, rules are kept, described
and parsed, in any order.

The cell keeps its name. It has its first definition until it is gone; if it is not moved into a rule, it
is gone when it has been dropped, whatever becomes of other cells. A first definition is accepted. Every
later one is refused with the name of the cell, and nothing changes but that the refused rule is dropped.
In every rule that is parsed then, with whatever cells inside it, the cell and its handles warn and fail
before the definition and after the drop, and do what the definition does in between. -/
theorem life_cycle (foreign : γ → κ → κ → Match κ) (s₀ : Session κ α β γ) (key name : String)
    (hmade : s₀.cells.get key = ⟨name, .undefined, true⟩)
    (hfresh : ∀ k rule, (s₀.cells.get k).life ≠ .defined rule) (ops : List (Operation κ α β γ)) :
    let s := s₀.performAll foreign ops
    let c := s.cells.get key
    c.name = name ∧
    (c.life = .dropped ∨ c.life = Operation.firstDefinition key ops) ∧
    ((∀ op ∈ ops, key ∉ op.ownedCells) → (c.life = .dropped ↔ .drop key ∈ ops)) ∧
    (∀ rule, c.life = .undefined → (s.define key rule).1 = none ∧
      ((s.define key rule).2.cells.get key).life = .defined rule) ∧
    (∀ first rule, c.life = .defined first → (s.define key rule).1 = some (.alreadyDefined name) ∧
      (s.define key rule).2 =
        { s with cells := (s.cells.take rule.ownedCells).drop rule.ownedCells } ∧
      (rule.ownedCells = [] → (s.define key rule).2 = s)) ∧
    ∀ moved,
      (c.life = .undefined → (s.cells.take moved).Warns foreign key (.undefinedCell name)) ∧
      (∀ rule, c.life = .defined rule → (s.cells.take moved).Follows foreign key rule ∧
        ∀ handle ∈ [Rule.cell key, .owned key], ∀ i j t m t',
          handle.Yields foreign (s.cells.take moved) i j t m t' ↔
            rule.Yields foreign (s.cells.take moved) i j t m t') ∧
      (c.life = .dropped → (s.cells.take moved).Warns foreign key (.droppedCell name)) := by
  intro s c
  have hundefined : (s₀.cells.get key).life = .undefined := by rw [hmade]
  have hlarge : s₀.cells.AtLarge key := by
    refine ⟨.inr (by rw [hmade]), ?_⟩
    intro k rule hlife
    exact absurd hlife (hfresh k rule)
  obtain ⟨hname, hlife⟩ := s₀.performAll_get foreign ops key hundefined
  have hcname : c.name = name := by rw [hname, hmade]
  refine ⟨hcname, hlife, ?_, ?_, ?_, fun moved => ?_⟩
  · intro hops
    rw [(performAll_atLarge hlarge hops).2, hundefined]
    simp
  · intro rule hwaits
    have htaken : ((s.cells.take rule.ownedCells).get key).life = .undefined := by
      rw [Cells.get_take]
      exact hwaits
    rw [define_of_undefined hwaits]
    refine ⟨rfl, ?_⟩
    rw [Cells.get_supply htaken, if_pos rfl]
  · intro first rule hdefined
    have hrefused : c.life ≠ .undefined := by rw [hdefined]; nofun
    rw [define_of_ne_undefined hrefused]
    refine ⟨congrArg (some ∘ DefinitionError.alreadyDefined) hcname, rfl, ?_⟩
    intro hrule
    rw [hrule]
    rfl
  -- Moving other cells into the rules of a step changes nothing for this one.
  · have htakenLife : ((s.cells.take moved).get key).life = c.life := by rw [Cells.get_take]
    have htakenName : ((s.cells.take moved).get key).name = name := by rw [Cells.get_take, hcname]
    refine ⟨fun h => ?_, fun rule h => ⟨?_, ?_⟩, fun h => ?_⟩
    · rw [← htakenName]
      exact Cells.warns_of_undefined (htakenLife.trans h)
    · exact Cells.follows_of_defined (htakenLife.trans h)
    · intro handle hhandle i j t m t'
      have hcell : (Rule.cell key).Yields foreign (s.cells.take moved) i j t m t' ↔
          rule.Yields foreign (s.cells.take moved) i j t m t' :=
        Rule.yields_cell_of_defined (htakenLife.trans h)
      obtain rfl | rfl : handle = .cell key ∨ handle = .owned key := by simpa using hhandle
      · exact hcell
      · rw [Rule.yields_owned_iff]
        exact hcell
    · rw [← htakenName]
      exact Cells.warns_of_dropped (htakenLife.trans h)

/-- A rule that mentions itself, defined a second time while another cell is dropped: the first definition
stays, and the handles of the other cell fail. -/
theorem life_cycle_nested :
    let nested : Rule UInt8 String Unit := .optional (.seq (.element 40) (.cell "nested"))
    let s₀ : Session (SliceCursor UInt8) UInt8 String Unit :=
      { cells := [("nested", ⟨"nested", .undefined, true⟩), ("other", ⟨"other", .undefined, true⟩)] }
    let foreign : Unit → SliceCursor UInt8 → SliceCursor UInt8 → Match (SliceCursor UInt8) :=
      fun _ i _ => .failure i
    let s := s₀.performAll foreign
      [.define "nested" nested, .drop "other", .define "nested" (.cell "other")]
    (s.define "nested" .any).1 = some (.alreadyDefined "nested") ∧
      s.cells.Follows foreign "nested" nested ∧
      s.cells.Warns foreign "other" (.droppedCell "other") := by
  intro nested s₀ foreign s
  have hfresh : ∀ k rule, (s₀.cells.get k).life ≠ .defined rule := by
    intro k rule
    by_cases hnested : k = "nested"
    · simp [s₀, Cells.get, hnested]
    · by_cases hother : k = "other"
      · simp [s₀, Cells.get, List.lookup_cons, hother]
      · simp [s₀, Cells.get, List.lookup_cons, beq_eq_false_iff_ne.2 hnested,
          beq_eq_false_iff_ne.2 hother]
  obtain ⟨-, -, -, -, hdefine, hrun⟩ := life_cycle foreign s₀ "nested" "nested" rfl hfresh
    [.define "nested" nested, .drop "other", .define "nested" (.cell "other")]
  obtain ⟨-, -, -, -, -, hother⟩ := life_cycle foreign s₀ "other" "other" rfl hfresh
    [.define "nested" nested, .drop "other", .define "nested" (.cell "other")]
  exact ⟨(hdefine nested .any rfl).1, ((hrun []).2.1 nested rfl).1, (hother []).2.2 rfl⟩

end Session

end Handles

end Pegwork
