import Pegwork.Proofs.Twin.Composite

/-!
# Rules in twin windows

A rule runs alike in twin windows if its foreign rules and the handles in it do. Not every handle has to
run alike from everywhere: `Rule.exposed` lists the cells whose handles can be tried before the rule has
taken an element, and all other handles are started later. `Rule.consumes` says which rules cannot match
without taking an element.

`Rule.alike_denote` is the induction over the shapes of rules. It follows one level of handles;
`Rule.alike_parse` goes through all levels.
-/

namespace Pegwork

namespace Rule

variable {α β γ : Type}

/-- The foreign rules that occur in a rule. -/
def foreigns : Rule α β γ → List γ
  | foreign f => [f]
  | seq a b | choice a b | exclusive a b => a.foreigns ++ b.foreigns
  | negation a | optional a | find a | lookahead a | boxed a | reference a => a.foreigns
  | repetition item separator _ => item.foreigns ++ separator.foreigns
  | select a b c => a.foreigns ++ (b.foreigns ++ c.foreigns)
  | onFailure a _ => a.foreigns
  | onSuccess a _ => a.foreigns
  | traced a _ => a.foreigns
  | call a _ => a.foreigns
  | _ => []

/-- The foreign rule `f` occurs in the rule or in the definition of a cell. -/
def Mentions (cells : Cells α β γ) (rule : Rule α β γ) (f : γ) : Prop :=
  f ∈ rule.foreigns ∨
    ∃ key definition, (cells.get key).life = .defined definition ∧ f ∈ definition.foreigns

/-- Whether the rule cannot match without taking an element. Handles and foreign rules could; so could
reads into a single variable or an array, which take as much as the variable has room for. -/
def consumes : Rule α β γ → Bool
  | any | element _ | token _ | satisfy _ | identifier | image _ => true
  | literal text => !text.toList.isEmpty
  | elements as => !as.isEmpty
  | run _ min _ => 1 ≤ min
  | constant value => !value
  | advance count => 1 ≤ count
  | readSequence _ min _ => 1 ≤ min
  | seq a b => a.consumes || b.consumes
  | choice a b | exclusive a b => a.consumes && b.consumes
  | select a b c => (a.consumes || b.consumes) && c.consumes
  | repetition item _ bounds => item.consumes && decide (1 ≤ bounds.least)
  | find a | boxed a | reference a => a.consumes
  | onFailure a _ => a.consumes
  | onSuccess a _ => a.consumes
  | traced a _ => a.consumes
  | call a _ => a.consumes
  | _ => false

/-- The cells whose handles can be tried before the rule has taken an element. The second of two rules
in a row counts only if the first can match without taking one; an item counts if there may be a pass,
and a separator if there may be two of them and the item can match without taking an element. -/
def exposed : Rule α β γ → List String
  | cell key | owned key => [key]
  | seq a b => a.exposed ++ if a.consumes then [] else b.exposed
  | choice a b | exclusive a b => a.exposed ++ b.exposed
  | select a b c => a.exposed ++ ((if a.consumes then [] else b.exposed) ++ c.exposed)
  | repetition item separator bounds =>
    (if 1 ≤ bounds.most then item.exposed else []) ++
      if item.consumes then [] else if 2 ≤ bounds.most then separator.exposed else []
  | negation a | optional a | find a | lookahead a | boxed a | reference a => a.exposed
  | onFailure a _ => a.exposed
  | onSuccess a _ => a.exposed
  | traced a _ => a.exposed
  | call a _ => a.exposed
  | _ => []

section Depth

variable {κ : Type} [Cursor κ α] [Element α] [DecidableEq α]

/-- What definitions mean to the handles of a rule that is parsed to a given depth. -/
def inner (foreign : γ → κ → κ → Match κ) (cells : Cells α β γ) : (depth : Nat) → Rule α β γ →
    Meaning κ β
  | 0 => fun _ _ _ => throw .unending
  | depth + 1 => parse foreign cells depth

theorem parse_eq (foreign : γ → κ → κ → Match κ) (cells : Cells α β γ) (depth : Nat)
    (rule : Rule α β γ) :
    rule.parse (β := β) foreign cells depth =
      rule.denote foreign (cells.handle (inner foreign cells depth)) := by
  cases depth <;> rfl

end Depth

end Rule

variable {κ ρ α β γ : Type} [Cursor κ α] [Track κ α] [Steps κ α] [Cursor ρ α] [Track ρ α] [Steps ρ α]

namespace Rule

variable {p : Twin κ ρ} {old : Store κ β} {old' : Store ρ β} {H : Halt → Prop}

open Recognizer Meaning

/-- The handles that are exposed behind a part have to run alike only from where that part has come to:
if it consumes, one element further on. -/
theorem alike_behind {x : Nat} (part : Rule α β γ) {keys : List String} {handle : String → Meaning κ β}
    {handle' : String → Meaning ρ β}
    (hexposed : part.consumes = false →
      ∀ key ∈ keys, Meaning.Alike p old old' H x 0 (handle key) (handle' key))
    (hlater : ∀ key, Meaning.Alike p old old' H (x + 1) 0 (handle key) (handle' key)) :
    ∀ key ∈ keys,
      Meaning.Alike p old old' H (x + part.consumes.toNat) 0 (handle key) (handle' key) := by
  cases hpart : part.consumes with
  | true => exact fun key _ => hlater key
  | false => exact hexposed hpart

variable [Element α] [DecidableEq α] {foreign : γ → κ → κ → Match κ} {foreign' : γ → ρ → ρ → Match ρ}
  {handle : String → Meaning κ β} {handle' : String → Meaning ρ β}

/-- **One level of handles.** A rule runs alike in twin windows, from `x` elements on, if its foreign
rules do, its exposed handles do from `x` elements on, and all handles do from one element later. -/
theorem alike_denote (rule : Rule α β γ) {x : Nat}
    (hforeign : ∀ f ∈ rule.foreigns,
      Meaning.Alike p old old' H 0 0 (ofFunction (foreign f)) (ofFunction (foreign' f)))
    (hexposed : ∀ key ∈ rule.exposed, Meaning.Alike p old old' H x 0 (handle key) (handle' key))
    (hlater : ∀ key, Meaning.Alike p old old' H (x + 1) 0 (handle key) (handle' key)) :
    Meaning.Alike p old old' H x rule.consumes.toNat (rule.denote foreign handle)
      (rule.denote foreign' handle') := by
  induction rule generalizing x with
  | empty => exact alike_ofTerminal (Terminal.alike_constant fun _ => rfl)
  | any => exact alike_ofTerminal (Terminal.alike_satisfy _)
  | element a => exact alike_ofTerminal (Terminal.alike_satisfy _)
  | token t => exact alike_ofTerminal (Terminal.alike_satisfy _)
  | literal text =>
    refine (alike_ofTerminal (Terminal.alike_literal _)).mono (Nat.le_refl x) ?_
    rw [List.length_map, consumes]
    cases text.toList <;> simp
  | elements as =>
    refine (alike_ofTerminal (Terminal.alike_literal _)).mono (Nat.le_refl x) ?_
    rw [List.length_map, consumes]
    cases as <;> simp
  | satisfy f => exact alike_ofTerminal (Terminal.alike_satisfy f)
  | run f min max =>
    refine (alike_ofTerminal (Terminal.alike_run f min max)).mono (Nat.le_refl x) ?_
    cases min <;> simp [consumes]
  | probe flag => exact alike_probe Store.mirrors_alike flag
  | constant value =>
    exact alike_ofTerminal (Terminal.alike_constant fun hvalue => by simp [consumes, hvalue])
  | identifier => exact alike_ofTerminal Terminal.alike_identifier
  | ending => exact alike_ofTerminal Terminal.alike_ending
  | advance count =>
    refine (alike_ofTerminal (Terminal.alike_advance count)).mono (Nat.le_refl x) ?_
    cases count <;> simp [consumes]
  | @image t word =>
    refine (alike_ofTerminal (Terminal.alike_literal _)).mono (Nat.le_refl x) ?_
    rw [List.length_map, Word.length_image]
    exact t.size_pos
  | readWord name => exact alike_readWord Store.mirrors_alike name
  | readArray name => exact alike_readArray Store.mirrors_alike name
  | readSequence name min max =>
    refine (alike_readSequence Store.mirrors_alike name min max).mono (Nat.le_refl x) ?_
    cases min <;> simp [consumes]
  | seq a b iha ihb =>
    have ha := iha (fun f hf => hforeign f (List.mem_append_left _ hf))
      (fun key hkey => hexposed key (List.mem_append_left _ hkey)) hlater
    have hb := ihb (fun f hf => hforeign f (List.mem_append_right _ hf))
      (alike_behind a (fun hpart key hkey => hexposed key (by simp [exposed, hpart, hkey])) hlater)
      fun key => (hlater key).mono (by omega) (Nat.le_refl 0)
    refine (ha.seq hb).mono (Nat.le_refl x) ?_
    rw [consumes]
    cases a.consumes <;> cases b.consumes <;> simp
  | choice a b iha ihb =>
    have ha := iha (fun f hf => hforeign f (List.mem_append_left _ hf))
      (fun key hkey => hexposed key (List.mem_append_left _ hkey)) hlater
    have hb := ihb (fun f hf => hforeign f (List.mem_append_right _ hf))
      (fun key hkey => hexposed key (List.mem_append_right _ hkey)) hlater
    refine (ha.mono (Nat.le_refl x) ?_).choice (hb.mono (Nat.le_refl x) ?_)
    · exact Bool.toNat_le_toNat (Bool.and_le_left _ _)
    · exact Bool.toNat_le_toNat (Bool.and_le_right _ _)
  | exclusive a b iha ihb =>
    have ha := iha (fun f hf => hforeign f (List.mem_append_left _ hf))
      (fun key hkey => hexposed key (List.mem_append_left _ hkey)) hlater
    have hb := ihb (fun f hf => hforeign f (List.mem_append_right _ hf))
      (fun key hkey => hexposed key (List.mem_append_right _ hkey)) hlater
    refine (ha.mono (Nat.le_refl x) ?_).exclusive (hb.mono (Nat.le_refl x) ?_)
    · exact Bool.toNat_le_toNat (Bool.and_le_left _ _)
    · exact Bool.toNat_le_toNat (Bool.and_le_right _ _)
  | negation a ih => exact (ih hforeign hexposed hlater).negation
  | optional a ih => exact (ih hforeign hexposed hlater).optional
  | repetition item separator bounds ihitem ihseparator =>
    -- A part that no pass can reach exposes nothing, and nothing is asked of it.
    have hitem : 1 ≤ bounds.most → _ := fun hmost =>
      ihitem (fun f hf => hforeign f (List.mem_append_left _ hf))
        (fun key hkey => hexposed key (by simp [exposed, hmost, hkey])) hlater
    have hseparator : 2 ≤ bounds.most → _ := fun hmost =>
      ihseparator (fun f hf => hforeign f (List.mem_append_right _ hf))
        (alike_behind item
          (fun hpart key hkey => hexposed key (by simp [exposed, hpart, hmost, hkey])) hlater)
        fun key => (hlater key).mono (by omega) (Nat.le_refl 0)
    refine Alike.repetition hitem (fun hmost => (hseparator hmost).mono (Nat.le_refl _) (Nat.zero_le _))
      (Bool.toNat_le_toNat (Bool.and_le_left _ _)) ?_
    intro hleast
    simp [consumes, hleast]
  | find a ih => exact (ih hforeign hexposed hlater).find
  | select a b c iha ihb ihc =>
    have ha := iha (fun f hf => hforeign f (List.mem_append_left _ hf))
      (fun key hkey => hexposed key (List.mem_append_left _ hkey)) hlater
    have hb := ihb (fun f hf => hforeign f (by simp [foreigns, hf]))
      (alike_behind a (fun hpart key hkey => hexposed key (by simp [exposed, hpart, hkey])) hlater)
      fun key => (hlater key).mono (by omega) (Nat.le_refl 0)
    have hc := ihc (fun f hf => hforeign f (by simp [foreigns, hf]))
      (fun key hkey => hexposed key (by simp [exposed, hkey])) hlater
    refine ha.select hb (hc.mono (Nat.le_refl x) (Bool.toNat_le_toNat (Bool.and_le_right _ _))) ?_
    rw [consumes]
    cases a.consumes <;> cases b.consumes <;> cases c.consumes <;> simp
  | lookahead a ih => exact (ih hforeign hexposed hlater).lookahead
  | onFailure a label ih => exact (ih hforeign hexposed hlater).onFailure (observers_hook label).atLimit
  | onSuccess a effect ih => exact (ih hforeign hexposed hlater).onSuccess (observers_perform effect).atLevel
  | traced a name ih => exact alike_traced name (ih hforeign hexposed hlater)
  | boxed a ih => exact ih hforeign hexposed hlater
  | reference a ih => exact ih hforeign hexposed hlater
  | cell key => exact hexposed key (List.mem_singleton_self key)
  | owned key => exact hexposed key (List.mem_singleton_self key)
  | call a label ih =>
    exact (ih hforeign hexposed hlater).observed (observers_call label).atLimit
      fun _ _ _ _ _ => Run.paired_pure trivial
  | foreign f =>
    exact (hforeign f (List.mem_singleton_self f)).mono (Nat.zero_le x) (Nat.le_refl 0)

end Rule

/-! ## Handles -/

/-- A handle runs alike if the definition behind it does. One without a definition fails everywhere. -/
theorem Cells.alike_handle {p : Twin κ ρ} {old : Store κ β} {old' : Store ρ β} {H : Halt → Prop}
    {x : Nat} {cells : Cells α β γ} {define : Rule α β γ → Meaning κ β}
    {define' : Rule α β γ → Meaning ρ β} {key : String}
    (h : ∀ rule, (cells.get key).life = .defined rule →
      Meaning.Alike p old old' H x 0 (define rule) (define' rule)) :
    Meaning.Alike p old old' H x 0 (cells.handle define key) (cells.handle define' key) := by
  cases hlife : (cells.get key).life with
  | undefined =>
    simp only [Cells.handle, hlife]
    exact Meaning.alike_warn Store.mirrors_alike _
  | defined rule =>
    simp only [Cells.handle, hlife]
    exact h rule hlife
  | dropped =>
    simp only [Cells.handle, hlife]
    exact Meaning.alike_warn Store.mirrors_alike _

namespace Rule

variable [Element α] [DecidableEq α]

variable {p : Twin κ ρ} {old : Store κ β} {old' : Store ρ β} {foreign : γ → κ → κ → Match κ}
  {foreign' : γ → ρ → ρ → Match ρ}

open Recognizer

/-- A rule runs alike if all definitions run alike, from wherever its handles may be started. -/
theorem alike_parse_of_inner {cells : Cells α β γ} {depth : Nat} {rule : Rule α β γ}
    (hforeign : ∀ f ∈ rule.foreigns, Meaning.Alike p old old' (· = .unending) 0 0
      (ofFunction (foreign f)) (ofFunction (foreign' f)))
    (hinner : ∀ key definition, (cells.get key).life = .defined definition →
      Meaning.Alike p old old' (· = .unending) 0 0 (inner foreign cells depth definition)
        (inner foreign' cells depth definition)) :
    Meaning.Alike p old old' (· = .unending) 0 0 (rule.parse foreign cells depth)
      (rule.parse foreign' cells depth) := by
  have hhandle : ∀ key, Meaning.Alike p old old' (· = .unending) 0 0
      (cells.handle (inner foreign cells depth) key) (cells.handle (inner foreign' cells depth) key) :=
    fun key => Cells.alike_handle (hinner key)
  rw [parse_eq, parse_eq]
  have hrule := alike_denote rule hforeign (fun key _ => hhandle key)
    fun key => (hhandle key).mono (Nat.zero_le _) (Nat.le_refl 0)
  exact hrule.mono (Nat.le_refl 0) (Nat.zero_le _)

/-- Rules run alike in twin windows, whatever the depth is. The only reason to halt is the depth. -/
theorem alike_parse {cells : Cells α β γ} {rule : Rule α β γ} (depth : Nat)
    (hforeign : ∀ f, Mentions cells rule f →
      Meaning.Alike p old old' (· = .unending) 0 0 (ofFunction (foreign f)) (ofFunction (foreign' f))) :
    Meaning.Alike p old old' (· = .unending) 0 0 (rule.parse foreign cells depth)
      (rule.parse foreign' cells depth) := by
  refine alike_parse_of_inner (fun f hf => hforeign f (.inl hf)) ?_
  induction depth with
  | zero => exact fun _ _ _ _ _ _ => Run.paired_throw rfl
  | succ depth ih =>
    intro key definition hlife
    exact alike_parse_of_inner (fun f hf => hforeign f (.inr ⟨key, definition, hlife, hf⟩)) ih

end Rule

end Pegwork
