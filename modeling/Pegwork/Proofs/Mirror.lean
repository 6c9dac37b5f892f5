import Pegwork.Proofs.Pairing
import Pegwork.Rule.Meaning

/-!
# Stores that mirror each other

Apart from its hooks, actions, calls and traces, a rule does only a few things to a store: it asks for flags
and variables, sets them, and leaves probes and warnings on the trail. `Store.Mirrors` says that a relation
between stores does not notice these things when both sides do them. Warnings, probes and reads can then be
followed side by side, over different cursors and labels, as long as the reads themselves go alike.
-/

namespace Pegwork

variable {κ ρ α β β' : Type}

/-- Related stores have the same flags and variables, and stay related when both sides set one of them, probe
a flag or give a warning. -/
structure Store.Mirrors (S : Store κ β → Store ρ β' → Prop) : Prop where
  raised_eq : ∀ {s t}, S s t → s.raised = t.raised
  memory_eq : ∀ {s t}, S s t → s.memory = t.memory
  setFlag : ∀ {s t} (flag : String) (value : Bool), S s t → S (s.setFlag flag value) (t.setFlag flag value)
  setVariable : ∀ {s t} (name : String) (v : Variable), S s t →
    S (s.setVariable name v) (t.setVariable name v)
  probe : ∀ {s t} (flag : String) (value : Bool), S s t →
    S (s.record (.probe flag value)) (t.record (.probe flag value))
  warning : ∀ {s t} (cause : Warning), S s t → S (s.record (.warning cause)) (t.record (.warning cause))

namespace Store.Mirrors

variable {S : Store κ β → Store ρ β' → Prop} {s : Store κ β} {t : Store ρ β'}

theorem flag_eq (hS : Mirrors S) (h : S s t) (flag : String) : s.flag flag = t.flag flag := by
  simp only [Store.flag, hS.raised_eq h]

theorem content?_eq (hS : Mirrors S) (h : S s t) (name : String) : s.content? name = t.content? name := by
  simp only [content?, hS.memory_eq h]

end Store.Mirrors

namespace Meaning

variable {S : Store κ β → Store ρ β' → Prop} {H : Halt → Prop} {V : Match κ → Match ρ → Prop}
  {i j : κ} {i' j' : ρ}

open Run

/-! ## Flags, warnings and probes -/

theorem paired_setFlag (hS : Store.Mirrors S) (flag : String) (value : Bool) (c d : κ) (c' d' : ρ) :
    Paired S H (fun _ _ => True) (perform (.setFlag flag value) c d) (perform (.setFlag flag value) c' d') :=
  paired_modify fun _ _ h => hS.setFlag flag value h

theorem paired_warn (hS : Store.Mirrors S) (cause : Warning) (hfailed : V (.failure i) (.failure i')) :
    Paired S H V (warn cause i j) (warn cause i' j') :=
  (paired_modify fun _ _ h => hS.warning cause h).bind fun _ _ _ => paired_pure hfailed

theorem paired_probe (hS : Store.Mirrors S) (flag : String) (hstay : ∀ b, V (.stay b i) (.stay b i')) :
    Paired S H V (probe flag i j) (probe flag i' j') := by
  refine paired_get.bind fun s t hst => ?_
  rw [hS.flag_eq hst]
  refine (paired_modify fun _ _ h => hS.probe flag _ h).bind fun _ _ _ => ?_
  exact paired_pure (hstay _)

/-! ## Reads -/

section Reads

variable [Cursor κ α] [Cursor ρ α] [Element α]

/-- The two reads give the same words and outcomes that correspond to each other. -/
def ReadAlike (S : Store κ β → Store ρ β' → Prop) (H : Halt → Prop) (V : Match κ → Match ρ → Prop) {τ : Type}
    (x : Except Halt (τ × Match κ)) (y : Except Halt (τ × Match ρ)) : Prop :=
  Paired S H (fun r r' => r.1 = r'.1 ∧ V r.2 r'.2) (liftM x) (liftM y)

/-- The words of a read are put into a variable. -/
theorem paired_store (hS : Store.Mirrors S) (name : String) {τ : Type} (variable_ : τ → Variable)
    {x : Except Halt (τ × Match κ)} {y : Except Halt (τ × Match ρ)} (hread : ReadAlike S H V x y) :
    Paired S H V
      (do let (words, m) ← x; modify (Store.setVariable · name (variable_ words)); return m)
      (do let (words, m) ← y; modify (Store.setVariable · name (variable_ words)); return m) := by
  refine Paired.bind hread ?_
  rintro ⟨words, m⟩ ⟨words', m'⟩ ⟨hwords, hm⟩
  simp only at hwords hm
  subst hwords
  exact (paired_modify fun _ _ h => hS.setVariable name _ h).bind fun _ _ _ => paired_pure hm

theorem paired_overwrite (hS : Store.Mirrors S) (name : String) (v : Variable)
    (hread : ReadAlike S H V (Terminal.readWords v.words i j) (Terminal.readWords v.words i' j')) :
    Paired S H V (overwrite name v i j) (overwrite name v i' j') :=
  paired_store hS name (fun words => { v with words }) hread

theorem paired_readWord (hS : Store.Mirrors S) (name : String) (hfailed : V (.failure i) (.failure i'))
    (hread : ∀ v : Variable,
      ReadAlike S H V (Terminal.readWords v.words i j) (Terminal.readWords v.words i' j')) :
    Paired S H V (readWord name i j) (readWord name i' j') := by
  refine paired_get.bind fun s t hst => ?_
  rw [hS.content?_eq hst]
  cases t.content? name with
  | none => exact paired_pure hfailed
  | some v => exact paired_overwrite hS name v (hread v)

theorem paired_readArray (hS : Store.Mirrors S) (name : String) (hfailed : V (.failure i) (.failure i'))
    (hread : ∀ v : Variable,
      ReadAlike S H V (Terminal.readWords v.words i j) (Terminal.readWords v.words i' j')) :
    Paired S H V (readArray name i j) (readArray name i' j') := by
  refine paired_get.bind fun s t hst => ?_
  rw [hS.content?_eq hst]
  cases t.content? name with
  | none => exact paired_pure hfailed
  | some v =>
    by_cases hlent : v.lent = true
    · simp only [if_pos hlent]
      exact paired_warn hS .lentArray hfailed
    · simp only [if_neg hlent]
      exact paired_overwrite hS name v (hread v)

theorem paired_readSequence (hS : Store.Mirrors S) (name : String) (min max : Nat)
    (hfailed : V (.failure i) (.failure i'))
    (hread : ∀ t : WordType,
      ReadAlike S H V (Terminal.readMany t min max i j) (Terminal.readMany t min max i' j')) :
    Paired S H V (readSequence name min max i j) (readSequence name min max i' j') := by
  refine paired_get.bind fun s t hst => ?_
  rw [hS.content?_eq hst]
  cases t.content? name with
  | none => exact paired_pure hfailed
  | some v =>
    by_cases hlent : v.lent = true
    · simp only [if_pos hlent]
      exact paired_warn hS .lentSequence hfailed
    · simp only [if_neg hlent]
      exact paired_store hS name (fun words => { v with words }) (hread v.type)

end Reads

end Meaning

end Pegwork
