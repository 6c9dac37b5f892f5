import Pegwork.Proofs.Congruence

/-!
# Handles inside handles

A parse follows handles inside handles to a given depth and gives up if a recursion goes deeper. A deeper
parse `Refines` a shallower one: if that ends, it ends in the same way. So there is at most one way for a
rule to end, whatever the depth, and a rule `Yields` it if some depth is enough.

A handle yields what the definition of its cell yields.
-/

namespace Pegwork

open Recognizer

namespace Run

variable {σ τ : Type}

/-- Where the first run ends the second ends in the same way. -/
def Refines (x y : Run σ τ) : Prop := ∀ s a t, x.Ends s a t → y.Ends s a t

theorem congruence_refines : Congruence (σ := σ) fun _ => Refines where
  pure _ := fun _ _ _ hend => hend
  halt _ := fun _ _ _ hend => absurd hend not_ends_throw
  bind hx hfg := by
    intro s b t hend
    obtain ⟨a, u, ha, hb⟩ := ends_bind.1 hend
    exact ends_bind.2 ⟨a, u, hx s a u ha, hfg a u b t hb⟩

end Run

variable {κ α β γ : Type}

theorem Cells.refines_handle (cells : Cells α β γ) {define define' : Rule α β γ → Meaning κ β}
    (h : ∀ rule, Related (fun _ => Run.Refines) (define rule) (define' rule)) (key : String) :
    Related (fun _ => Run.Refines) (cells.handle define key) (cells.handle define' key) := by
  cases hlife : (cells.get key).life with
  | undefined =>
    simp only [Cells.handle, hlife]
    exact fun _ _ _ _ _ hend => hend
  | defined rule =>
    simp only [Cells.handle, hlife]
    exact h rule
  | dropped =>
    simp only [Cells.handle, hlife]
    exact fun _ _ _ _ _ hend => hend

namespace Rule

variable [Cursor κ α] [Element α] [DecidableEq α] {foreign : γ → κ → κ → Match κ}
  {cells : Cells α β γ}

theorem refines_parse_succ (foreign : γ → κ → κ → Match κ) (cells : Cells α β γ) (depth : Nat)
    (rule : Rule α β γ) :
    Related (fun _ => Run.Refines) (rule.parse (β := β) foreign cells depth)
      (rule.parse foreign cells (depth + 1)) := by
  have hrefl : ∀ (τ : Type) (x : Run (Store κ β) τ), x.Refines x := fun _ _ _ _ _ hend => hend
  induction depth generalizing rule with
  | zero =>
    refine related_denote Run.congruence_refines hrefl (cells.refines_handle ?_) foreign rule
    -- What the deepest handle gives up may end further down.
    exact fun _ _ _ _ _ _ hend => absurd hend Run.not_ends_throw
  | succ depth ih =>
    exact related_denote Run.congruence_refines hrefl (cells.refines_handle ih) foreign rule

/-- **A deeper parse ends as a shallower one does.** -/
theorem parse_mono {depth depth' : Nat} (hdepth : depth ≤ depth') {rule : Rule α β γ} {i j : κ}
    {s t : Store κ β} {m : Match κ} (hend : (rule.parse foreign cells depth i j).Ends s m t) :
    (rule.parse foreign cells depth' i j).Ends s m t := by
  induction hdepth with
  | refl => exact hend
  | step _ ih => exact refines_parse_succ foreign cells _ rule i j s m t ih

/-- The parse of the rule ends with the outcome `m` in the store `t`, if it may go deep enough. -/
def Yields (foreign : γ → κ → κ → Match κ) (cells : Cells α β γ) (rule : Rule α β γ) (i j : κ)
    (s : Store κ β) (m : Match κ) (t : Store κ β) : Prop :=
  ∃ depth, (rule.parse foreign cells depth i j).Ends s m t

/-- A rule yields one outcome at most. -/
theorem Yields.unique {rule : Rule α β γ} {i j : κ} {s t t' : Store κ β} {m m' : Match κ}
    (h : rule.Yields foreign cells i j s m t) (h' : rule.Yields foreign cells i j s m' t') :
    m = m' ∧ t = t' := by
  obtain ⟨depth, hend⟩ := h
  obtain ⟨depth', hend'⟩ := h'
  exact (parse_mono (Nat.le_max_left depth depth') hend).unique
    (parse_mono (Nat.le_max_right depth depth') hend')

/-! ## Handles -/

variable {key : String} {i j : κ} {s t : Store κ β} {m : Match κ}

/-- A cell with a definition yields what the definition yields. -/
theorem yields_cell_of_defined {rule : Rule α β γ} (h : (cells.get key).life = .defined rule) :
    (cell key).Yields foreign cells i j s m t ↔ rule.Yields foreign cells i j s m t := by
  have hsucc (depth : Nat) : (cell key).parse (κ := κ) foreign cells (depth + 1) =
      rule.parse foreign cells depth := by
    simp only [parse, denote, Cells.handle, h]
  constructor
  · rintro ⟨depth, hend⟩
    cases depth with
    | zero =>
      simp only [parse, denote, Cells.handle, h] at hend
      exact absurd hend Run.not_ends_throw
    | succ depth =>
      rw [hsucc] at hend
      exact ⟨depth, hend⟩
  · rintro ⟨depth, hend⟩
    rw [← hsucc] at hend
    exact ⟨depth + 1, hend⟩

/-- A cell inside a rule is used as its handles are. -/
theorem yields_owned_iff :
    (owned key).Yields foreign cells i j s m t ↔ (cell key).Yields foreign cells i j s m t := by
  have hsame (depth : Nat) : (owned key).parse (κ := κ) foreign cells depth =
      (cell key).parse foreign cells depth := by
    cases depth <;> rfl
  simp only [Yields, hsame]

end Rule

end Pegwork
