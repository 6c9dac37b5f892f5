import Pegwork.Recognizer

/-!
# Runs that end

A run either ends with a value or halts, and leaves a state behind in both cases. Statements about
rules speak of runs that end: `Run.Ends x s a t` says that the computation `x`, started in the state
`s`, ends with the value `a` in the state `t`.

`ends_bind` takes a run apart at a bind, in both directions; with one lemma for each primitive step it
is all that later modules need to know about the monad. `ends_observed` does so for recognizers with
observers around them. `bind_eq_ok` does the same for the
computations without state, such as terminals and the checks of a model.
-/

namespace Pegwork

/-! ## Computations without state -/

theorem bind_eq_ok {ε τ υ : Type} {x : Except ε τ} {f : τ → Except ε υ} {b : υ} :
    x >>= f = .ok b ↔ ∃ a, x = .ok a ∧ f a = .ok b := by
  cases x with
  | error e => simp [bind, Except.bind]
  | ok a => simp [bind, Except.bind]

/-! ## Computations with a state -/

namespace Run

variable {σ τ υ : Type}

/-- What a computation gives from a state: its value or the reason why it halts, and the last state. -/
def outcome (x : Run σ τ) (s : σ) : Except Halt τ × σ := x.run.run s

/-- The computation ends with a value `a` in a state `t`. -/
def Ends (x : Run σ τ) (s : σ) (a : τ) (t : σ) : Prop := x.outcome s = (.ok a, t)

/-- A run ends in one way only. -/
theorem Ends.unique {x : Run σ τ} {s : σ} {a b : τ} {t u : σ} (h : x.Ends s a t)
    (h' : x.Ends s b u) : a = b ∧ t = u := by
  have heq : ((.ok a, t) : Except Halt τ × σ) = (.ok b, u) := h.symm.trans h'
  simpa using heq

/-! ## Primitive steps -/

theorem ends_pure {s t : σ} {a b : τ} : (pure a : Run σ τ).Ends s b t ↔ a = b ∧ s = t := by
  have h : (pure a : Run σ τ).outcome s = (.ok a, s) := rfl
  rw [Ends, h]
  simp

theorem ends_lift {e : Except Halt τ} {s t : σ} {a : τ} :
    (liftM e : Run σ τ).Ends s a t ↔ e = .ok a ∧ s = t := by
  have h : (liftM e : Run σ τ).outcome s = (e, s) := rfl
  rw [Ends, h]
  simp

theorem ends_modify {f : σ → σ} {s t : σ} {u : PUnit} :
    (modify f : Run σ PUnit).Ends s u t ↔ f s = t := by
  have h : (modify f : Run σ PUnit).outcome s = (.ok ⟨⟩, f s) := rfl
  rw [Ends, h]
  simp

theorem ends_get {s a t : σ} : (get : Run σ σ).Ends s a t ↔ s = a ∧ s = t := by
  have h : (get : Run σ σ).outcome s = (.ok s, s) := rfl
  rw [Ends, h]
  simp

theorem not_ends_throw {h : Halt} {s t : σ} {a : τ} : ¬ (throw h : Run σ τ).Ends s a t := by
  have hthrow : (throw h : Run σ τ).outcome s = (.error h, s) := rfl
  rw [Ends, hthrow]
  simp

/-! ## Sequencing -/

/-- A bind goes on from where its first part ends, and stops where that halts. -/
theorem outcome_bind (x : Run σ τ) (f : τ → Run σ υ) (s : σ) :
    (x >>= f).outcome s = match x.outcome s with
      | (.ok a, u) => (f a).outcome u
      | (.error h, u) => (.error h, u) := by
  show (ExceptT.bindCont f (x.run.run s).1 : StateM σ (Except Halt υ)).run (x.run.run s).2 = _
  cases h : x.run.run s with
  | mk e u => cases e <;> simp [outcome, h, ExceptT.bindCont] <;> rfl

/-- A bind ends exactly when its first part ends and the second ends from there. -/
theorem ends_bind {x : Run σ τ} {f : τ → Run σ υ} {s t : σ} {b : υ} :
    (x >>= f).Ends s b t ↔ ∃ a u, x.Ends s a u ∧ (f a).Ends u b t := by
  rw [Ends, outcome_bind]
  constructor
  · intro h
    cases hx : x.outcome s with
    | mk e u =>
      rw [hx] at h
      cases e with
      | ok a => exact ⟨a, u, hx, h⟩
      | error e => simp at h
  · rintro ⟨a, u, hx, hf⟩
    rw [Ends] at hx
    rw [hx]
    exact hf

/-- Changing the state and giving a value that is known already. -/
theorem ends_modify_pure (f : σ → σ) (a : τ) (s : σ) :
    (modify f >>= fun _ => pure a : Run σ τ).Ends s a (f s) :=
  ends_bind.2 ⟨⟨⟩, _, ends_modify.2 rfl, ends_pure.2 ⟨rfl, rfl⟩⟩

end Run

/-! ## Observers -/

namespace Recognizer

open Run

/-- An observed recognizer runs between its two observers, and they leave its outcome as it is. -/
theorem ends_observed {κ σ : Type} {a : Recognizer κ σ} {enter : κ → κ → Run σ Unit}
    {leave : κ → Match κ → Run σ Unit} {i j : κ} {s t : σ} {m : Match κ} :
    (a.observed enter leave i j).Ends s m t ↔
      ∃ u v, (enter i j).Ends s () u ∧ (a i j).Ends u m v ∧ (leave i m).Ends v () t := by
  constructor
  · intro hend
    obtain ⟨_, u, henter, hend⟩ := ends_bind.1 hend
    obtain ⟨m', v, ha, hend⟩ := ends_bind.1 hend
    obtain ⟨_, t', hleave, hend⟩ := ends_bind.1 hend
    obtain ⟨rfl, rfl⟩ := ends_pure.1 hend
    exact ⟨u, v, henter, ha, hleave⟩
  · rintro ⟨u, v, henter, ha, hleave⟩
    refine ends_bind.2 ⟨(), u, henter, ends_bind.2 ⟨m, v, ha, ?_⟩⟩
    exact ends_bind.2 ⟨(), t, hleave, ends_pure.2 ⟨rfl, rfl⟩⟩

end Recognizer

end Pegwork
