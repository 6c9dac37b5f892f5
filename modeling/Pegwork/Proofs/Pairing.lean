import Pegwork.Proofs.Run

/-!
# Computations side by side

A statement about two runs, or about one run seen twice, is proved step by step along both of them at
once. `Both V x y` says of two computations without state that both give a value and that `V` relates
the values. `Run.Paired S H V x y` says of two computations with a state that, from states related by
`S`, they end together, with values related by `V` and states related by `S` again, or halt together for
one of the reasons in `H`.

If `H` holds of nothing the runs end. If `x` and `y` are the same run and `S` is reflexive, a pairing is
a statement about that run alone.
-/

namespace Pegwork

/-! ## Computations without state -/

section Pure

variable {τ υ τ' υ' : Type}

/-- Both computations give a value, and the values are related. -/
def Both (V : τ → υ → Prop) (x : Except Halt τ) (y : Except Halt υ) : Prop :=
  ∃ a b, x = .ok a ∧ y = .ok b ∧ V a b

theorem both_ok {V : τ → υ → Prop} {a : τ} {b : υ} (h : V a b) : Both V (.ok a) (.ok b) :=
  ⟨a, b, rfl, rfl, h⟩

theorem Both.mono {V W : τ → υ → Prop} {x : Except Halt τ} {y : Except Halt υ} (h : Both V x y)
    (hVW : ∀ a b, V a b → W a b) : Both W x y := by
  obtain ⟨a, b, hx, hy, hV⟩ := h
  exact ⟨a, b, hx, hy, hVW a b hV⟩

theorem Both.bind {V : τ → υ → Prop} {W : τ' → υ' → Prop} {x : Except Halt τ} {y : Except Halt υ}
    {f : τ → Except Halt τ'} {g : υ → Except Halt υ'} (h : Both V x y)
    (hfg : ∀ a b, V a b → Both W (f a) (g b)) : Both W (x >>= f) (y >>= g) := by
  obtain ⟨a, b, rfl, rfl, hV⟩ := h
  exact hfg a b hV

end Pure

/-! ## Computations with a state -/

namespace Run

variable {σ ρ τ υ τ' υ' : Type}

/-- The computation halts for the reason `h` in a state `t`. -/
def Halts (x : Run σ τ) (s : σ) (h : Halt) (t : σ) : Prop := x.outcome s = (.error h, t)

theorem Halts.bind {x : Run σ τ} {s t : σ} {h : Halt} (hx : x.Halts s h t) (f : τ → Run σ υ) :
    (x >>= f).Halts s h t := by
  unfold Halts at *
  rw [outcome_bind, hx]

theorem not_ends_of_halts {x : Run σ τ} {s t u : σ} {h : Halt} {a : τ} (hx : x.Halts s h t) :
    ¬ x.Ends s a u := by
  intro hend
  have heq : ((.error h, t) : Except Halt τ × σ) = (.ok a, u) := hx.symm.trans hend
  simp at heq

/-- From related states the two runs end together or halt together. -/
def Paired (S : σ → ρ → Prop) (H : Halt → Prop) (V : τ → υ → Prop) (x : Run σ τ) (y : Run ρ υ) :
    Prop :=
  ∀ s t, S s t →
    (∃ a b s' t', x.Ends s a s' ∧ y.Ends t b t' ∧ V a b ∧ S s' t') ∨
    (∃ h s' t', x.Halts s h s' ∧ y.Halts t h t' ∧ H h)

variable {S : σ → ρ → Prop} {H : Halt → Prop} {V : τ → υ → Prop} {W : τ' → υ' → Prop}

theorem paired_pure {a : τ} {b : υ} (h : V a b) : Paired S H V (pure a) (pure b) :=
  fun s t hst => .inl ⟨a, b, s, t, ends_pure.2 ⟨rfl, rfl⟩, ends_pure.2 ⟨rfl, rfl⟩, h, hst⟩

theorem Both.paired {x : Except Halt τ} {y : Except Halt υ} (h : Both V x y) :
    Paired S H V (liftM x) (liftM y) := by
  obtain ⟨a, b, hx, hy, hV⟩ := h
  exact fun s t hst => .inl ⟨a, b, s, t, ends_lift.2 ⟨hx, rfl⟩, ends_lift.2 ⟨hy, rfl⟩, hV, hst⟩

theorem paired_get : Paired S H S get get :=
  fun s t hst => .inl ⟨s, t, s, t, rfl, rfl, hst, hst⟩

theorem paired_modify {f : σ → σ} {g : ρ → ρ} (h : ∀ s t, S s t → S (f s) (g t)) :
    Paired S H (fun _ _ => True) (modify f) (modify g) :=
  fun s t hst => .inl ⟨⟨⟩, ⟨⟩, f s, g t, ends_modify.2 rfl, ends_modify.2 rfl, trivial, h s t hst⟩

theorem paired_throw {h : Halt} (hH : H h) : Paired S H V (throw h) (throw h) :=
  fun s t _ => .inr ⟨h, s, t, rfl, rfl, hH⟩

theorem Paired.mono {V' : τ → υ → Prop} {x : Run σ τ} {y : Run ρ υ} (h : Paired S H V x y)
    (hV : ∀ a b, V a b → V' a b) : Paired S H V' x y := by
  intro s t hst
  rcases h s t hst with ⟨a, b, s', t', hx, hy, hab, hst'⟩ | hhalts
  · exact .inl ⟨a, b, s', t', hx, hy, hV a b hab, hst'⟩
  · exact .inr hhalts

theorem Paired.bind {x : Run σ τ} {y : Run ρ υ} {f : τ → Run σ τ'} {g : υ → Run ρ υ'}
    (h : Paired S H V x y) (hfg : ∀ a b, V a b → Paired S H W (f a) (g b)) :
    Paired S H W (x >>= f) (y >>= g) := by
  intro s t hst
  rcases h s t hst with ⟨a, b, s', t', hx, hy, hab, hst'⟩ | ⟨h, s', t', hx, hy, hh⟩
  · rcases hfg a b hab s' t' hst' with ⟨a', b', s'', t'', hf, hg, hab', hst''⟩ | ⟨h, s'', t'', hf, hg, hh⟩
    · exact .inl ⟨a', b', s'', t'', ends_bind.2 ⟨a, s', hx, hf⟩, ends_bind.2 ⟨b, t', hy, hg⟩, hab', hst''⟩
    -- The first parts end and the second ones halt.
    · refine .inr ⟨h, s'', t'', ?_, ?_, hh⟩
      · rw [Halts, outcome_bind, hx]
        exact hf
      · rw [Halts, outcome_bind, hy]
        exact hg
  · exact .inr ⟨h, s', t', hx.bind f, hy.bind g, hh⟩

end Run

end Pegwork
