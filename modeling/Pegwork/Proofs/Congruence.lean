import Pegwork.Proofs.Run
import Pegwork.Rule.Meaning

/-!
# Relations that combinators keep

Combinators know nothing about the state that their parts change. So a relation between computations
that is kept by sequencing is kept by every combinator, whatever it says about the states: if the parts of
two composites are related, so are the composites. `Run.Congruence` is what is asked of the relation, and
there is one lemma for each combinator.

The computations of both sides may change states of different types, but give values of the same type. If
the states are the same and every computation is related to itself, the rules of a grammar keep the
relation as well, and it is enough to look at the handles of cells (`Rule.related_denote`).
-/

namespace Pegwork

variable {κ α σ ρ : Type}

/-- A relation between computations that is kept by sequencing. -/
structure Run.Congruence (R : (τ : Type) → Run σ τ → Run ρ τ → Prop) : Prop where
  /-- Giving the same value is related. -/
  pure : ∀ {τ : Type} (a : τ), R τ (Pure.pure a) (Pure.pure a)
  /-- Halting for the same reason is related. -/
  halt : ∀ {τ : Type} (h : Halt), R τ (throw h) (throw h)
  /-- Related computations that go on in related ways are related. -/
  bind : ∀ {τ υ : Type} {x : Run σ τ} {y : Run ρ τ} {f : τ → Run σ υ} {g : τ → Run ρ υ},
    R τ x y → (∀ a, R υ (f a) (g a)) → R υ (x >>= f) (y >>= g)

namespace Run.Congruence

variable {R : (τ : Type) → Run σ τ → Run ρ τ → Prop} {τ : Type}

theorem lift (hR : Congruence R) (e : Except Halt τ) : R τ (liftM e) (liftM e) := by
  cases e with
  | ok a => exact hR.pure a
  | error h => exact hR.halt h

theorem ite {c : Prop} [Decidable c] {x x' : Run σ τ} {y y' : Run ρ τ}
    (hx : R τ x y) (hx' : R τ x' y') : R τ (if c then x else x') (if c then y else y') := by
  split
  · exact hx
  · exact hx'

end Run.Congruence

namespace Recognizer

open Run

/-- The recognizers are related on every range. -/
def Related (R : (τ : Type) → Run σ τ → Run ρ τ → Prop) (a : Recognizer κ σ) (a' : Recognizer κ ρ) :
    Prop :=
  ∀ i j, R (Match κ) (a i j) (a' i j)

variable {R : (τ : Type) → Run σ τ → Run ρ τ → Prop} {a b c : Recognizer κ σ} {a' b' c' : Recognizer κ ρ}

theorem related_ofTerminal (hR : Congruence R) (t : Terminal κ) :
    Related R (ofTerminal t) (ofTerminal t) :=
  fun i j => hR.lift (t i j)

theorem related_ofFunction (hR : Congruence R) (f : κ → κ → Match κ) :
    Related R (ofFunction f) (ofFunction f) :=
  fun i j => hR.pure (f i j)

/-! ## Sequences and choices -/

theorem Related.seq (hR : Congruence R) (ha : Related R a a') (hb : Related R b b') :
    Related R (a.seq b) (a'.seq b') := by
  intro i j
  refine hR.bind (ha i j) fun first => Congruence.ite ?_ ?_
  · exact hR.bind (hb first.position j) fun second => hR.pure _
  · exact hR.pure _

theorem Related.choice (hR : Congruence R) (ha : Related R a a') (hb : Related R b b') :
    Related R (a.choice b) (a'.choice b') := by
  intro i j
  refine hR.bind (ha i j) fun first => Congruence.ite ?_ ?_
  · exact hR.pure _
  · exact hR.bind (hb i j) fun second => hR.pure _

theorem Related.exclusive (hR : Congruence R) (ha : Related R a a') (hb : Related R b b') :
    Related R (a.exclusive b) (a'.exclusive b') := by
  intro i j
  refine hR.bind (ha i j) fun first => hR.bind (hb i j) fun second => ?_
  -- Which of the two matched decides the answer, and it is the same answer on both sides.
  cases first.matched <;> cases second.matched <;> exact hR.pure _

theorem Related.select (hR : Congruence R) (ha : Related R a a') (hb : Related R b b')
    (hc : Related R c c') : Related R (a.select b c) (a'.select b' c') := by
  intro i j
  refine hR.bind (ha i j) fun first => Congruence.ite ?_ ?_
  · exact hR.bind (hb first.position j) fun second => hR.pure _
  · exact hR.bind (hc i j) fun second => hR.pure _

/-! ## Looking ahead -/

theorem Related.negation (hR : Congruence R) (ha : Related R a a') :
    Related R a.negation a'.negation :=
  fun i j => hR.bind (ha i j) fun _ => hR.pure _

theorem Related.lookahead (hR : Congruence R) (ha : Related R a a') :
    Related R a.lookahead a'.lookahead :=
  fun i j => hR.bind (ha i j) fun _ => hR.pure _

theorem Related.optional (hR : Congruence R) (ha : Related R a a') :
    Related R a.optional a'.optional :=
  fun i j => hR.bind (ha i j) fun _ => hR.pure _

/-! ## Repetition and search -/

section Loops

variable [Walk κ α]

theorem Related.pass (hR : Congruence R) (ha : Related R a a') (hb : Related R b b') (limit : κ)
    (count : Nat) (position : κ) :
    R (Match κ) (pass a b limit count position) (pass a' b' limit count position) := by
  refine Congruence.ite (ha position limit) (hR.bind (hb position limit) fun gap => Congruence.ite ?_ ?_)
  · exact ha gap.position limit
  · exact hR.pure _

theorem Related.repeatFrom (hR : Congruence R) (ha : Related R a a') (hb : Related R b b')
    (bounds : Bounds) (limit : κ) (left count : Nat) (position : κ) :
    R (κ × Nat) (repeatFrom a b bounds limit left count position)
      (repeatFrom a' b' bounds limit left count position) := by
  induction left generalizing count position with
  | zero => exact hR.pure _
  | succ left ih =>
    refine hR.bind (ha.pass hR hb limit count position) fun next => Congruence.ite (Congruence.ite ?_ ?_) ?_
    · exact hR.pure _
    · exact ih (count + 1) next.position
    · exact hR.pure _

theorem Related.repetition (hR : Congruence R) (ha : Related R a a') (hb : Related R b b')
    (bounds : Bounds) : Related R (a.repetition b bounds) (a'.repetition b' bounds) := by
  intro i j
  have hloop := ha.repeatFrom hR hb bounds j bounds.most 0 i
  exact hR.bind (hR.bind hloop fun _ => hR.pure _) fun _ => hR.pure _

theorem Related.findFrom (hR : Congruence R) (ha : Related R a a') (start limit : κ) (left : Nat)
    (position : κ) :
    R (Match κ) (findFrom a start limit left position) (findFrom a' start limit left position) := by
  induction left generalizing position with
  | zero => exact hR.halt .unending
  | succ left ih =>
    refine hR.bind (ha position limit) fun m => Congruence.ite ?_ (Congruence.ite ?_ ?_)
    · exact hR.pure _
    · exact hR.pure _
    · exact hR.bind (hR.lift (Walk.advance position)) fun next => ih next

theorem Related.find (hR : Congruence R) (ha : Related R a a') : Related R a.find a'.find :=
  fun i j => ha.findFrom hR i j Size.bound i

end Loops

/-! ## Observers -/

theorem Related.onFailure (hR : Congruence R) (ha : Related R a a') {hook : κ → κ → Run σ Unit}
    {hook' : κ → κ → Run ρ Unit} (hhook : ∀ i j, R Unit (hook i j) (hook' i j)) :
    Related R (a.onFailure hook) (a'.onFailure hook') := by
  intro i j
  refine hR.bind (ha i j) fun m => Congruence.ite ?_ ?_
  · exact hR.pure _
  · exact hR.bind (hhook i j) fun _ => hR.pure _

theorem Related.onSuccess (hR : Congruence R) (ha : Related R a a') {act : κ → κ → Run σ Unit}
    {act' : κ → κ → Run ρ Unit} (hact : ∀ i j, R Unit (act i j) (act' i j)) :
    Related R (a.onSuccess act) (a'.onSuccess act') := by
  intro i j
  refine hR.bind (ha i j) fun m => Congruence.ite ?_ ?_
  · exact hR.bind (hact i m.position) fun _ => hR.pure _
  · exact hR.pure _

theorem Related.observed (hR : Congruence R) (ha : Related R a a') {enter : κ → κ → Run σ Unit}
    {enter' : κ → κ → Run ρ Unit} {leave : κ → Match κ → Run σ Unit}
    {leave' : κ → Match κ → Run ρ Unit} (henter : ∀ i j, R Unit (enter i j) (enter' i j))
    (hleave : ∀ i m, R Unit (leave i m) (leave' i m)) :
    Related R (a.observed enter leave) (a'.observed enter' leave') := by
  intro i j
  refine hR.bind (henter i j) fun _ => hR.bind (ha i j) fun m => ?_
  exact hR.bind (hleave i m) fun _ => hR.pure _

end Recognizer

/-! ## Rules -/

variable {β γ : Type} [Cursor κ α] [Element α] [DecidableEq α]

open Recognizer in
/-- One level of handles: a rule keeps the relation if its handles do. -/
theorem Rule.related_denote {R : (τ : Type) → Run (Store κ β) τ → Run (Store κ β) τ → Prop}
    (hR : Run.Congruence R) (hrefl : ∀ τ x, R τ x x) {handle handle' : String → Meaning κ β}
    (hhandle : ∀ key, Related R (handle key) (handle' key)) (foreign : γ → κ → κ → Match κ)
    (rule : Rule α β γ) :
    Related R (rule.denote foreign handle) (rule.denote foreign handle') := by
  induction rule with
  | empty | any | element | token | literal | elements | satisfy | run | probe | constant
  | identifier | ending | advance | image | readWord | readArray | readSequence | foreign =>
    exact fun _ _ => hrefl _ _
  | seq a b iha ihb => exact iha.seq hR ihb
  | choice a b iha ihb => exact iha.choice hR ihb
  | exclusive a b iha ihb => exact iha.exclusive hR ihb
  | negation a iha => exact iha.negation hR
  | optional a iha => exact iha.optional hR
  | repetition item separator bounds iha ihb => exact iha.repetition hR ihb bounds
  | find a iha => exact iha.find hR
  | select a b c iha ihb ihc => exact iha.select hR ihb ihc
  | lookahead a iha => exact iha.lookahead hR
  | onFailure a label iha => exact iha.onFailure hR fun _ _ => hrefl _ _
  | onSuccess a effect iha => exact iha.onSuccess hR fun _ _ => hrefl _ _
  | traced a name iha => exact iha.observed hR (fun _ _ => hrefl _ _) fun _ _ => hrefl _ _
  | boxed a iha => exact iha
  | reference a iha => exact iha
  | cell key => exact hhandle key
  | owned key => exact hhandle key
  | call a label iha => exact iha.observed hR (fun _ _ => hrefl _ _) fun _ _ => hrefl _ _

end Pegwork
