import Pegwork.Proofs.Range
import Pegwork.Proofs.Repetition

/-!
# Derived shapes and their expansions

Options, lookaheads, exclusive choices, selections and repetitions with separators could be written with
sequences, choices, negations and plain repetitions alone. This module says that nothing would change.

* `Recognizer.AnswersAt` says that a rule answers as a function of its start, up to one fixed limit. It
  may change the state, but the state does not show in the answer.
* For every combinator there is the function it makes of the answers of its parts (`seqOf`, `choiceOf`,
  `repetitionOf`, ...), and a lemma that the combinator answers with it.
* The expansions are equations between such functions. For the lookaheads they are settled by the cases of
  the answers. For repetitions the first item is taken out of the loop; a separator and the item behind it
  then make one pass of the loop that is left (`repetitionOf_succ`).

`Rule.derived_shapes_expand` collects them. A repetition without an upper limit has the largest size as its
limit, so that behind a first item the loop that is left may make one pass more. `Unlimited` says that this
pass makes no difference, and without an upper limit the expansions are right exactly then. That is so
wherever the parts move forward in a range shorter than the largest size. `Rule.unrolling_cut_off` has
parts for which it is not so.
-/

namespace Pegwork

/-! ## Answers that do not depend on the state -/

namespace Run

variable {σ τ υ : Type}

/-- From every state the computation ends with the value `a`. -/
def Gives (x : Run σ τ) (a : τ) : Prop := ∀ s, ∃ t, x.Ends s a t

theorem gives_pure (a : τ) : (pure a : Run σ τ).Gives a :=
  fun s => ⟨s, ends_pure.2 ⟨rfl, rfl⟩⟩

theorem Gives.bind {x : Run σ τ} {f : τ → Run σ υ} {a : τ} {b : υ} (hx : x.Gives a)
    (hf : (f a).Gives b) : (x >>= f).Gives b := by
  intro s
  obtain ⟨t, hend⟩ := hx s
  obtain ⟨u, hend'⟩ := hf t
  exact ⟨u, ends_bind.2 ⟨a, t, hend, hend'⟩⟩

theorem Gives.unique [Nonempty σ] {x : Run σ τ} {a b : τ} (ha : x.Gives a) (hb : x.Gives b) : a = b := by
  obtain ⟨s⟩ := ‹Nonempty σ›
  obtain ⟨t, hend⟩ := ha s
  obtain ⟨u, hend'⟩ := hb s
  exact (hend.unique hend').1

end Run

namespace Recognizer

variable {κ α σ : Type}

open Run

/-- With the limit `j`, and from every cursor in `C`, the recognizer answers with `f`, whatever the state
is. Matches stay in `C`. -/
structure AnswersAt (a : Recognizer κ σ) (C : κ → Prop) (j : κ) (f : κ → Match κ) : Prop where
  gives : ∀ i, C i → (a i j).Gives (f i)
  closed : ∀ i, C i → (f i).matched = true → C (f i).position

/-! ## Answers of combinators -/

section Functions

variable (f g h : κ → Match κ)

/-- The answers of the empty rule. -/
def emptyOf (i : κ) : Match κ := .stay true i

/-- The answers of a sequence. -/
def seqOf (i : κ) : Match κ :=
  if (f i).matched then (g (f i).position).restart i else .failure i

/-- The answers of a choice. -/
def choiceOf (i : κ) : Match κ := if (f i).matched then (f i).restart i else (g i).restart i

/-- The answers of an exclusive choice. -/
def exclusiveOf (i : κ) : Match κ :=
  match (f i).matched, (g i).matched with
  | true, false => (f i).restart i
  | false, true => (g i).restart i
  | _, _ => .failure i

/-- The answers of a selection. -/
def selectOf (i : κ) : Match κ :=
  if (f i).matched then (g (f i).position).restart i else (h i).restart i

/-- The answers of a negation. -/
def negationOf (i : κ) : Match κ := .stay (!(f i).matched) i

/-- The answers of a lookahead. -/
def lookaheadOf (i : κ) : Match κ := .stay (f i).matched i

/-- The answers of an option. -/
def optionalOf (i : κ) : Match κ := if (f i).matched then (f i).restart i else .stay true i

/-- The answers of a repetition, by the plain loop. The limit is built into the functions. -/
def repetitionOf (bounds : Bounds) (i : κ) : Match κ :=
  (plainCounted (fun p _ => f p) (fun p _ => g p) bounds i i).1

end Functions

variable {C : κ → Prop} {j : κ} {a b c : Recognizer κ σ} {f g h : κ → Match κ}

theorem closed_restart {i : κ} {m : Match κ} (h : m.matched = true → C m.position)
    (hmatched : (m.restart i).matched = true) : C (m.restart i).position := by
  rw [Match.restart_matched] at hmatched
  rw [Match.restart, if_pos hmatched]
  exact h hmatched

theorem closed_ite {p : Prop} [Decidable p] {m n : Match κ}
    (hm : p → m.matched = true → C m.position) (hn : ¬ p → n.matched = true → C n.position)
    (hmatched : (if p then m else n).matched = true) : C (if p then m else n).position := by
  split at hmatched
  · next hp => simpa [hp] using hm hp hmatched
  · next hp => simpa [hp] using hn hp hmatched

theorem AnswersAt.empty : (ofTerminal (Terminal.constant true) : Recognizer κ σ).AnswersAt C j emptyOf :=
  ⟨fun i _ => gives_pure (emptyOf i), fun _ hi _ => hi⟩

/-- A rule that is a function of its cursors answers with it. -/
theorem AnswersAt.ofFunction {f : κ → κ → Match κ}
    (hclosed : ∀ i, C i → (f i j).matched = true → C (f i j).position) :
    (ofFunction f : Recognizer κ σ).AnswersAt C j (f · j) :=
  ⟨fun i _ => gives_pure (f i j), hclosed⟩

theorem AnswersAt.seq (ha : a.AnswersAt C j f) (hb : b.AnswersAt C j g) :
    (a.seq b).AnswersAt C j (seqOf f g) := by
  constructor
  · intro i hi
    refine (ha.gives i hi).bind ?_
    unfold seqOf
    split
    · next hfirst => exact (hb.gives _ (ha.closed i hi hfirst)).bind (gives_pure _)
    · exact gives_pure _
  · intro i hi
    apply closed_ite
    · exact fun hfirst => closed_restart (hb.closed _ (ha.closed i hi hfirst))
    · exact fun _ => nofun

theorem AnswersAt.choice (ha : a.AnswersAt C j f) (hb : b.AnswersAt C j g) :
    (a.choice b).AnswersAt C j (choiceOf f g) := by
  constructor
  · intro i hi
    refine (ha.gives i hi).bind ?_
    unfold choiceOf
    split
    · exact gives_pure _
    · exact (hb.gives i hi).bind (gives_pure _)
  · intro i hi
    apply closed_ite
    · exact fun _ => closed_restart (ha.closed i hi)
    · exact fun _ => closed_restart (hb.closed i hi)

theorem AnswersAt.exclusive (ha : a.AnswersAt C j f) (hb : b.AnswersAt C j g) :
    (a.exclusive b).AnswersAt C j (exclusiveOf f g) := by
  constructor
  · intro i hi
    refine (ha.gives i hi).bind ((hb.gives i hi).bind ?_)
    unfold exclusiveOf
    cases (f i).matched <;> cases (g i).matched <;> exact gives_pure _
  · intro i hi
    unfold exclusiveOf
    split
    · exact closed_restart (ha.closed i hi)
    · exact closed_restart (hb.closed i hi)
    · nofun

theorem AnswersAt.select (ha : a.AnswersAt C j f) (hb : b.AnswersAt C j g) (hc : c.AnswersAt C j h) :
    (a.select b c).AnswersAt C j (selectOf f g h) := by
  constructor
  · intro i hi
    refine (ha.gives i hi).bind ?_
    unfold selectOf
    split
    · next hprobe => exact (hb.gives _ (ha.closed i hi hprobe)).bind (gives_pure _)
    · exact (hc.gives i hi).bind (gives_pure _)
  · intro i hi
    apply closed_ite
    · exact fun hprobe => closed_restart (hb.closed _ (ha.closed i hi hprobe))
    · exact fun _ => closed_restart (hc.closed i hi)

theorem AnswersAt.negation (ha : a.AnswersAt C j f) : a.negation.AnswersAt C j (negationOf f) :=
  ⟨fun i hi => (ha.gives i hi).bind (gives_pure _), fun _ hi _ => hi⟩

theorem AnswersAt.lookahead (ha : a.AnswersAt C j f) : a.lookahead.AnswersAt C j (lookaheadOf f) :=
  ⟨fun i hi => (ha.gives i hi).bind (gives_pure _), fun _ hi _ => hi⟩

theorem AnswersAt.optional (ha : a.AnswersAt C j f) : a.optional.AnswersAt C j (optionalOf f) := by
  constructor
  · exact fun i hi => (ha.gives i hi).bind (gives_pure _)
  · intro i hi
    apply closed_ite
    · exact fun _ => closed_restart (ha.closed i hi)
    · exact fun _ _ => hi

/-! ## Answers of repetitions -/

section Repetition

variable [Walk κ α]

/-- The limit of a loop is only handed on to its parts, so it can be built into them. -/
theorem repeatFrom_fixed (bounds : Bounds) (l : κ) (left count : Nat) (p : κ) :
    repeatFrom (fun i _ => a i j) (fun i _ => b i j) bounds l left count p =
      repeatFrom a b bounds j left count p := by
  induction left generalizing count p with
  | zero => rfl
  | succ left ih =>
    simp only [repeatFrom, ih]
    rfl

theorem AnswersAt.fixed (ha : a.AnswersAt C j f) :
    Answers (fun i _ => a i j : Recognizer κ σ) C (fun i _ => f i) :=
  ⟨fun i _ s hi _ => ha.gives i hi s, fun i _ hi _ => ha.closed i hi⟩

/-- The guarded loop and the plain one come to the same outcome. -/
theorem Found.plain_eq {item separator : κ → κ → Match κ} {bounds : Bounds} {i q : κ} {n : Nat}
    (hfound : Found item separator j i bounds q n) :
    (concluded bounds i q n).1 = (plainCounted item separator bounds i j).1 := by
  rcases hfound.compare with ⟨k, -, -, hguarded, hplain⟩ | ⟨-, hplain⟩
  · rw [hguarded, hplain]
  · rw [hplain]

theorem plainLoop_closed {item separator : κ → κ → Match κ}
    (hpass : ∀ count p, C p → (passOf item separator j count p).matched = true →
      C (passOf item separator j count p).position) (left count : Nat) {p : κ} (hp : C p) :
    C (plainLoop item separator j left count p).1 := by
  induction left generalizing count p with
  | zero => exact hp
  | succ left ih =>
    unfold plainLoop
    by_cases hmatched : (passOf item separator j count p).matched = true
    · simp only [hmatched, if_true]
      exact ih (count + 1) (hpass count p hp hmatched)
    · simp only [hmatched]
      exact hp

theorem AnswersAt.repetition (hsame : ∀ c d, C c → C d → (Walk.same c d = true ↔ c = d))
    (ha : a.AnswersAt C j f) (hb : b.AnswersAt C j g) (bounds : Bounds) :
    (a.repetition b bounds).AnswersAt C j (repetitionOf f g bounds) := by
  constructor
  · intro i hi s
    obtain ⟨q, n, t, hend, hfound⟩ := counted_ends ha.fixed hb.fixed hsame hi hi bounds s
    have hcounted : (counted a b bounds i j).Ends s (concluded bounds i q n) t := by
      simpa only [counted, repeatFrom_fixed] using hend
    refine ⟨t, ends_bind.2 ⟨_, t, hcounted, ends_pure.2 ⟨?_, rfl⟩⟩⟩
    exact hfound.plain_eq
  · intro i hi
    have hloop := plainLoop_closed (fun _ _ hp => passOf_closed ha.fixed hb.fixed hi hp)
      bounds.most 0 hi
    unfold repetitionOf plainCounted
    simp only
    split
    · exact fun _ => hloop
    · nofun

end Repetition

/-! ## Lookaheads and choices -/

theorem optionalOf_eq : optionalOf f = choiceOf f emptyOf := by
  funext i
  rfl

theorem lookaheadOf_eq : lookaheadOf f = negationOf (negationOf f) := by
  funext i
  simp [lookaheadOf, negationOf]

/-- One of two rules alone: the one where the other does not match. -/
theorem exclusiveOf_eq :
    exclusiveOf f g = choiceOf (seqOf (negationOf g) f) (seqOf (negationOf f) g) := by
  funext i
  cases hf : (f i).matched <;> cases hg : (g i).matched <;>
    simp [exclusiveOf, choiceOf, seqOf, negationOf, Match.restart, hf, hg]

/-- A selection: if the probe matches and what follows it does not, the other branch is shut off by the
negated probe. -/
theorem selectOf_eq : selectOf f g h = choiceOf (seqOf f g) (seqOf (negationOf f) h) := by
  funext i
  cases hf : (f i).matched
  · cases hh : (h i).matched <;>
      simp [selectOf, choiceOf, seqOf, negationOf, Match.restart, hf, hh]
  · cases hg : (g (f i).position).matched <;>
      simp [selectOf, choiceOf, seqOf, negationOf, Match.restart, hf, hg]

/-! ## The first item of a repetition -/

/-- Two outcomes that a loop cannot tell apart. -/
def SameStep (m n : Match κ) : Prop :=
  m.matched = n.matched ∧ (m.matched = true → m.position = n.position)

theorem sameStep_restart (m : Match κ) (i : κ) : SameStep (m.restart i) m := by
  refine ⟨m.restart_matched i, fun hmatched => ?_⟩
  rw [Match.restart_matched] at hmatched
  rw [Match.restart, if_pos hmatched]
  rfl

/-- Loops whose passes are the same, `d` passes apart, stop at the same place, `d` occurrences apart. -/
theorem plainLoop_shift {item separator item' separator' : κ → κ → Match κ} {l l' : κ} (d : Nat)
    (hpass : ∀ count p,
      SameStep (passOf item separator l (count + d) p) (passOf item' separator' l' count p))
    (left count : Nat) (p : κ) :
    plainLoop item separator l left (count + d) p =
      ((plainLoop item' separator' l' left count p).1,
        (plainLoop item' separator' l' left count p).2 + d) := by
  induction left generalizing count p with
  | zero => rfl
  | succ left ih =>
    obtain ⟨hmatched, hposition⟩ := hpass count p
    unfold plainLoop
    simp only [← hmatched]
    by_cases hnext : (passOf item separator l (count + d) p).matched = true
    · simp only [hnext, if_true, ← hposition hnext]
      rw [Nat.add_right_comm]
      exact ih (count + 1) _
    · simp only [hnext]
      rfl

/-- Without separators every pass is an item. -/
theorem passOf_emptyOf (l : κ) (count : Nat) (p : κ) :
    passOf (fun q _ => f q) (fun q _ => emptyOf q) l count p = f p := by
  unfold passOf
  split
  · rfl
  · rfl

/-- Behind the first pass, a separator and an item together are one step. -/
theorem passOf_succ (l : κ) (count : Nat) (p : κ) :
    SameStep (passOf (fun q _ => f q) (fun q _ => g q) l (count + 1) p) (seqOf g f p) := by
  unfold passOf seqOf
  simp only [Nat.add_eq_zero_iff, Nat.one_ne_zero, and_false, if_false]
  split
  · obtain ⟨hmatched, hposition⟩ := sameStep_restart (f (g p).position) p
    exact ⟨hmatched.symm, fun h => (hposition (hmatched.trans h)).symm⟩
  · exact ⟨rfl, nofun⟩

theorem repetitionOf_eq (bounds : Bounds) (i : κ) :
    repetitionOf f g bounds i =
      if bounds.least ≤ (plainLoop (fun q _ => f q) (fun q _ => g q) i bounds.most 0 i).2 then
        .success i (plainLoop (fun q _ => f q) (fun q _ => g q) i bounds.most 0 i).1
      else .failure i := by
  unfold repetitionOf plainCounted
  simp only
  split
  · rfl
  · rfl

/-- **The first item comes out of the loop.** What is left is a repetition of a separator and an item,
without separators of its own. -/
theorem repetitionOf_succ {least most : Nat} (hle : least ≤ most) :
    repetitionOf f g ⟨least + 1, most + 1, Nat.succ_le_succ hle⟩ =
      seqOf f (repetitionOf (seqOf g f) emptyOf ⟨least, most, hle⟩) := by
  funext i
  have hshift : ∀ p, plainLoop (fun q _ => f q) (fun q _ => g q) i most (0 + 1) p =
      ((plainLoop (fun q _ => seqOf g f q) (fun q _ => emptyOf q) p most 0 p).1,
        (plainLoop (fun q _ => seqOf g f q) (fun q _ => emptyOf q) p most 0 p).2 + 1) := by
    intro p
    apply plainLoop_shift
    intro count q
    rw [passOf_emptyOf]
    exact passOf_succ i count q
  have hfirst : passOf (fun q _ => f q) (fun q _ => g q) i 0 i = f i := rfl
  rw [repetitionOf_eq, seqOf, repetitionOf_eq]
  simp only [plainLoop, hfirst]
  by_cases hmatched : (f i).matched = true
  · simp only [hmatched, if_true, hshift, Nat.add_le_add_iff_right]
    split <;> simp [Match.restart]
  · simp [hmatched]

/-- A loop that has counted nothing has not moved. -/
theorem plainLoop_eq_start {item separator : κ → κ → Match κ} {l i : κ} {left : Nat}
    (h : (plainLoop item separator l left 0 i).2 = 0) :
    (plainLoop item separator l left 0 i).1 = i := by
  have hstart : occurrence item separator l i 0 = some i := rfl
  obtain ⟨q, n, hloop, hlast, -⟩ : ∃ q n, plainLoop item separator l left 0 i = (q, n) ∧
      Last item separator l i (0 + left) n q := plainLoop_last hstart
  rw [hloop] at h ⊢
  subst h
  exact (Option.some.inj hlast).symm

/-- A repetition that needs no item is one that needs an item, or nothing. -/
theorem repetitionOf_zero {most : Nat} (hmost : 1 ≤ most) :
    repetitionOf f g ⟨0, most, Nat.zero_le most⟩ = optionalOf (repetitionOf f g ⟨1, most, hmost⟩) := by
  funext i
  rw [optionalOf, repetitionOf_eq, repetitionOf_eq]
  simp only [Nat.zero_le, if_true]
  by_cases hnone : (plainLoop (fun q _ => f q) (fun q _ => g q) i most 0 i).2 = 0
  · rw [plainLoop_eq_start hnone, hnone]
    simp [Match.success, Match.stay]
  · simp [Nat.one_le_iff_ne_zero, hnone, Match.restart]

/-! ## One pass more -/

theorem repetitionOf_of_last (bounds : Bounds) {i q : κ} {n : Nat}
    (hlast : Last (fun q _ => f q) (fun q _ => g q) i i bounds.most n q) :
    repetitionOf f g bounds i = (concluded bounds i q n).1 :=
  congrArg Prod.fst (plainCounted_eq hlast)

/-- One pass more makes no difference where that pass fails or does not move. -/
theorem repetitionOf_grow {least most : Nat} (hle : least ≤ most) {i : κ}
    (hstill : ∀ p q, occurrence (fun q _ => f q) (fun q _ => g q) i i most = some p →
      occurrence (fun q _ => f q) (fun q _ => g q) i i (most + 1) = some q → q = p) :
    repetitionOf f g ⟨least, most, hle⟩ i =
      repetitionOf f g ⟨least, most + 1, Nat.le_succ_of_le hle⟩ i := by
  have hstart : occurrence (fun q _ => f q) (fun q _ => g q) i i 0 = some i := rfl
  obtain ⟨q, n, -, hlast⟩ : ∃ q n, plainLoop (fun q _ => f q) (fun q _ => g q) i most 0 i = (q, n) ∧
      Last (fun q _ => f q) (fun q _ => g q) i i (0 + most) n q := plainLoop_last hstart
  rw [Nat.zero_add] at hlast
  obtain ⟨hq, hn, hnext⟩ := hlast
  rw [repetitionOf_of_last ⟨least, most, hle⟩ ⟨hq, hn, hnext⟩]
  rcases Nat.lt_or_eq_of_le hn with hlt | rfl
  -- The loop has come to its end before its limit.
  · rw [repetitionOf_of_last ⟨least, most + 1, _⟩ ⟨hq, Nat.le_succ_of_le hn, fun _ => hnext hlt⟩]
    rfl
  · cases hmore : occurrence (fun q _ => f q) (fun q _ => g q) i i (n + 1) with
    | none =>
      rw [repetitionOf_of_last ⟨least, n + 1, _⟩ ⟨hq, Nat.le_succ n, fun _ => hmore⟩]
      rfl
    | some r =>
      -- The additional pass is counted, but it stays where the one before it has stopped.
      obtain rfl := hstill q r hq hmore
      rw [repetitionOf_of_last ⟨least, n + 1, _⟩
          ⟨hmore, Nat.le_refl _, fun hlt => absurd hlt (Nat.lt_irrefl _)⟩,
        concluded_of_le hle, concluded_of_le (Nat.le_succ_of_le hle)]

/-- A loop that has made all the passes it may stands where the last of them has ended. -/
theorem repetitionOf_of_occurrence (bounds : Bounds) {i q : κ}
    (hq : occurrence (fun p _ => f p) (fun p _ => g p) i i bounds.most = some q) :
    repetitionOf f g bounds i = .success i q := by
  have hlast : Last (fun p _ => f p) (fun p _ => g p) i i bounds.most bounds.most q :=
    ⟨hq, Nat.le_refl _, fun hlt => absurd hlt (Nat.lt_irrefl _)⟩
  rw [repetitionOf_of_last bounds hlast, concluded_of_le bounds.least_le_most]

/-- The largest size does not cut off a repetition that starts at `i`: after so many passes, a further one
would fail or stay where it is. -/
def Unlimited (f g : κ → Match κ) (i : κ) : Prop :=
  ∀ p q, occurrence (fun q _ => f q) (fun q _ => g q) i i Size.top = some p →
    occurrence (fun q _ => f q) (fun q _ => g q) i i (Size.top + 1) = some q → q = p

/-- Occurrences behind the first are occurrences of separator and item together. -/
theorem occurrence_behind_first {l k i : κ} (hmatched : (f i).matched = true) (n : Nat) :
    occurrence (fun q _ => f q) (fun q _ => g q) l i (n + 1) =
      occurrence (fun q _ => seqOf g f q) (fun q _ => emptyOf q) k (f i).position n := by
  induction n with
  | zero =>
    have hfirst : passOf (fun q _ => f q) (fun q _ => g q) l 0 i = f i := rfl
    simp [occurrence, hfirst, hmatched]
  | succ n ih =>
    rw [occurrence, ih, occurrence]
    cases hp : occurrence (fun q _ => seqOf g f q) (fun q _ => emptyOf q) k (f i).position n with
    | none => rfl
    | some p =>
      obtain ⟨hsame, hposition⟩ := passOf_succ (f := f) (g := g) l n p
      simp only [Option.bind_eq_bind, Option.bind_some, passOf_emptyOf, ← hsame]
      split
      · next hnext => rw [hposition hnext]
      · rfl

/-- In front of a loop that makes all the passes it may, the first item is one occurrence more. -/
theorem seqOf_repetitionOf_of_occurrence (bounds : Bounds) {i q : κ}
    (hq : occurrence (fun p _ => f p) (fun p _ => g p) i i (bounds.most + 1) = some q) :
    seqOf f (repetitionOf (seqOf g f) emptyOf bounds) i = .success i q := by
  have hmatched : (f i).matched = true := by
    by_contra hfails
    have hnone : occurrence (fun p _ => f p) (fun p _ => g p) i i (0 + 1) = none :=
      occurrence_succ_none rfl (Bool.eq_false_iff.2 hfails)
    rw [occurrence_none_of_le (Nat.le_add_left _ _) hnone] at hq
    cases hq
  rw [occurrence_behind_first (k := (f i).position) hmatched] at hq
  rw [seqOf, if_pos hmatched, repetitionOf_of_occurrence bounds hq]
  rfl

/-- Without an upper limit the first item comes out of the loop as well, unless the largest size cuts the
loop off. -/
theorem repetitionOf_one_top (i : κ) (hle : 1 ≤ Size.top) :
    repetitionOf f g ⟨1, Size.top, hle⟩ i =
        seqOf f (repetitionOf (seqOf g f) emptyOf ⟨0, Size.top, Nat.zero_le _⟩) i ↔
      Unlimited f g i := by
  constructor
  · intro heq p q hp hq
    rw [repetitionOf_of_occurrence ⟨1, Size.top, hle⟩ hp,
      seqOf_repetitionOf_of_occurrence ⟨0, Size.top, Nat.zero_le _⟩ hq] at heq
    exact (congrArg Match.position heq).symm
  · intro h
    obtain ⟨most, hmost⟩ : ∃ most, Size.top = most + 1 := ⟨Size.top - 1, by decide⟩
    unfold Unlimited at h
    simp only [hmost] at h hle ⊢
    rw [repetitionOf_succ (Nat.zero_le most), seqOf, seqOf]
    split
    · next hmatched =>
      rw [repetitionOf_grow]
      intro p q hp hq
      rw [← occurrence_behind_first (g := g) (l := i) hmatched] at hp hq
      exact h p q hp hq
    · rfl

/-- An item behind nothing is the item. -/
theorem repetitionOf_emptyOf_seqOf (bounds : Bounds) :
    repetitionOf (seqOf emptyOf f) emptyOf bounds = repetitionOf f emptyOf bounds := by
  funext i
  have hpass : ∀ count p, SameStep
      (passOf (fun q _ => seqOf emptyOf f q) (fun q _ => emptyOf q) i (count + 0) p)
      (passOf (fun q _ => f q) (fun q _ => emptyOf q) i count p) := by
    intro count p
    simp only [passOf_emptyOf]
    exact sameStep_restart (f p) p
  have hloop := plainLoop_shift 0 hpass bounds.most 0 i
  rw [repetitionOf_eq, repetitionOf_eq, hloop]
  rfl

/-! ## Ranges -/

section Ranges

variable [Cursor κ α] [Track κ α]

/-- A pass in a window that item and separator keep to ends in the window, not before its start. -/
theorem passOf_keeps {w : Window α} (hf : w.Keeps fun c _ => f c) (hg : w.Keeps fun c _ => g c)
    {l : κ} {count x : Nat} (hx : x ≤ w.length)
    (hmatched : (passOf (fun c _ => f c) (fun c _ => g c) l count (w.cursor x)).matched = true) :
    ∃ y, x ≤ y ∧ y ≤ w.length ∧
      (passOf (fun c _ => f c) (fun c _ => g c) l count (w.cursor x)).position = w.cursor y := by
  unfold passOf at hmatched ⊢
  by_cases hzero : count = 0
  · simp only [hzero, if_true] at hmatched ⊢
    exact hf x hx hmatched
  · simp only [hzero, if_false] at hmatched ⊢
    by_cases hgap : (g (w.cursor x)).matched = true
    · obtain ⟨y, hxy, hy, hposition⟩ := hg x hx hgap
      simp only [hgap, if_true, hposition] at hmatched ⊢
      obtain ⟨z, hyz, hz, hend⟩ := hf y hy hmatched
      exact ⟨z, Nat.le_trans hxy hyz, hz, hend⟩
    · simp [hgap] at hmatched

/-- In a window that item and separator keep to, each occurrence behind the first lies further on than the
one before it, or one of the passes has stalled. -/
theorem occurrence_forward {w : Window α} (hf : w.Keeps fun c _ => f c) (hg : w.Keeps fun c _ => g c)
    {x : Nat} (hx : x ≤ w.length) {l q : κ} {n : Nat}
    (hq : occurrence (fun c _ => f c) (fun c _ => g c) l (w.cursor x) (n + 1) = some q) :
    (∃ k p, 1 ≤ k ∧ k ≤ n ∧
      occurrence (fun c _ => f c) (fun c _ => g c) l (w.cursor x) k = some p ∧
      occurrence (fun c _ => f c) (fun c _ => g c) l (w.cursor x) (k + 1) = some p) ∨
    ∃ z y, x ≤ z ∧ z + n ≤ y ∧ y ≤ w.length ∧ q = w.cursor y ∧
      occurrence (fun c _ => f c) (fun c _ => g c) l (w.cursor x) 1 = some (w.cursor z) := by
  induction n generalizing q with
  | zero =>
    obtain ⟨hmatched, rfl⟩ := (occurrence_succ rfl).1 hq
    obtain ⟨y, hxy, hy, hposition⟩ := passOf_keeps hf hg hx hmatched
    exact .inr ⟨y, y, hxy, Nat.le_refl y, hy, hposition, hq.trans (congrArg some hposition)⟩
  | succ n ih =>
    cases hp : occurrence (fun c _ => f c) (fun c _ => g c) l (w.cursor x) (n + 1) with
    | none =>
      rw [occurrence_none_of_le (Nat.le_succ _) hp] at hq
      cases hq
    | some p =>
      rcases ih hp with ⟨k, r, hk, hkn, hstalled⟩ | ⟨z, y, hxz, hny, hy, rfl, hfirst⟩
      · exact .inl ⟨k, r, hk, Nat.le_succ_of_le hkn, hstalled⟩
      · obtain ⟨hmatched, hposition⟩ := (occurrence_succ hp).1 hq
        obtain ⟨v, hyv, hv, hend⟩ := passOf_keeps hf hg hy hmatched
        -- The last pass has stalled itself if it has not moved.
        rcases Nat.lt_or_eq_of_le hyv with hlt | rfl
        · exact .inr ⟨z, v, hxz, by omega, hv, hposition.symm.trans hend, hfirst⟩
        · refine .inl ⟨n + 1, w.cursor y, by omega, Nat.le_refl _, hp, ?_⟩
          rw [hq, ← hposition, hend]

/-- From a stalled pass on, all passes end at one place. -/
theorem unlimited_of_stalled {i r : κ} {k : Nat} (hk : 1 ≤ k) (hkn : k ≤ Size.top)
    (hr : occurrence (fun c _ => f c) (fun c _ => g c) i i k = some r)
    (hr' : occurrence (fun c _ => f c) (fun c _ => g c) i i (k + 1) = some r) : Unlimited f g i := by
  intro p q hp hq
  rw [occurrence_of_stalled hk hr hr' hkn] at hp
  rw [occurrence_of_stalled hk hr hr' (Nat.le_succ_of_le hkn)] at hq
  exact (Option.some.inj hq).symm.trans (Option.some.inj hp)

/-- In a window of fewer elements than the largest size, the largest size cuts nothing off. -/
theorem unlimited_of_keeps {w : Window α} (hlength : w.length < Size.top)
    (hf : w.Keeps fun c _ => f c) (hg : w.Keeps fun c _ => g c) {x : Nat} (hx : x ≤ w.length) :
    Unlimited f g (w.cursor x : κ) := by
  intro p q hp hq
  rcases occurrence_forward hf hg hx hq with ⟨k, r, hk, hkn, hr, hr'⟩ | ⟨z, y, -, hzy, hy, -, -⟩
  · exact unlimited_of_stalled hk hkn hr hr' p q hp hq
  · omega

/-- Without separators, it cuts nothing off in any window. -/
theorem unlimited_emptyOf_of_keeps {w : Window α} (hlength : w.length < Size.bound)
    (hf : w.Keeps fun c _ => f c) {x : Nat} (hx : x ≤ w.length) :
    Unlimited f emptyOf (w.cursor x : κ) := by
  have hempty : w.Keeps fun (c : κ) _ => emptyOf c := fun y hy _ => ⟨y, Nat.le_refl y, hy, rfl⟩
  intro p q hp hq
  rcases occurrence_forward hf hempty hx hq with
    ⟨k, r, hk, hkn, hr, hr'⟩ | ⟨z, y, hxz, hzy, hy, -, hfirst⟩
  · exact unlimited_of_stalled hk hkn hr hr' p q hp hq
  · -- There is room for so many passes only if the first of them has not moved, and then none does.
    have htop : Size.top + 1 = Size.bound := by decide
    obtain rfl : z = x := by omega
    obtain ⟨hmatched, hposition⟩ := (occurrence_succ rfl).1 hfirst
    have hsecond : occurrence (fun c _ => f c) (fun c _ => emptyOf c) (w.cursor z) (w.cursor z) (1 + 1) =
        some (w.cursor z) := by
      rw [passOf_emptyOf] at hmatched hposition
      rw [occurrence_succ hfirst, passOf_emptyOf]
      exact ⟨hmatched, hposition⟩
    exact unlimited_of_stalled (Nat.le_refl 1) (by decide) hfirst hsecond p q hp hq

theorem keeps_optionalOf {w : Window α} (hf : w.Keeps fun (c : κ) _ => f c) :
    w.Keeps fun (c : κ) _ => optionalOf f c := by
  intro x hx _
  show ∃ y, x ≤ y ∧ y ≤ w.length ∧ (optionalOf f (w.cursor x)).position = w.cursor y
  unfold optionalOf
  split
  · next hmatched =>
    obtain ⟨y, hxy, hy, hposition⟩ := hf x hx hmatched
    exact ⟨y, hxy, hy, by rw [Match.restart, if_pos hmatched, Match.success_position, hposition]⟩
  · exact ⟨x, Nat.le_refl x, hx, rfl⟩

end Ranges

end Recognizer


/-! ## Rules -/

namespace Recognizer

variable {κ α σ : Type}

open Run

/-- Between `i` and `j` the two recognizers answer the same, whatever state either of them is started
in. -/
def SameAnswer (x y : Recognizer κ σ) (i j : κ) : Prop := ∃ m, (x i j).Gives m ∧ (y i j).Gives m

theorem AnswersAt.same {C : κ → Prop} {i j : κ} {x y : Recognizer κ σ} {f g : κ → Match κ}
    (hx : x.AnswersAt C j f) (hy : y.AnswersAt C j g) (hi : C i) (hfg : f i = g i) :
    SameAnswer x y i j :=
  ⟨f i, hx.gives i hi, hfg ▸ hy.gives i hi⟩

theorem AnswersAt.same_iff [Nonempty σ] {C : κ → Prop} {i j : κ} {x y : Recognizer κ σ}
    {f g : κ → Match κ} (hx : x.AnswersAt C j f) (hy : y.AnswersAt C j g) (hi : C i) :
    SameAnswer x y i j ↔ f i = g i := by
  constructor
  · rintro ⟨m, hxm, hym⟩
    exact ((hx.gives i hi).unique hxm).trans (hym.unique (hy.gives i hi))
  · exact hx.same hy hi

/-! ### Loops and their first items -/

section Unrolling

variable [Walk κ α] {C : κ → Prop} {j : κ} {a b : Recognizer κ σ} {f g : κ → Match κ}

/-- A repetition whose limits are in order keeps both of them. -/
theorem AnswersAt.many (hsame : ∀ c d, C c → C d → (Walk.same c d = true ↔ c = d))
    (ha : a.AnswersAt C j f) (hb : b.AnswersAt C j g) {least most : Nat} (hle : least ≤ most) :
    (a.repetition b (.clamp least most)).AnswersAt C j (repetitionOf f g ⟨least, most, hle⟩) := by
  have hclamp : Bounds.clamp least most = ⟨least, most, hle⟩ := by
    simp only [Bounds.clamp, Nat.min_eq_left hle]
  rw [hclamp]
  exact ha.repetition hsame hb _

/-- An item, and then separators and items for as long as there are any. -/
theorem AnswersAt.unrolled (hsame : ∀ c d, C c → C d → (Walk.same c d = true ↔ c = d))
    (ha : a.AnswersAt C j f) (hb : b.AnswersAt C j g) {least most : Nat} (hle : least ≤ most) :
    (a.seq ((b.seq a).repetition (ofTerminal (Terminal.constant true)) (.clamp least most))).AnswersAt C j
      (seqOf f (repetitionOf (seqOf g f) emptyOf ⟨least, most, hle⟩)) :=
  ha.seq ((hb.seq ha).many hsame .empty hle)

/-- An item, and then items for as long as there are any. -/
theorem AnswersAt.unrolled_alone (hsame : ∀ c d, C c → C d → (Walk.same c d = true ↔ c = d))
    (ha : a.AnswersAt C j f) {least most : Nat} (hle : least ≤ most) :
    (a.seq (a.repetition (ofTerminal (Terminal.constant true)) (.clamp least most))).AnswersAt C j
      (seqOf f (repetitionOf (seqOf emptyOf f) emptyOf ⟨least, most, hle⟩)) := by
  rw [repetitionOf_emptyOf_seqOf]
  exact ha.seq (ha.many hsame .empty hle)

/-- Where there are more occurrences than the largest size, a repetition without an upper limit and its
expansion end one occurrence apart. -/
theorem AnswersAt.cut_off (hsame : ∀ c d, C c → C d → (Walk.same c d = true ↔ c = d))
    (ha : a.AnswersAt C j f) (hb : b.AnswersAt C j g) {i p q : κ} (hi : C i)
    (hp : occurrence (fun c _ => f c) (fun c _ => g c) i i Size.top = some p)
    (hq : occurrence (fun c _ => f c) (fun c _ => g c) i i (Size.top + 1) = some q) :
    (a.repetition b (.clamp 1 Size.top) i j).Gives (.success i p) ∧
      (a.seq ((b.seq a).repetition (ofTerminal (Terminal.constant true)) (.clamp 0 Size.top)) i j).Gives
        (.success i q) := by
  have hloop := (ha.many hsame hb (show 1 ≤ Size.top by decide)).gives i hi
  have hunrolled := (ha.unrolled hsame hb (Nat.zero_le Size.top)).gives i hi
  rw [repetitionOf_of_occurrence ⟨1, Size.top, by decide⟩ hp] at hloop
  rw [seqOf_repetitionOf_of_occurrence ⟨0, Size.top, Nat.zero_le _⟩ hq] at hunrolled
  exact ⟨hloop, hunrolled⟩

theorem AnswersAt.cut_off_alone (hsame : ∀ c d, C c → C d → (Walk.same c d = true ↔ c = d))
    (ha : a.AnswersAt C j f) {i p q : κ} (hi : C i)
    (hp : occurrence (fun c _ => f c) (fun c _ => emptyOf c) i i Size.top = some p)
    (hq : occurrence (fun c _ => f c) (fun c _ => emptyOf c) i i (Size.top + 1) = some q) :
    (a.repetition (ofTerminal (Terminal.constant true)) (.clamp 1 Size.top) i j).Gives (.success i p) ∧
      (a.seq (a.repetition (ofTerminal (Terminal.constant true)) (.clamp 0 Size.top)) i j).Gives
        (.success i q) := by
  refine ⟨(ha.cut_off hsame .empty hi hp hq).1, ?_⟩
  have hunrolled := (ha.unrolled_alone hsame (Nat.zero_le Size.top)).gives i hi
  rwa [seqOf_repetitionOf_of_occurrence ⟨0, Size.top, Nat.zero_le _⟩ hq] at hunrolled

end Unrolling

/-! ### Terminals in a window -/

/-- A terminal that runs alike in a window and itself answers there as a function of its start. -/
theorem answersAt_of_alike [Cursor κ α] [Track κ α] [Steps κ α] {w : Window α}
    (hfits : Steps.Fits κ w.data) {n : Nat} {t : Terminal κ}
    (ht : Terminal.Alike (Twin.self w hfits) n t t) :
    (ofTerminal t : Recognizer κ σ).AnswersAt (fun c => ∃ x, x ≤ w.length ∧ c = w.cursor x) w.limit
      fun i => (t i w.limit).toOption.getD (.failure i) := by
  constructor
  · rintro i ⟨x, hx, rfl⟩ s
    obtain ⟨m, -, hm, -⟩ := ht x hx
    have hm' : t (w.cursor x) w.limit = .ok m := hm
    refine ⟨s, ends_lift.2 ⟨?_, rfl⟩⟩
    simp [hm', Except.toOption]
  · rintro i ⟨x, hx, rfl⟩ hmatched
    obtain ⟨m, m', hm, -, hlike⟩ := ht x hx
    have hm' : t (w.cursor x) w.limit = .ok m := hm
    simp only [hm', Except.toOption, Option.getD_some] at hmatched ⊢
    obtain ⟨y, -, hy, hposition, -⟩ := hlike.level hmatched
    exact ⟨y, hy, hposition⟩

/-- There it moves forward and stays in the window. -/
theorem keeps_of_alike [Cursor κ α] [Track κ α] [Steps κ α] {w : Window α}
    (hfits : Steps.Fits κ w.data) {n : Nat} {t : Terminal κ}
    (ht : Terminal.Alike (Twin.self w hfits) n t t) :
    w.Keeps fun i _ => (t i w.limit).toOption.getD (.failure i) := by
  intro x hx hmatched
  obtain ⟨m, m', hm, -, hlike⟩ := ht x hx
  have hm' : t (w.cursor x) w.limit = .ok m := hm
  simp only [hm', Except.toOption, Option.getD_some] at hmatched ⊢
  obtain ⟨y, hxy, hy, hposition, -⟩ := hlike.level hmatched
  exact ⟨y, Nat.le_trans (Nat.le_add_right x n) hxy, hy, hposition⟩

/-- Skipping one element looks at the indices alone, so that a sequence can be left by it. -/
theorem answersAt_skip {α : Type} (source : Nat) (data : List α) {n : Nat} (hn : n < Size.bound) :
    (ofTerminal (Terminal.advance 1) : Recognizer (SliceCursor α) σ).AnswersAt
      (fun c => ∃ k, c = Track.place source data k) (Track.place source data n)
      fun c => if c.index < n then .success c (Track.place source data (c.index + 1)) else .failure c := by
  constructor
  · rintro _ ⟨k, rfl⟩ s
    refine ⟨s, ends_lift.2 ⟨?_, rfl⟩⟩
    have henough : Cursor.hasAtLeast (Track.place source data k : SliceCursor α) 1
        (Track.place source data n) = decide (1 ≤ n - k) := rfl
    rw [Terminal.advance, henough]
    by_cases hk : k < n
    · have hone : 1 ≤ n - k := Nat.le_sub_of_add_le (Nat.add_comm 1 k ▸ hk)
      -- The step does not overflow, since the limit has an index.
      rw [SliceCursor.advanceBy_place_eq source (show k + 1 < Size.bound by omega), decide_eq_true hone]
      show _ = Except.ok (if k < n then _ else _)
      rw [if_pos hk]
      rfl
    · rw [decide_eq_false (by omega)]
      show _ = Except.ok (if k < n then _ else _)
      rw [if_neg hk]
      rfl
  · rintro _ ⟨k, rfl⟩
    apply closed_ite (C := fun c => ∃ k, c = Track.place source data k)
    · exact fun _ _ => ⟨k + 1, rfl⟩
    · exact fun _ => nofun

/-! ### Loops that are cut off -/

/-- Along a path on which every pass leads to the next place, the occurrences end at these places. -/
theorem occurrence_of_path {item separator : κ → κ → Match κ} {l : κ} (path : Nat → κ) {most : Nat}
    (hpass : ∀ n, n < most → (passOf item separator l n (path n)).matched = true ∧
      (passOf item separator l n (path n)).position = path (n + 1)) {n : Nat} (hn : n ≤ most) :
    occurrence item separator l (path 0) n = some (path n) := by
  induction n with
  | zero => rfl
  | succ n ih => exact (occurrence_succ (ih (Nat.le_of_succ_le hn))).2 (hpass n hn)

/-- An item that leads from each of two cursors to the other. -/
def turnOf [DecidableEq κ] (first second : κ) (i : κ) : Match κ :=
  .success i (if i = first then second else first)

theorem occurrence_turnOf [DecidableEq κ] {first second : κ} (hne : first ≠ second) (l : κ) (n : Nat) :
    occurrence (fun i _ => turnOf first second i) (fun i _ => emptyOf i) l first n =
      some (if n % 2 = 0 then first else second) := by
  apply occurrence_of_path (fun n => if n % 2 = 0 then first else second) _ (Nat.le_refl n)
  intro k _
  rw [passOf_emptyOf]
  refine ⟨rfl, ?_⟩
  rcases Nat.mod_two_eq_zero_or_one k with hk | hk
  · simp [turnOf, hk, Nat.add_mod]
  · simp [turnOf, hk, Nat.add_mod, hne.symm]

/-- Behind empty items, each separator of one element leads one place on. -/
theorem occurrence_skip {α : Type} (source : Nat) (data : List α) (l : SliceCursor α) {n m : Nat}
    (hn : n ≤ m + 1) :
    occurrence (fun c _ => emptyOf c) (fun c _ => if c.index < m then
        .success c (Track.place source data (c.index + 1)) else .failure c) l
      (Track.place source data 0) n = some (Track.place source data (n - 1)) := by
  apply occurrence_of_path (fun n => Track.place source data (n - 1)) _ hn
  rintro (_ | k) hk
  -- The first item has no separator in front of it.
  · exact ⟨rfl, rfl⟩
  · have hlt : (Track.place source data k : SliceCursor α).index < m := Nat.lt_of_succ_lt_succ hk
    have hindex : (Track.place source data k : SliceCursor α).index = k := rfl
    simp only [passOf, Nat.succ_ne_zero, if_false, Nat.add_sub_cancel, hlt, if_true]
    exact ⟨rfl, by rw [hindex]; rfl⟩

end Recognizer

namespace Rule

variable {κ α β γ : Type} [Cursor κ α] [Track κ α] [Element α] [DecidableEq α]

open Recognizer

/-- **Derived shapes mean their expansions.** For parts that answer as functions of their start, up to the
limit `j`: options, lookaheads, exclusive choices, selections and repetitions with separators answer as
their expansions do, for parts that match without moving as well. Without an upper limit a repetition is
unrolled likewise exactly when the largest size does not cut it off. For parts that move forward it never
does without separators, and with separators not in a range of fewer elements than the largest size. -/
theorem derived_shapes_expand (inputs : Nat → List α) (foreign : γ → κ → κ → Match κ)
    (cells : Cells α β γ) (depth : Nat) (C : κ → Prop) (hC : ∀ c, C c → Track.Genuine inputs c) (j : κ)
    {a b c : Rule α β γ} {f g h : κ → Match κ}
    (ha : (a.parse foreign cells depth : Meaning κ β).AnswersAt C j f)
    (hb : (b.parse foreign cells depth : Meaning κ β).AnswersAt C j g)
    (hc : (c.parse foreign cells depth : Meaning κ β).AnswersAt C j h) (i : κ) (hi : C i) :
    let Same (x y : Rule α β γ) : Prop :=
      SameAnswer (x.parse foreign cells depth : Meaning κ β) (y.parse foreign cells depth) i j
    Same (.optional a) (.choice a .empty) ∧
    Same (.lookahead a) (.negation (.negation a)) ∧
    Same (.exclusive a b) (.choice (.difference a b) (.difference b a)) ∧
    Same (.select a b c) (.choice (.seq a b) (.seq (.negation a) c)) ∧
    (∀ least most, 1 ≤ least → least ≤ most →
      Same (.many a b least most) (.seq a (.many (.seq b a) .empty (least - 1) (most - 1)))) ∧
    (∀ most, 1 ≤ most →
      Same (.many a b 0 most) (.optional (.seq a (.many (.seq b a) .empty 0 (most - 1))))) ∧
    (Same (.plus a) (.seq a (.star a)) ↔ Unlimited f emptyOf i) ∧
    (Same (.separatedBy a b) (.seq a (.star (.seq b a))) ↔ Unlimited f g i) ∧
    ∀ (w : Window α) (x : Nat), w.length < Size.bound → x ≤ w.length → i = w.cursor x →
      w.Keeps (fun p _ => f p) →
      Same (.plus a) (.seq a (.star a)) ∧
      (w.length < Size.top → w.Keeps (fun p _ => g p) →
        Same (.separatedBy a b) (.seq a (.star (.seq b a)))) := by
  have hsame : ∀ p q, C p → C q → (Walk.same p q = true ↔ p = q) :=
    fun p q hp hq => (hC p hp).same_iff (hC q hq)
  have hstore : Nonempty (Store κ β) := ⟨{}⟩
  have hempty : ((Rule.empty : Rule α β γ).parse foreign cells depth : Meaning κ β).AnswersAt C j emptyOf := by
    rw [parse_eq]
    exact AnswersAt.empty
  simp only [parse_eq, many, plus, star, separatedBy] at ha hb hc hempty ⊢
  have hplus := ((ha.many hsame hempty (by decide)).same_iff (ha.unrolled_alone hsame (Nat.zero_le _))
    hi).trans (repetitionOf_one_top i (by decide))
  have hseparated := ((ha.many hsame hb (by decide)).same_iff (ha.unrolled hsame hb (Nat.zero_le _))
    hi).trans (repetitionOf_one_top i (by decide))
  refine ⟨?_, ?_, ?_, ?_, ?_, ?_, hplus, hseparated, ?_⟩
  · exact ha.optional.same (ha.choice hempty) hi (congrFun optionalOf_eq i)
  · exact ha.lookahead.same ha.negation.negation hi (congrFun lookaheadOf_eq i)
  · exact (ha.exclusive hb).same ((hb.negation.seq ha).choice (ha.negation.seq hb)) hi
      (congrFun exclusiveOf_eq i)
  · exact (ha.select hb hc).same ((ha.seq hb).choice (ha.negation.seq hc)) hi (congrFun selectOf_eq i)
  · intro least most hleast hle
    obtain ⟨least, rfl⟩ := Nat.exists_eq_add_of_le' hleast
    obtain ⟨most, rfl⟩ := Nat.exists_eq_add_of_le' (Nat.le_trans hleast hle)
    have hle' : least ≤ most := Nat.le_of_add_le_add_right hle
    rw [Nat.add_sub_cancel, Nat.add_sub_cancel]
    exact (ha.many hsame hb hle).same (ha.unrolled hsame hb hle') hi (congrFun (repetitionOf_succ hle') i)
  · intro most hmost
    obtain ⟨most, rfl⟩ := Nat.exists_eq_add_of_le' hmost
    rw [Nat.add_sub_cancel]
    refine (ha.many hsame hb (Nat.zero_le _)).same (ha.unrolled hsame hb (Nat.zero_le most)).optional hi ?_
    rw [repetitionOf_zero hmost, repetitionOf_succ (Nat.zero_le most)]
  · rintro w x hlength hx rfl hf
    refine ⟨hplus.2 (unlimited_emptyOf_of_keeps hlength hf hx), fun hshort hg => ?_⟩
    exact hseparated.2 (unlimited_of_keeps hshort hf hg hx)

/-- An item and a separator that may both be missing: with and without an upper limit, the repetition and
its expansion answer the same. -/
theorem derived_shapes_expand_nullable :
    let item : Rule UInt8 String Empty := .optional (.element 1)
    let separator : Rule UInt8 String Empty := .optional (.element 2)
    let w : Window UInt8 := .whole 0 [1, 2, 1, 3]
    let foreign : Empty → SliceCursor UInt8 → SliceCursor UInt8 → Match (SliceCursor UInt8) := nofun
    let Same (x y : Rule UInt8 String Empty) : Prop :=
      SameAnswer (x.parse foreign [] 0 : Meaning (SliceCursor UInt8) String) (y.parse foreign [] 0)
        (w.cursor 0) w.limit
    Same (.many item separator 2 7) (.seq item (.many (.seq separator item) .empty 1 6)) ∧
      Same (.plus item) (.seq item (.star item)) ∧
      Same (.separatedBy item separator) (.seq item (.star (.seq separator item))) := by
  intro item separator w foreign Same
  have hfits : Steps.Fits (SliceCursor UInt8) w.data := by
    show _ < Size.bound
    decide
  have hoptional : ∀ byte, (parse foreign [] 0 (.optional (.element byte)) :
      Meaning (SliceCursor UInt8) String).AnswersAt (fun c => ∃ x, x ≤ w.length ∧ c = w.cursor x) w.limit _ :=
    fun byte => (answersAt_of_alike hfits (Terminal.alike_satisfy fun b => b = byte)).optional
  have hany : (parse foreign [] 0 .any : Meaning (SliceCursor UInt8) String).AnswersAt
      (fun c => ∃ x, x ≤ w.length ∧ c = w.cursor x) w.limit _ :=
    answersAt_of_alike hfits (Terminal.alike_satisfy _)
  have hgenuine : ∀ c : SliceCursor UInt8, (∃ x, x ≤ w.length ∧ c = w.cursor x) →
      Track.Genuine (fun _ => w.data) c := by
    rintro _ ⟨x, -, rfl⟩
    exact Track.genuine_place _ _ _
  have hkeeps := fun byte : UInt8 =>
    keeps_optionalOf (keeps_of_alike hfits (Terminal.alike_satisfy fun b => b = byte))
  have hall := derived_shapes_expand (fun _ => w.data) foreign [] 0 _ hgenuine w.limit (hoptional 1)
    (hoptional 2) hany (w.cursor 0) ⟨0, Nat.zero_le _, rfl⟩
  obtain ⟨-, -, -, -, hmany, -, -, -, hwindow⟩ := hall
  obtain ⟨hplus, hseparated⟩ := hwindow w 0 (by decide) (Nat.zero_le _) rfl (hkeeps 1)
  exact ⟨hmany 2 7 (by decide) (by decide), hplus, hseparated (by decide) (hkeeps 2)⟩

/-- The largest size can cut a repetition off. A foreign rule that leads from each of two cursors to the other
ends at the second after an odd number of items, and the largest size is odd; unrolled once it is an item
more. And from the start of an empty sequence to the place with the largest index, empty items and
separators of one element make one item more than there are elements. -/
theorem unrolling_cut_off :
    let first : SliceCursor UInt8 := .beginning 0 [0]
    let second : SliceCursor UInt8 := .ending 0 [0]
    let turn : Unit → SliceCursor UInt8 → SliceCursor UInt8 → Match (SliceCursor UInt8) :=
      fun _ i _ => turnOf first second i
    let item : Rule UInt8 String Unit := .foreign ()
    let skip : Rule UInt8 String Unit := .advance 1
    let far (k : Nat) : SliceCursor UInt8 := ⟨0, k, 0, []⟩
    let EndsAt (rule : Rule UInt8 String Unit) (i j p : SliceCursor UInt8) : Prop :=
      ((rule.parse turn [] 0 : Meaning (SliceCursor UInt8) String) i j).Gives (.success i p)
    (EndsAt (.plus item) first second second ∧ EndsAt (.seq item (.star item)) first second first) ∧
      (EndsAt (.separatedBy item .empty) first second second ∧
        EndsAt (.seq item (.star (.seq .empty item))) first second first) ∧
      first ≠ second ∧
      (EndsAt (.separatedBy .empty skip) (far 0) (far Size.top) (far (Size.top - 1)) ∧
        EndsAt (.seq .empty (.star (.seq skip .empty))) (far 0) (far Size.top) (far Size.top)) ∧
      far (Size.top - 1) ≠ far Size.top := by
  intro first second turn item skip far EndsAt
  have hne : first ≠ second := by decide
  have hfar : far (Size.top - 1) ≠ far Size.top := fun h =>
    absurd (congrArg SliceCursor.index h) (by decide)
  have hgenuine : ∀ (data : List UInt8) (c : SliceCursor UInt8), (∃ k, c = Track.place 0 data k) →
      Track.Genuine (fun _ => data) c := by
    rintro data _ ⟨k, rfl⟩
    exact Track.genuine_place _ _ _
  have hsame := fun data c d hc hd => (hgenuine data c hc).same_iff (hgenuine data d hd)
  have hitem : (ofFunction (turn ()) : Meaning (SliceCursor UInt8) String).AnswersAt
      (fun c => ∃ k, c = Track.place 0 [0] k) second (turnOf first second) := by
    apply AnswersAt.ofFunction
    intro i _ _
    show ∃ k, (if i = first then second else first) = Track.place 0 [0] k
    split
    · exact ⟨1, rfl⟩
    · exact ⟨0, rfl⟩
  have hskip := answersAt_skip (σ := Store (SliceCursor UInt8) String) 0 ([] : List UInt8)
    (show Size.top < Size.bound by decide)
  have hodd := occurrence_turnOf hne first Size.top
  have heven := occurrence_turnOf hne first (Size.top + 1)
  have hlast := occurrence_skip 0 ([] : List UInt8) (Track.place 0 [] 0) (Nat.le_succ Size.top)
  have hmore := occurrence_skip 0 ([] : List UInt8) (Track.place 0 [] 0) (Nat.le_refl (Size.top + 1))
  exact ⟨hitem.cut_off_alone (hsame [0]) ⟨0, rfl⟩ hodd heven,
    hitem.cut_off (hsame [0]) .empty ⟨0, rfl⟩ hodd heven, hne,
    AnswersAt.empty.cut_off (hsame []) hskip ⟨0, rfl⟩ hlast hmore, hfar⟩

end Rule

end Pegwork
