import Pegwork.Proofs.Mirror
import Pegwork.Proofs.Twin.Terminal

/-!
# Composites in twin windows

`Recognizer.Alike p S H x n a b` says of two recognizers that they run alike in the twin windows `p`,
wherever they are started behind `x` elements or more: from states related by `S` they end together with
outcomes that agree and states related by `S`, or halt together for a reason in `H`. Their matches take
`n` elements at least.

Every combinator has one lemma. Each part is asked to run alike only from where it can be started: what
follows a part that takes `n` elements is started `n` elements later. For the loops this is the
invariant of the induction over their passes.

`Store.Alike` is the relation of states for rules: the same flags and variables, and new events that
correspond to each other.
-/

namespace Pegwork

variable {κ ρ α : Type} [Cursor κ α] [Track κ α] [Steps κ α] [Cursor ρ α] [Track ρ α] [Steps ρ α]

/-- Started behind `x` elements or more, the two recognizers run alike, and their matches take `n`
elements at least. -/
def Recognizer.Alike {σ τ : Type} (p : Twin κ ρ) (S : σ → τ → Prop) (H : Halt → Prop) (x n : Nat)
    (a : Recognizer κ σ) (b : Recognizer ρ τ) : Prop :=
  ∀ y, x ≤ y → y ≤ p.length → Run.Paired S H (Match.Alike p (y + n))
    (a (p.left.cursor y) p.left.limit) (b (p.right.cursor y) p.right.limit)

namespace Recognizer

variable {σ τ : Type} {p : Twin κ ρ} {S : σ → τ → Prop} {H : Halt → Prop} {x n k : Nat}
  {a b c : Recognizer κ σ} {a' b' c' : Recognizer ρ τ}

open Match Twin Run

theorem Alike.mono {x' n' : Nat} (h : Alike p S H x n a a') (hx : x ≤ x') (hn : n' ≤ n) :
    Alike p S H x' n' a a' :=
  fun y hy hlength => (h y (Nat.le_trans hx hy) hlength).mono
    fun _ _ hm => hm.mono (Nat.add_le_add_left hn y)

/-- The recognizers run alike from linked cursors, too, if these stand in the windows. -/
theorem Alike.of_level {y : Nat} {q : κ} {q' : ρ} (h : Alike p S H x n a a') (hq : p.Level y q q')
    (hxy : x ≤ y) :
    Paired S H (Match.Alike p (y + n)) (a q p.left.limit) (a' q' p.right.limit) := by
  obtain ⟨z, hz, hlength, rfl, rfl⟩ := hq
  exact (h z (Nat.le_trans hxy hz) hlength).mono fun _ _ hm => hm.mono (by omega)

/-- Whoever looks at whether the parts have matched goes the same way in both windows. -/
theorem paired_branch {υ υ' : Type} {V : υ → υ' → Prop} {m : Match κ} {m' : Match ρ}
    {f g : Run σ υ} {f' g' : Run τ υ'} (hm : Match.Alike p x m m')
    (hmatched : m.matched = true → Paired S H V f f') (hfailed : Paired S H V g g') :
    Paired S H V (if m.matched = true then f else g) (if m'.matched = true then f' else g') := by
  rw [← hm.matched_eq]
  split
  · next h => exact hmatched h
  · exact hfailed

theorem alike_ofTerminal {t : Terminal κ} {t' : Terminal ρ} (h : Terminal.Alike p n t t') :
    Alike p S H x n (ofTerminal t) (ofTerminal t') :=
  fun y _ hlength => Both.paired (h y hlength)

/-! ## Sequences and choices -/

theorem Alike.seq (ha : Alike p S H x n a a') (hb : Alike p S H (x + n) k b b') :
    Alike p S H x (n + k) (a.seq b) (a'.seq b') := by
  intro y hy hlength
  refine (ha y hy hlength).bind fun m m' hm => paired_branch hm (fun hmatched => ?_) ?_
  -- The second part starts where the first has stopped.
  · refine (hb.of_level (hm.level hmatched) (by omega)).bind fun q q' hq => ?_
    rw [← Nat.add_assoc]
    exact paired_pure (hq.restart hlength)
  · exact paired_pure (alike_failure hlength)

theorem Alike.choice (ha : Alike p S H x n a a') (hb : Alike p S H x n b b') :
    Alike p S H x n (a.choice b) (a'.choice b') := by
  intro y hy hlength
  refine (ha y hy hlength).bind fun m m' hm => paired_branch hm (fun _ => ?_) ?_
  · exact paired_pure (hm.restart hlength)
  · exact (hb y hy hlength).bind fun q q' hq => paired_pure (hq.restart hlength)

theorem Alike.exclusive (ha : Alike p S H x n a a') (hb : Alike p S H x n b b') :
    Alike p S H x n (a.exclusive b) (a'.exclusive b') := by
  intro y hy hlength
  refine (ha y hy hlength).bind fun m m' hm => ?_
  refine (hb y hy hlength).bind fun q q' hq => ?_
  simp only [← hm.matched_eq, ← hq.matched_eq]
  cases m.matched <;> cases q.matched
  · exact paired_pure (alike_failure hlength)
  · exact paired_pure (hq.restart hlength)
  · exact paired_pure (hm.restart hlength)
  · exact paired_pure (alike_failure hlength)

theorem Alike.select {l : Nat} (ha : Alike p S H x n a a') (hb : Alike p S H (x + n) k b b')
    (hc : Alike p S H x l c c') (hl : l ≤ n + k) :
    Alike p S H x l (a.select b c) (a'.select b' c') := by
  intro y hy hlength
  refine (ha y hy hlength).bind fun m m' hm => paired_branch hm (fun hmatched => ?_) ?_
  · refine (hb.of_level (hm.level hmatched) (by omega)).bind fun q q' hq => ?_
    exact paired_pure ((hq.restart hlength).mono (by omega))
  · exact (hc y hy hlength).bind fun q q' hq => paired_pure (hq.restart hlength)

/-! ## Looking ahead -/

theorem Alike.negation (ha : Alike p S H x n a a') : Alike p S H x 0 a.negation a'.negation := by
  intro y hy hlength
  refine (ha y hy hlength).bind fun m m' hm => ?_
  rw [← hm.matched_eq]
  exact paired_pure (alike_stay hlength _ fun _ => Nat.le_refl y)

theorem Alike.lookahead (ha : Alike p S H x n a a') : Alike p S H x 0 a.lookahead a'.lookahead := by
  intro y hy hlength
  refine (ha y hy hlength).bind fun m m' hm => ?_
  rw [← hm.matched_eq]
  exact paired_pure (alike_stay hlength _ fun _ => Nat.le_refl y)

theorem Alike.optional (ha : Alike p S H x n a a') : Alike p S H x 0 a.optional a'.optional := by
  intro y hy hlength
  refine (ha y hy hlength).bind fun m m' hm => ?_
  simp only [← hm.matched_eq]
  by_cases hmatched : m.matched = true
  · simp only [hmatched, if_true]
    exact paired_pure ((hm.restart hlength).mono (by omega))
  · simp only [hmatched]
    exact paired_pure (alike_stay hlength true fun _ => Nat.le_refl y)

/-! ## Repetition -/

section Repetition

variable {bounds : Bounds}

/-- One pass, started at the beginning or behind the first item. -/
theorem paired_pass (ha : Alike p S H x n a a') {count y : Nat}
    (hb : 0 < count → Alike p S H y 0 b b') (hy : x ≤ y) (hlength : y ≤ p.length) :
    Paired S H (Match.Alike p (y + n)) (pass a b p.left.limit count (p.left.cursor y))
      (pass a' b' p.right.limit count (p.right.cursor y)) := by
  unfold pass
  by_cases hcount : count = 0
  · simp only [hcount, if_true]
    exact ha y hy hlength
  · simp only [hcount, if_false]
    refine (hb (by omega) y (Nat.le_refl y) hlength).bind fun m m' hm =>
      paired_branch hm (fun hmatched => ?_) ?_
    · exact ha.of_level (hm.level hmatched) hy
    · exact paired_pure (alike_failure hlength)

/-- The loop, begun at `z` and now at `y`. All passes but the first start behind an item, and so does
whatever comes after a loop that has counted a pass. -/
theorem paired_repeatFrom (ha : 1 ≤ bounds.most → Alike p S H x n a a')
    (hb : 2 ≤ bounds.most → Alike p S H (x + n) 0 b b') {left count y z : Nat} (hz : x ≤ z)
    (hy : z ≤ y) (hbehind : 0 < count → z + n ≤ y) (hlength : y ≤ p.length)
    (hleft : count + left = bounds.most) :
    Paired S H (fun r r' => r.2 = r'.2 ∧ p.Level (if r.2 = 0 then z else z + n) r.1 r'.1)
      (repeatFrom a b bounds p.left.limit left count (p.left.cursor y))
      (repeatFrom a' b' bounds p.right.limit left count (p.right.cursor y)) := by
  have hstop : p.Level (if count = 0 then z else z + n) (p.left.cursor y) (p.right.cursor y) := by
    refine level_cursor ?_ hlength
    split
    · exact hy
    · exact hbehind (by omega)
  induction left generalizing count y with
  | zero => exact paired_pure ⟨rfl, hstop⟩
  | succ left ih =>
    have hgap : 0 < count → Alike p S H y 0 b b' := fun hcount =>
      (hb (by omega)).mono (by have hfirst := hbehind hcount; omega) (Nat.le_refl 0)
    unfold repeatFrom
    refine (paired_pass (ha (by omega)) hgap (by omega) hlength).bind fun m m' hm =>
      paired_branch hm (fun hmatched => ?_) ?_
    · obtain ⟨q, hq, hqlength, hpos, hpos'⟩ := hm.level hmatched
      simp only [hpos, hpos', ← same_eq hqlength hlength]
      -- Both loops compare the same two places, so the guard fires in both or in none.
      by_cases hguard : (Walk.same (p.left.cursor q : κ) (p.left.cursor y) && decide (0 < count)) = true
      · simp only [hguard, if_true]
        refine paired_pure ⟨rfl, level_cursor ?_ hqlength⟩
        split <;> omega
      · simp only [hguard]
        refine ih (by omega) (fun _ => by omega) hqlength (by omega) (level_cursor ?_ hqlength)
        simp only [Nat.add_eq_zero_iff, Nat.one_ne_zero, and_false, if_false]
        omega
    · exact paired_pure ⟨rfl, hstop⟩

/-- A repetition that needs an item takes as much as the item does. The separator is never tried where
the repetition starts, unless the item can match there without taking anything. -/
theorem Alike.repetition (ha : 1 ≤ bounds.most → Alike p S H x n a a')
    (hb : 2 ≤ bounds.most → Alike p S H (x + n) 0 b b') (hk : k ≤ n)
    (hleast : bounds.least = 0 → k = 0) :
    Alike p S H x k (a.repetition b bounds) (a'.repetition b' bounds) := by
  intro y hy hlength
  unfold Recognizer.repetition counted
  have hloop : Paired S H (fun r r' => r.2 = r'.2 ∧ p.Level (if r.2 = 0 then y else y + n) r.1 r'.1)
      (repeatFrom a b bounds p.left.limit bounds.most 0 (p.left.cursor y))
      (repeatFrom a' b' bounds p.right.limit bounds.most 0 (p.right.cursor y)) :=
    paired_repeatFrom ha hb hy (Nat.le_refl y) (by omega) hlength (Nat.zero_add _)
  refine Paired.bind (hloop.bind fun r r' hr => ?_) fun r r' hr => paired_pure hr
  obtain ⟨hcount, hlevel⟩ := hr
  simp only [← hcount]
  by_cases henough : bounds.least ≤ r.2
  · simp only [henough, if_true]
    refine paired_pure (alike_success hlength (hlevel.mono ?_))
    split <;> omega
  · simp only [henough]
    exact paired_pure (alike_failure hlength)

end Repetition

/-! ## Search -/

/-- The search, begun at `z` and now at `y`. It has enough steps left to reach the limit. -/
theorem paired_findFrom (ha : Alike p S H x n a a') {left y z : Nat} (hz : z ≤ p.length)
    (hzy : z ≤ y) (hy : x ≤ y) (hlength : y ≤ p.length) (hleft : p.length < left + y) :
    Paired S H (Match.Alike p (z + n))
      (findFrom a (p.left.cursor z) p.left.limit left (p.left.cursor y))
      (findFrom a' (p.right.cursor z) p.right.limit left (p.right.cursor y)) := by
  induction left generalizing y with
  | zero => omega
  | succ left ih =>
    unfold findFrom
    refine (ha y hy hlength).bind fun m m' hm => paired_branch hm (fun hmatched => ?_) ?_
    · exact paired_pure (alike_success hz ((hm.level hmatched).mono (by omega)))
    · obtain ⟨hleft', hright'⟩ := same_limit hlength
      simp only [hleft', hright']
      by_cases hend : y = p.length
      · simp only [hend, decide_true, if_true]
        exact paired_pure (alike_failure hz)
      -- Not at the limit, so there is an element to step over.
      · have hlt : y < p.length := by omega
        have hr : y < p.right.length := by rwa [p.length_right]
        simp only [hend, decide_false, Bool.false_eq_true, if_false,
          p.left.advance_cursor p.fits_left hlt, p.right.advance_cursor p.fits_right hr]
        exact ih (by omega) (by omega) hlt (by omega)

theorem Alike.find (ha : Alike p S H x n a a') : Alike p S H x n a.find a'.find := by
  intro y hy hlength
  have hbound := p.length_lt
  exact paired_findFrom ha hlength (Nat.le_refl y) hy hlength (by omega)

/-! ## Observers -/

/-- Two observers that keep related states related when they are called on linked cursors. -/
def Observers (p : Twin κ ρ) (S : σ → τ → Prop) (H : Halt → Prop) (f : κ → κ → Run σ Unit)
    (f' : ρ → ρ → Run τ Unit) : Prop :=
  ∀ c d c' d', p.Linked c c' → p.Linked d d' → Paired S H (fun _ _ => True) (f c d) (f' c' d')

theorem linked_limit : p.Linked p.left.limit p.right.limit := by
  rw [p.limit_right]
  exact p.linked_cursor p.length (Nat.le_refl _)

theorem Observers.atLimit {f : κ → κ → Run σ Unit} {f' : ρ → ρ → Run τ Unit} (h : Observers p S H f f')
    (y : Nat) (hlength : y ≤ p.length) :
    Paired S H (fun _ _ => True) (f (p.left.cursor y) p.left.limit) (f' (p.right.cursor y) p.right.limit) :=
  h _ _ _ _ (p.linked_cursor y hlength) linked_limit

theorem Observers.atLevel {f : κ → κ → Run σ Unit} {f' : ρ → ρ → Run τ Unit} (h : Observers p S H f f')
    (y : Nat) (c : κ) (c' : ρ) (hlength : y ≤ p.length) (hlevel : p.Level y c c') :
    Paired S H (fun _ _ => True) (f (p.left.cursor y) c) (f' (p.right.cursor y) c') :=
  h _ _ _ _ (p.linked_cursor y hlength) hlevel.linked

/-- A hook is called where the rule was started, with the limit. -/
theorem Alike.onFailure {hook : κ → κ → Run σ Unit} {hook' : ρ → ρ → Run τ Unit}
    (ha : Alike p S H x n a a')
    (hhook : ∀ y, y ≤ p.length → Paired S H (fun _ _ => True) (hook (p.left.cursor y) p.left.limit)
      (hook' (p.right.cursor y) p.right.limit)) :
    Alike p S H x n (a.onFailure hook) (a'.onFailure hook') := by
  intro y hy hlength
  refine (ha y hy hlength).bind fun m m' hm => paired_branch hm (fun _ => ?_) ?_
  · exact paired_pure (hm.restart hlength)
  · exact (hhook y hlength).bind fun _ _ _ => paired_pure (hm.restart hlength)

/-- An action is called where the rule was started, with the place where it has stopped. -/
theorem Alike.onSuccess {act : κ → κ → Run σ Unit} {act' : ρ → ρ → Run τ Unit}
    (ha : Alike p S H x n a a')
    (hact : ∀ y c c', y ≤ p.length → p.Level y c c' →
      Paired S H (fun _ _ => True) (act (p.left.cursor y) c) (act' (p.right.cursor y) c')) :
    Alike p S H x n (a.onSuccess act) (a'.onSuccess act') := by
  intro y hy hlength
  refine (ha y hy hlength).bind fun m m' hm => paired_branch hm (fun hmatched => ?_) ?_
  · have hlevel := (hm.level hmatched).mono (Nat.le_add_right y n)
    exact (hact y _ _ hlength hlevel).bind fun _ _ _ => paired_pure (hm.restart hlength)
  · exact paired_pure (hm.restart hlength)

/-- An observer that passes the outcome on sees outcomes that agree. -/
theorem Alike.observed {enter : κ → κ → Run σ Unit} {enter' : ρ → ρ → Run τ Unit}
    {leave : κ → Match κ → Run σ Unit} {leave' : ρ → Match ρ → Run τ Unit}
    (ha : Alike p S H x n a a')
    (henter : ∀ y, y ≤ p.length → Paired S H (fun _ _ => True) (enter (p.left.cursor y) p.left.limit)
      (enter' (p.right.cursor y) p.right.limit))
    (hleave : ∀ y m m', y ≤ p.length → Match.Alike p y m m' →
      Paired S H (fun _ _ => True) (leave (p.left.cursor y) m) (leave' (p.right.cursor y) m')) :
    Alike p S H x n (a.observed enter leave) (a'.observed enter' leave') := by
  intro y hy hlength
  refine (henter y hlength).bind fun _ _ _ => (ha y hy hlength).bind fun m m' hm => ?_
  exact (hleave y m m' hlength (hm.mono (Nat.le_add_right y n))).bind fun _ _ _ => paired_pure hm

end Recognizer

/-! ## Stores -/

/-- Two events of one kind with the same labels, on linked cursors. -/
inductive Event.Alike {β : Type} (L : κ → ρ → Prop) : Event κ β → Event ρ β → Prop where
  | action {c d : κ} {c' d' : ρ} (label : β) : L c c' → L d d' →
      Alike L (.action label c d) (.action label c' d')
  | failure {c d : κ} {c' d' : ρ} (label : β) : L c c' → L d d' →
      Alike L (.failure label c d) (.failure label c' d')
  | probe (flag : String) (value : Bool) : Alike L (.probe flag value) (.probe flag value)
  | call {c d : κ} {c' d' : ρ} (label : β) : L c c' → L d d' →
      Alike L (.call label c d) (.call label c' d')
  | entered {c : κ} {c' : ρ} (name : String) : L c c' → Alike L (.entered name c) (.entered name c')
  | matched {c d : κ} {c' d' : ρ} (name : String) : L c c' → L d d' →
      Alike L (.matched name c d) (.matched name c' d')
  | failed {c : κ} {c' : ρ} (name : String) : L c c' → Alike L (.failed name c) (.failed name c')
  | warning (cause : Warning) : Alike L (.warning cause) (.warning cause)

/-- Two stores with the same flags and the same variables. Since the stores `old` and `old'` they have
gathered events that correspond to each other. -/
structure Store.Alike {β : Type} (L : κ → ρ → Prop) (old : Store κ β) (old' : Store ρ β)
    (s : Store κ β) (t : Store ρ β) : Prop where
  raised_eq : s.raised = t.raised
  memory_eq : s.memory = t.memory
  trail : ∃ new new', s.trail = new ++ old.trail ∧ t.trail = new' ++ old'.trail ∧
    List.Forall₂ (Event.Alike L) new new'

namespace Store

variable {β : Type} {L : κ → ρ → Prop} {old s : Store κ β} {old' t : Store ρ β}

theorem alike_refl (hraised : old.raised = old'.raised) (hmemory : old.memory = old'.memory) :
    Alike L old old' old old' :=
  ⟨hraised, hmemory, [], [], rfl, rfl, .nil⟩

theorem Alike.record (h : Alike L old old' s t) {e : Event κ β} {e' : Event ρ β}
    (he : Event.Alike L e e') : Alike L old old' (s.record e) (t.record e') := by
  obtain ⟨new, new', hs, ht, hnew⟩ := h.trail
  refine ⟨h.raised_eq, h.memory_eq, e :: new, e' :: new', ?_, ?_, .cons he hnew⟩
  · rw [Store.record, hs, List.cons_append]
  · rw [Store.record, ht, List.cons_append]

theorem mirrors_alike : Mirrors (Alike L old old') where
  raised_eq h := h.raised_eq
  memory_eq h := h.memory_eq
  setFlag _ _ h := ⟨by simp only [Store.setFlag, h.raised_eq], h.memory_eq, h.trail⟩
  setVariable _ _ h := ⟨h.raised_eq, by simp only [Store.setVariable, h.memory_eq], h.trail⟩
  probe flag value h := h.record (.probe flag value)
  warning cause h := h.record (.warning cause)

end Store

/-! ## What rules do to stores -/

namespace Meaning

variable {β : Type} {p : Twin κ ρ} {old : Store κ β} {old' : Store ρ β} {H : Halt → Prop} {x n : Nat}

open Match Run Recognizer

/-- Two rules that run alike and keep stores alike. -/
abbrev Alike (p : Twin κ ρ) (old : Store κ β) (old' : Store ρ β) (H : Halt → Prop) (x n : Nat)
    (a : Meaning κ β) (a' : Meaning ρ β) : Prop :=
  Recognizer.Alike p (Store.Alike p.Linked old old') H x n a a'

theorem paired_emit {e : Event κ β} {e' : Event ρ β} (he : Event.Alike p.Linked e e') :
    Paired (Store.Alike p.Linked old old') H (fun _ _ => True) (emit e) (emit e') :=
  paired_modify fun _ _ h => h.record he

theorem observers_hook (label : β) :
    Observers p (Store.Alike p.Linked old old') H (hook label) (hook label) :=
  fun _ _ _ _ hc hd => paired_emit (.failure label hc hd)

theorem observers_perform (effect : Effect β) :
    Observers p (Store.Alike p.Linked old old') H (perform effect) (perform effect) := by
  intro c d c' d' hc hd
  cases effect with
  | record label => exact paired_emit (.action label hc hd)
  | setFlag flag value => exact paired_setFlag Store.mirrors_alike flag value c d c' d'

theorem observers_call (label : β) :
    Observers p (Store.Alike p.Linked old old') H (fun i j => emit (.call label i j))
      fun i j => emit (.call label i j) :=
  fun _ _ _ _ hc hd => paired_emit (.call label hc hd)

theorem alike_traced {a : Meaning κ β} {a' : Meaning ρ β} (name : String)
    (ha : Alike p old old' H x n a a') :
    Alike p old old' H x n (traced a name) (traced a' name) := by
  have hentered : ∀ y, y ≤ p.length → Paired (Store.Alike p.Linked old old') H (fun _ _ => True)
      (emit (.entered name (p.left.cursor y))) (emit (.entered name (p.right.cursor y))) :=
    fun y hlength => paired_emit (.entered name (p.linked_cursor y hlength))
  refine ha.observed hentered ?_
  intro y m m' hlength hm
  rw [← hm.matched_eq]
  split
  · exact paired_emit (.matched name hm.start hm.position)
  · exact paired_emit (.failed name (p.linked_cursor y hlength))

/-! ### Warnings, probes and reads -/

section Mirrors

variable {β' : Type} {S : Store κ β → Store ρ β' → Prop}

theorem alike_warn (hS : Store.Mirrors S) (cause : Warning) :
    Recognizer.Alike p S H x n (warn cause) (warn cause) :=
  fun _ _ hlength => paired_warn hS cause (alike_failure hlength)

theorem alike_probe (hS : Store.Mirrors S) (flag : String) :
    Recognizer.Alike p S H x 0 (probe flag) (probe flag) :=
  fun y _ hlength => paired_probe hS flag fun b => alike_stay hlength b fun _ => Nat.le_refl y

variable [Element α]

theorem alike_readWord (hS : Store.Mirrors S) (name : String) :
    Recognizer.Alike p S H x 0 (readWord name) (readWord name) :=
  fun _ _ hlength => paired_readWord hS name (alike_failure hlength)
    fun v => Both.paired (Terminal.both_readWords v.words hlength)

theorem alike_readArray (hS : Store.Mirrors S) (name : String) :
    Recognizer.Alike p S H x 0 (readArray name) (readArray name) :=
  fun _ _ hlength => paired_readArray hS name (alike_failure hlength)
    fun v => Both.paired (Terminal.both_readWords v.words hlength)

theorem alike_readSequence (hS : Store.Mirrors S) (name : String) (min max : Nat) :
    Recognizer.Alike p S H x min (readSequence name min max) (readSequence name min max) :=
  fun _ _ hlength => paired_readSequence hS name min max (alike_failure hlength)
    fun t => Both.paired (Terminal.both_readMany t min max hlength)

end Mirrors

end Meaning

end Pegwork
