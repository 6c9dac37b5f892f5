import Pegwork.Proofs.Expansion

/-!
# Searches

A search steps over elements until its rule matches. For a rule that answers as a function of its start it
finds the leftmost place of the window where the rule matches, the end included.

* `Window.StopsAt` says where that is: at the first match, or at the end if there is none.
* `Recognizer.Tried` follows the state through a number of tries of one recognizer. A search does these
  tries and nothing else, whatever the rule does to the state.
* The repetition of steps over places where the rule fails stops at the same place (`plainLoop_skip`).

`Rule.find_leftmost` puts them together.
-/

namespace Pegwork

variable {κ α : Type}

/-! ## Where a search stops -/

namespace Window

variable [Cursor κ α] [Track κ α]

/-- The cursor stands in the window. -/
def Holds (w : Window α) (c : κ) : Prop := ∃ x, x ≤ w.length ∧ c = w.cursor x

/-- The first place behind `x` elements or more where the function matches is behind `n` elements, or it
matches nowhere and `n` is the end. -/
structure StopsAt (w : Window α) (f : κ → Match κ) (x n : Nat) : Prop where
  le : x ≤ n
  inside : n ≤ w.length
  before : ∀ k, x ≤ k → k < n → (f (w.cursor k)).matched = false
  last : (f (w.cursor n)).matched = false → n = w.length

theorem exists_stopsAt (w : Window α) (f : κ → Match κ) {x : Nat} (hx : x ≤ w.length) :
    ∃ n, w.StopsAt f x n := by
  induction hx using Nat.decreasingInduction with
  | self => exact ⟨w.length, Nat.le_refl _, Nat.le_refl _, by omega, fun _ => rfl⟩
  | of_succ x hx ih =>
    cases hmatched : (f (w.cursor x)).matched with
    | true => exact ⟨x, Nat.le_refl x, hx.le, by omega, fun hfailed => by simp [hmatched] at hfailed⟩
    | false =>
      obtain ⟨n, hn⟩ := ih
      refine ⟨n, Nat.le_of_succ_le hn.le, hn.inside, fun k hk hkn => ?_, hn.last⟩
      rcases Nat.lt_or_eq_of_le hk with hlt | rfl
      · exact hn.before k hlt hkn
      · exact hmatched

/-- The cursors behind `x` elements, `x + 1` elements and so on, up to `n`. -/
def cursors (w : Window α) (x n : Nat) : List κ := (List.range' x (n + 1 - x)).map w.cursor

theorem cursors_self (w : Window α) (x : Nat) : (w.cursors x x : List κ) = [w.cursor x] := by
  simp [cursors]

theorem cursors_succ {w : Window α} {x n : Nat} (h : x + 1 ≤ n) :
    (w.cursors x n : List κ) = w.cursor x :: w.cursors (x + 1) n := by
  have hlength : n + 1 - x = n + 1 - (x + 1) + 1 := by omega
  rw [cursors, hlength, List.range'_succ, List.map_cons, cursors]

theorem mem_cursors {w : Window α} {x n : Nat} {c : κ} (h : c ∈ (w.cursors x n : List κ)) :
    ∃ k, k ≤ n ∧ c = w.cursor k := by
  obtain ⟨k, hk, rfl⟩ := List.mem_map.1 h
  obtain ⟨hxk, hkn⟩ := List.mem_range'_1.1 hk
  exact ⟨k, by omega, rfl⟩

theorem Holds.same_iff {w : Window α} {c d : κ} (hc : w.Holds c) (hd : w.Holds d) :
    Walk.same c d = true ↔ c = d := by
  obtain ⟨x, hx, rfl⟩ := hc
  obtain ⟨y, hy, rfl⟩ := hd
  rw [w.same_cursor hx hy, decide_eq_true_iff]
  exact ⟨fun h => h ▸ rfl, w.eq_of_cursor_eq hx hy⟩

namespace StopsAt

variable {w : Window α} {f : κ → Match κ} {x n : Nat}

/-- The search stops where it is if the function matches there. -/
theorem eq_of_matched (h : w.StopsAt f x n) (hmatched : (f (w.cursor x)).matched = true) : n = x := by
  rcases Nat.lt_or_eq_of_le h.le with hlt | rfl
  · rw [h.before x (Nat.le_refl x) hlt] at hmatched
    cases hmatched
  · rfl

/-- It goes on if the function fails in front of the end. -/
theorem succ (h : w.StopsAt f x n) (hfailed : (f (w.cursor x)).matched = false) (hx : x < w.length) :
    w.StopsAt f (x + 1) n := by
  refine ⟨?_, h.inside, fun k hk => h.before k (by omega), h.last⟩
  rcases Nat.lt_or_eq_of_le h.le with hlt | rfl
  · exact hlt
  · have hend := h.last hfailed
    omega

/-- There is only one place where a search can stop. -/
theorem eq_of_first {k : Nat} (h : w.StopsAt f 0 n) (hmatched : (f (w.cursor k)).matched = true)
    (hk : k ≤ w.length) (hbefore : ∀ l, l < k → (f (w.cursor l)).matched = false) : n = k := by
  rcases Nat.lt_trichotomy n k with hlt | heq | hgt
  · have hend := h.last (hbefore n hlt)
    omega
  · exact heq
  · rw [h.before k (Nat.zero_le k) hgt] at hmatched
    cases hmatched

theorem matched_iff (h : w.StopsAt f x n) :
    (f (w.cursor n)).matched = true ↔ ∃ k, x ≤ k ∧ k ≤ w.length ∧ (f (w.cursor k)).matched = true := by
  constructor
  · exact fun hmatched => ⟨n, h.le, h.inside, hmatched⟩
  · rintro ⟨k, hxk, hk, hmatched⟩
    rcases Nat.lt_or_ge k n with hlt | hge
    · rw [h.before k hxk hlt] at hmatched
      cases hmatched
    · by_contra hfailed
      -- Nothing matched up to the end, which is the only place left for `k`.
      have hend := h.last (Bool.eq_false_iff.2 hfailed)
      obtain rfl : k = n := by omega
      exact hfailed hmatched

end StopsAt

end Window

namespace Recognizer

variable {σ : Type}

open Run

/-! ## Tries -/

/-- From the state `s` to the state `t`, the recognizer is tried at the given cursors one after the other,
and nothing else happens. -/
inductive Tried (a : Recognizer κ σ) (j : κ) : List κ → σ → σ → Prop where
  /-- No try. -/
  | nil (s : σ) : Tried a j [] s s
  /-- One try, and then the others. -/
  | cons {c : κ} {cs : List κ} {m : Match κ} {s t u : σ} : (a c j).Ends s m t → Tried a j cs t u →
      Tried a j (c :: cs) s u

section Window

variable [Cursor κ α] [Track κ α] [Steps κ α] {w : Window α} {a : Recognizer κ σ} {f : κ → Match κ}
  {x n left : Nat}

/-- The search stops where it should, and has tried its rule at all places up to there. -/
theorem findFrom_ends (hfits : Steps.Fits κ w.data) (ha : a.AnswersAt w.Holds w.limit f)
    (hstop : w.StopsAt f x n) (hleft : n < x + left) (start : κ) (s : σ) :
    ∃ t, (findFrom a start w.limit left (w.cursor x)).Ends s ((f (w.cursor n)).restart start) t ∧
      Tried a w.limit (w.cursors x n) s t := by
  induction left generalizing x s with
  | zero =>
    have hle := hstop.le
    omega
  | succ left ih =>
    have hx : x ≤ w.length := Nat.le_trans hstop.le hstop.inside
    obtain ⟨t, htry⟩ := ha.gives (w.cursor x) ⟨x, hx, rfl⟩ s
    cases hmatched : (f (w.cursor x)).matched with
    | true =>
      obtain rfl := hstop.eq_of_matched hmatched
      refine ⟨t, ends_bind.2 ⟨_, t, htry, ?_⟩, ?_⟩
      · simp only [hmatched, if_true, Match.restart]
        exact ends_pure.2 ⟨rfl, rfl⟩
      · rw [Window.cursors_self]
        exact .cons htry (.nil t)
    | false =>
      rcases Nat.lt_or_eq_of_le hx with hlt | rfl
      -- One element on, the search is the same with one place less to try.
      · have hnext := hstop.succ hmatched hlt
        obtain ⟨u, hrest, htried⟩ := ih hnext (by omega) t
        refine ⟨u, ends_bind.2 ⟨_, t, htry, ?_⟩, ?_⟩
        · simp only [hmatched, Bool.false_eq_true, if_false, Window.limit,
            w.same_cursor hx (Nat.le_refl _), hlt.ne, decide_false]
          exact ends_bind.2 ⟨_, t, ends_lift.2 ⟨w.advance_cursor hfits hlt, rfl⟩, hrest⟩
        · rw [Window.cursors_succ hnext.le]
          exact .cons htry htried
      · obtain rfl : n = w.length := Nat.le_antisymm hstop.inside hstop.le
        refine ⟨t, ends_bind.2 ⟨_, t, htry, ?_⟩, ?_⟩
        · simp only [hmatched, Bool.false_eq_true, if_false, Window.limit,
            w.same_cursor hx (Nat.le_refl _), decide_true, if_true, Match.restart]
          exact ends_pure.2 ⟨rfl, rfl⟩
        · rw [Window.cursors_self]
          exact .cons htry (.nil t)

end Window

/-! ## Steps over places where a rule fails -/

section Steps

variable [Cursor κ α] [Track κ α] {w : Window α} {f : κ → Match κ} {x n left : Nat}

/-- The answers of a step over one element where `f` does not match. -/
def skipOf (w : Window α) (f : κ → Match κ) (i : κ) : Match κ :=
  seqOf (negationOf f) (fun c => (Terminal.any c w.limit).toOption.getD (.failure c)) i

theorem skipOf_of_matched {c : κ} (hmatched : (f c).matched = true) : (skipOf w f c).matched = false := by
  simp [skipOf, seqOf, negationOf, hmatched]

variable [Steps κ α]

theorem skipOf_cursor (hfits : Steps.Fits κ w.data) (hx : x < w.length)
    (hfailed : (f (w.cursor x)).matched = false) :
    (skipOf w f (w.cursor x)).matched = true ∧ (skipOf w f (w.cursor x)).position = w.cursor (x + 1) := by
  obtain ⟨a, ha⟩ : ∃ a, w.elements[x]? = some a := ⟨_, List.getElem?_eq_getElem (by simpa using hx)⟩
  simp [skipOf, seqOf, negationOf, hfailed, Terminal.any, Terminal.satisfy, w.next_cursor hfits ha,
    Except.toOption, bind, Except.bind, pure, Except.pure, Match.restart]

theorem skipOf_limit : (skipOf w f w.limit).matched = false := by
  unfold skipOf seqOf
  split
  · simp [negationOf, Terminal.any, Terminal.satisfy, w.next_limit, Except.toOption, bind, Except.bind,
      pure, Except.pure]
  · rfl

/-- Repeating such steps comes to the place where the search stops. -/
theorem plainLoop_skip (hfits : Steps.Fits κ w.data) (hstop : w.StopsAt f x n) (hleft : n ≤ x + left)
    (l : κ) (count : Nat) :
    (plainLoop (fun q _ => skipOf w f q) (fun q _ => emptyOf q) l left count (w.cursor x)).1 =
      w.cursor n := by
  induction left generalizing x count with
  | zero =>
    obtain rfl : n = x := Nat.le_antisymm hleft hstop.le
    rfl
  | succ left ih =>
    unfold plainLoop
    simp only [passOf_emptyOf]
    cases hmatched : (f (w.cursor x)).matched with
    | true =>
      simp only [skipOf_of_matched hmatched, hstop.eq_of_matched hmatched]
      rfl
    | false =>
      rcases Nat.lt_or_eq_of_le (Nat.le_trans hstop.le hstop.inside) with hlt | rfl
      -- A step where the function fails is a pass of the repetition, and at the end there is no step.
      · obtain ⟨hskip, hposition⟩ := skipOf_cursor hfits hlt hmatched
        simp only [hskip, if_true, hposition]
        exact ih (hstop.succ hmatched hlt) (by omega) (count + 1)
      · have hlimit : (skipOf w f (w.cursor w.length)).matched = false := skipOf_limit
        simp only [hlimit, Nat.le_antisymm hstop.inside hstop.le]
        rfl

/-- The repetition of such steps and the function behind it come to what the function answers where the
search stops. -/
theorem seqOf_skip (hfits : Steps.Fits κ w.data) (hstop : w.StopsAt f 0 n) :
    seqOf (repetitionOf (skipOf w f) emptyOf (.clamp 0 Size.top)) f (w.cursor 0) =
      (f (w.cursor n)).restart (w.cursor 0) := by
  have hlength := Steps.length_lt hfits
  have hinside := w.inside
  have hn := hstop.inside
  have hbound : Size.bound = Size.top + 1 := rfl
  have hleft : n ≤ 0 + Size.top := by omega
  have hloop := plainLoop_skip hfits hstop hleft (w.cursor 0) 0
  have hskip : repetitionOf (skipOf w f) emptyOf (.clamp 0 Size.top) (w.cursor 0) =
      .success (w.cursor 0) (w.cursor n) := by
    have hleast : (Bounds.clamp 0 Size.top).least = 0 := rfl
    rw [repetitionOf_eq, hleast, if_pos (Nat.zero_le _)]
    exact congrArg (Match.success _) hloop
  rw [seqOf, hskip]
  rfl

end Steps

end Recognizer

/-! ## Calls -/

namespace Meaning

variable {β : Type}

open Run Recognizer

/-- A rule whose calls are recorded. -/
abbrev called (a : Meaning κ β) (label : β) : Meaning κ β :=
  a.observed (fun i j => emit (.call label i j)) fun _ _ => pure ()

theorem ends_called {a : Meaning κ β} {label : β} {i j : κ} {m : Match κ} {s t : Store κ β} :
    (called a label i j).Ends s m t ↔ (a i j).Ends (s.record (.call label i j)) m t := by
  rw [ends_observed]
  constructor
  · rintro ⟨u, v, hemit, ha, hleave⟩
    obtain rfl := ends_modify.1 hemit
    obtain ⟨-, rfl⟩ := ends_pure.1 hleave
    exact ha
  · exact fun ha => ⟨_, t, ends_modify.2 rfl, ha, ends_pure.2 ⟨rfl, rfl⟩⟩

theorem answersAt_called {a : Meaning κ β} {C : κ → Prop} {j : κ}
    {f : κ → Match κ} (ha : a.AnswersAt C j f) (label : β) : (called a label).AnswersAt C j f := by
  refine ⟨fun i hi s => ?_, ha.closed⟩
  obtain ⟨t, hend⟩ := ha.gives i hi (s.record (.call label i j))
  exact ⟨t, ends_called.2 hend⟩

/-- Tries of a rule that leaves the state alone leave their calls, one for each cursor. -/
theorem eq_of_tried_called {a : Meaning κ β} {label : β} {j : κ} {f : κ → Match κ} {cs : List κ}
    {s t : Store κ β} (ha : ∀ c ∈ cs, ∀ s, (a c j).Ends s (f c) s) (h : Tried (called a label) j cs s t) :
    t = cs.foldl (fun s c => s.record (.call label c j)) s := by
  induction h with
  | nil s => rfl
  | @cons c cs m s t u hend _ ih =>
    obtain ⟨-, rfl⟩ := (ends_called.1 hend).unique (ha c List.mem_cons_self _)
    exact ih fun c hc => ha c (List.mem_cons_of_mem _ hc)

end Meaning

/-! ## Rules -/

namespace Rule

variable {β γ : Type} [Cursor κ α] [Track κ α] [Steps κ α] [Element α] [DecidableEq α]

open Recognizer Run

/-- **A search finds the leftmost match.** For a rule that answers, in a window, as a function of its start
and with positions inside, the search ends from every state. It matches if the rule matches anywhere, the end
of the window included, and then goes on where the first of these matches does. It tries the rule at all
places up to there, in order, and does nothing else; the calls of a rule that leaves the state alone can be
counted in the trail. The outcome is that of repeated steps over places where the rule fails, with the rule
behind them. -/
theorem find_leftmost (foreign : γ → κ → κ → Match κ) (cells : Cells α β γ) (depth : Nat) (w : Window α)
    (hfits : Steps.Fits κ w.data) {rule : Rule α β γ} {f : κ → Match κ}
    (hrule : (rule.parse foreign cells depth : Meaning κ β).AnswersAt w.Holds w.limit f) (label : β) :
    let parse (r : Rule α β γ) : Meaning κ β := r.parse foreign cells depth
    ∃ n m, w.StopsAt f 0 n ∧
      (m.matched = true ↔ ∃ k, k ≤ w.length ∧ (f (w.cursor k)).matched = true) ∧
      (∀ k, k ≤ w.length → (f (w.cursor k)).matched = true →
        (∀ l, l < k → (f (w.cursor l)).matched = false) →
        n = k ∧ m = .success (w.cursor 0) (f (w.cursor k)).position) ∧
      (m.matched = false → n = w.length ∧ m = .failure (w.cursor 0)) ∧
      (∀ s, ∃ t, (parse (.find rule) (w.cursor 0) w.limit).Ends s m t ∧
        Tried (parse rule) w.limit (w.cursors 0 n) s t) ∧
      ((∀ x, x ≤ w.length → ∀ s, (parse rule (w.cursor x) w.limit).Ends s (f (w.cursor x)) s) →
        ∀ s, (parse (.find (.call rule label)) (w.cursor 0) w.limit).Ends s m
          ((w.cursors 0 n).foldl (fun t c => t.record (.call label c w.limit)) s)) ∧
      (parse (.seq (.star (.seq (.negation rule) .any)) rule) (w.cursor 0) w.limit).Gives m := by
  intro parse
  obtain ⟨n, hstop⟩ := w.exists_stopsAt f (Nat.zero_le _)
  have hlength := Steps.length_lt hfits
  have hinside := w.inside
  have hn := hstop.inside
  have hfind : ∀ r, parse (.find r) = (parse r).find := fun r => by
    simp only [parse, parse_eq]
    rfl
  refine ⟨n, (f (w.cursor n)).restart (w.cursor 0), hstop, ?_, ?_, ?_, ?_, ?_, ?_⟩
  · simpa using hstop.matched_iff
  · intro k hk hmatched hbefore
    obtain rfl := hstop.eq_of_first hmatched hk hbefore
    exact ⟨rfl, by rw [Match.restart, if_pos hmatched]⟩
  · intro hfailed
    rw [Match.restart_matched] at hfailed
    exact ⟨hstop.last hfailed, by rw [Match.restart, if_neg (by simp [hfailed])]⟩
  · intro s
    rw [hfind]
    exact findFrom_ends hfits hrule hstop (by omega) _ s
  · intro hpure s
    have hcall : parse (.call rule label) = Meaning.called (parse rule) label := by
      simp only [parse, parse_eq]
      rfl
    have hleft : n < 0 + Size.bound := by omega
    obtain ⟨t, hend, htried⟩ :=
      findFrom_ends hfits (Meaning.answersAt_called hrule label) hstop hleft (w.cursor 0) s
    rw [hfind, hcall, ← Meaning.eq_of_tried_called (f := f) (fun c hc => ?_) htried]
    · exact hend
    · obtain ⟨k, hk, rfl⟩ := Window.mem_cursors hc
      exact hpure k (Nat.le_trans hk hn)
  -- Without separators, and without an upper limit that the window could reach.
  · have hany : (ofTerminal Terminal.any : Meaning κ β).AnswersAt w.Holds w.limit _ :=
      answersAt_of_alike hfits (Terminal.alike_satisfy _)
    have hskip := (hrule.negation.seq hany).repetition (fun c d hc hd => hc.same_iff hd) .empty
      (.clamp 0 Size.top)
    have hgives := (hskip.seq hrule).gives (w.cursor 0) ⟨0, Nat.zero_le _, rfl⟩
    have hvalue := seqOf_skip (n := n) hfits hstop
    rw [← hvalue]
    simp only [parse, parse_eq] at hgives ⊢
    exact hgives

/-- A letter behind a newline and a letter of two bytes: the search takes three tries, and its match ends at
the fourth byte. -/
theorem find_leftmost_third :
    let w : Window Char := .whole 0 ['é', '\n', 'b', 'b']
    let parse (rule : Rule Char String Empty) : Meaning TextCursor String := rule.parse nofun [] 0
    ∃ m t, (parse (.find (.call (.element 'b') "try")) (w.cursor 0) w.limit).Ends {} m t ∧
      m.matched = true ∧ m.position.offset = 4 ∧
      t.trail = [.call "try" (w.cursor 2) w.limit, .call "try" (w.cursor 1) w.limit,
        .call "try" (w.cursor 0) w.limit] := by
  intro w parse
  let f (i : TextCursor) : Match TextCursor :=
    (Terminal.satisfy (fun c => decide (c = 'b')) i w.limit).toOption.getD (.failure i)
  have hfits : Steps.Fits TextCursor w.data := by
    show Text.bytes _ < 2 ^ 63
    decide
  have hrule : (parse (.element 'b')).AnswersAt w.Holds w.limit f :=
    answersAt_of_alike hfits (Terminal.alike_satisfy fun c => c = 'b')
  obtain ⟨n, m, -, -, hfirst, -, -, hcalls, -⟩ :=
    find_leftmost (β := String) (γ := Empty) nofun [] 0 w hfits hrule "try"
  have hbefore : ∀ l, l < 2 → (f (w.cursor l)).matched = false := by
    intro l hl
    interval_cases l <;> rfl
  obtain ⟨rfl, rfl⟩ := hfirst 2 (by decide) rfl hbefore
  refine ⟨_, _, hcalls (fun x hx s => ?_) {}, rfl, rfl, rfl⟩
  have hx : x ≤ 4 := hx
  interval_cases x <;> rfl

end Rule

end Pegwork
