import Pegwork.Proofs.Cursor.Place

/-!
# Repetition

The loop of a repetition stops as soon as a pass after the first one matches without moving, and counts
the passes that it has left out. This module compares it with the plain loop, which goes on for as long
as it may.

* `Recognizer.Answers` says that the answers of a recognizer are a function of its cursors. It may
  change the state.
* `plainCounted` is the plain loop over two such functions.
* `counted_eq_plain` is the comparison: the same outcome, the same count under a finite upper limit,
  and never more than two passes beyond the number of elements in the range.

The reason is that a pass after the first depends on its place alone. One that matches without moving
is therefore followed by nothing but its own repetitions (`occurrence_of_stalled`).
-/

namespace Pegwork

namespace Recognizer

variable {κ α σ : Type}

/-! ## Answers as functions of the cursors -/

/-- On the cursors in `C` the recognizer answers with `f`, whatever the state is, and stays in `C`. -/
structure Answers (a : Recognizer κ σ) (C : κ → Prop) (f : κ → κ → Match κ) : Prop where
  ends : ∀ i j s, C i → C j → ∃ t, (a i j).Ends s (f i j) t
  closed : ∀ i j, C i → C j → (f i j).matched = true → C (f i j).position

/-- The rule of a function that adds one to a tally each time it is tried. -/
def tallied (f : κ → κ → Match κ) : Recognizer κ Nat := fun i j => do
  modify (· + 1)
  return f i j

theorem tallied_ends (f : κ → κ → Match κ) (i j : κ) (n : Nat) :
    (tallied f i j).Ends n (f i j) (n + 1) :=
  Run.ends_modify_pure (· + 1) (f i j) n

theorem ofFunction_ends (f : κ → κ → Match κ) (i j : κ) (s : σ) :
    (ofFunction f i j : Run σ (Match κ)).Ends s (f i j) s :=
  Run.ends_pure.2 ⟨rfl, rfl⟩

theorem tallied_answers {C : κ → Prop} {f : κ → κ → Match κ}
    (hclosed : ∀ i j, C i → C j → (f i j).matched = true → C (f i j).position) :
    (tallied f).Answers C f :=
  ⟨fun i j n _ _ => ⟨n + 1, tallied_ends f i j n⟩, hclosed⟩

theorem ofFunction_answers {C : κ → Prop} {f : κ → κ → Match κ}
    (hclosed : ∀ i j, C i → C j → (f i j).matched = true → C (f i j).position) :
    (ofFunction f : Recognizer κ σ).Answers C f :=
  ⟨fun i j s _ _ => ⟨s, ofFunction_ends f i j s⟩, hclosed⟩

/-! ## The plain loop -/

section Plain

variable (item separator : κ → κ → Match κ)

/-- One pass: the item, after a separator unless it is the first. -/
def passOf (limit : κ) (count : Nat) (position : κ) : Match κ :=
  if count = 0 then item position limit
  else if (separator position limit).matched then item (separator position limit).position limit
  else .failure position

/-- The plain loop: at most `left` further passes, `count` done so far. -/
def plainLoop (limit : κ) : (left count : Nat) → κ → κ × Nat
  | 0, count, position => (position, count)
  | left + 1, count, position =>
    let next := passOf item separator limit count position
    if next.matched then plainLoop limit left (count + 1) next.position else (position, count)

/-- Repetition by the plain loop, with the number of occurrences; none on failure. -/
def plainCounted (bounds : Bounds) (i j : κ) : Match κ × Nat :=
  let (position, count) := plainLoop item separator j bounds.most 0 i
  if bounds.least ≤ count then (.success i position, count) else (.failure i, 0)

/-- Where the first `n` occurrences from `i` on end, if there are as many. -/
def occurrence (limit i : κ) : (n : Nat) → Option κ
  | 0 => some i
  | n + 1 => do
    let position ← occurrence limit i n
    let next := passOf item separator limit n position
    if next.matched then some next.position else none

/-- The last of at most `most` occurrences is the `n`th, and it ends at `position`. -/
def Last (limit i : κ) (most n : Nat) (position : κ) : Prop :=
  occurrence item separator limit i n = some position ∧ n ≤ most ∧
    (n < most → occurrence item separator limit i (n + 1) = none)

/-- A pass after the first, the `n`th of all, matches without moving. -/
def Stalled (limit i : κ) (n : Nat) : Prop :=
  2 ≤ n ∧ ∃ position, occurrence item separator limit i (n - 1) = some position ∧
    occurrence item separator limit i n = some position

/-- The `n`th pass is the first that stalls. -/
def FirstStalled (limit i : κ) (n : Nat) : Prop :=
  Stalled item separator limit i n ∧ ∀ m, m < n → ¬ Stalled item separator limit i m

/-- What the guarded loop finds: the place of the first stalled pass, with a saturated count, or else
the last of at most `most` occurrences. -/
def Found (limit i : κ) (bounds : Bounds) (position : κ) (n : Nat) : Prop :=
  (∃ k, k ≤ bounds.most ∧ FirstStalled item separator limit i k ∧
    occurrence item separator limit i k = some position ∧ n = bounds.saturate k) ∨
  ((∀ k, k ≤ bounds.most → ¬ Stalled item separator limit i k) ∧
    Last item separator limit i bounds.most n position)

end Plain

variable {item separator : κ → κ → Match κ} {limit i : κ}

theorem occurrence_succ {n : Nat} {p q : κ}
    (hp : occurrence item separator limit i n = some p) :
    occurrence item separator limit i (n + 1) = some q ↔
      (passOf item separator limit n p).matched = true ∧
        (passOf item separator limit n p).position = q := by
  rw [occurrence, hp]
  simp

theorem occurrence_succ_none {n : Nat} {p : κ}
    (hp : occurrence item separator limit i n = some p)
    (h : (passOf item separator limit n p).matched = false) :
    occurrence item separator limit i (n + 1) = none := by
  rw [occurrence, hp]
  simp [h]

/-- There are no more occurrences after the first that is missing. -/
theorem occurrence_none_of_le {m n : Nat} (hle : m ≤ n)
    (h : occurrence item separator limit i m = none) :
    occurrence item separator limit i n = none := by
  induction hle with
  | refl => exact h
  | step _ ih =>
    rw [occurrence, ih]
    rfl

/-- A stalled pass repeats itself for ever: after the first, a pass depends on its place alone. -/
theorem occurrence_of_stalled {n : Nat} {p : κ} (hn : 1 ≤ n)
    (hp : occurrence item separator limit i n = some p)
    (hp' : occurrence item separator limit i (n + 1) = some p) {m : Nat} (hle : n ≤ m) :
    occurrence item separator limit i m = some p := by
  induction hle with
  | refl => exact hp
  | @step m hle ih =>
    have hm : n ≤ m := hle
    -- The number of a pass matters only in that the first pass has no separator.
    have hpass : passOf item separator limit m p = passOf item separator limit n p := by
      have hn0 : n ≠ 0 := by omega
      have hm0 : m ≠ 0 := by omega
      simp only [passOf, hn0, hm0, if_false]
    rw [occurrence_succ ih, hpass]
    exact (occurrence_succ hp).1 hp'

/-- Behind `n` occurrences one stands at the start or at the end of an item. -/
theorem eq_or_item_end {n : Nat} {p : κ} (h : occurrence item separator limit i n = some p) :
    p = i ∨ ∃ q, (item q limit).matched = true ∧ (item q limit).position = p := by
  cases n with
  | zero =>
    cases h
    exact .inl rfl
  | succ n =>
    cases hq : occurrence item separator limit i n with
    | none =>
      rw [occurrence_none_of_le (Nat.le_succ n) hq] at h
      cases h
    | some q =>
      right
      -- The last pass ended with its item, whether a separator stood in front of it or not.
      obtain ⟨hmatched, hposition⟩ := (occurrence_succ hq).1 h
      unfold passOf at hmatched hposition
      split at hmatched
      · next hzero => exact ⟨q, hmatched, by simpa [hzero] using hposition⟩
      · next hzero =>
        split at hmatched
        · next hgap =>
          exact ⟨(separator q limit).position, hmatched, by simpa [hzero, hgap] using hposition⟩
        · cases hmatched

/-- What the plain loop finds: the last of at most `count + left` occurrences. -/
theorem plainLoop_last {left count : Nat} {p : κ}
    (hp : occurrence item separator limit i count = some p) :
    ∃ q n, plainLoop item separator limit left count p = (q, n) ∧
      Last item separator limit i (count + left) n q := by
  induction left generalizing count p with
  | zero => exact ⟨p, count, rfl, hp, Nat.le_refl _, by omega⟩
  | succ left ih =>
    unfold plainLoop
    by_cases hmatched : (passOf item separator limit count p).matched = true
    · have hnext := (occurrence_succ hp).2 ⟨hmatched, rfl⟩
      obtain ⟨q, n, hloop, hq, hle, hlast⟩ := ih hnext
      refine ⟨q, n, ?_, hq, by omega, fun hlt => hlast (by omega)⟩
      simp only [hmatched, if_true, hloop]
    -- The loop ends here because there is no next occurrence, not because of its limit.
    · refine ⟨p, count, ?_, hp, by omega, fun _ => ?_⟩
      · simp only [hmatched]
        rfl
      · exact occurrence_succ_none hp (Bool.eq_false_iff.2 hmatched)

/-! ## The guarded loop -/

section Guarded

variable {C : κ → Prop} {a b : Recognizer κ σ}

/-- A pass of the running loop answers as the pure pass does. -/
theorem pass_ends (ha : a.Answers C item) (hb : b.Answers C separator) (hlimit : C limit)
    (count : Nat) {position : κ} (hposition : C position) (s : σ) :
    ∃ t, (pass a b limit count position).Ends s (passOf item separator limit count position) t := by
  unfold pass passOf
  split
  · exact ha.ends position limit s hposition hlimit
  · obtain ⟨t, hgap⟩ := hb.ends position limit s hposition hlimit
    by_cases hmatched : (separator position limit).matched = true
    -- The item is tried behind the separator, which has stayed in `C`.
    · have hnext := hb.closed position limit hposition hlimit hmatched
      obtain ⟨u, hitem⟩ := ha.ends _ limit t hnext hlimit
      refine ⟨u, Run.ends_bind.2 ⟨_, t, hgap, ?_⟩⟩
      simpa only [hmatched, if_true] using hitem
    · refine ⟨t, Run.ends_bind.2 ⟨_, t, hgap, ?_⟩⟩
      simp only [hmatched]
      exact Run.ends_pure.2 ⟨rfl, rfl⟩

theorem passOf_closed (ha : a.Answers C item) (hb : b.Answers C separator) (hlimit : C limit)
    {count : Nat} {position : κ} (hposition : C position)
    (hmatched : (passOf item separator limit count position).matched = true) :
    C (passOf item separator limit count position).position := by
  unfold passOf at hmatched ⊢
  split
  · next hzero => exact ha.closed position limit hposition hlimit (by simpa [hzero] using hmatched)
  · next hzero =>
    split
    · next hgap =>
      have hnext := hb.closed position limit hposition hlimit hgap
      exact ha.closed _ limit hnext hlimit (by simpa [hzero, hgap] using hmatched)
    · exact hposition

/-- The loop ends and finds what it should, from any place that no stalled pass has led to. -/
theorem repeatFrom_ends [Walk κ α] (ha : a.Answers C item) (hb : b.Answers C separator)
    (hsame : ∀ c d, C c → C d → (Walk.same c d = true ↔ c = d)) (hlimit : C limit) (bounds : Bounds)
    {left count : Nat} {p : κ} (hp : occurrence item separator limit i count = some p) (hC : C p)
    (hleft : count + left = bounds.most)
    (hfresh : ∀ k, k ≤ count → ¬ Stalled item separator limit i k) (s : σ) :
    ∃ q n t, (repeatFrom a b bounds limit left count p).Ends s (q, n) t ∧
      Found item separator limit i bounds q n := by
  induction left generalizing count p s with
  | zero =>
    -- All passes that are allowed have been made, and none of them has stalled.
    have hcount : count = bounds.most := hleft
    refine ⟨p, count, s, Run.ends_pure.2 ⟨rfl, rfl⟩, .inr ⟨?_, hp, by omega, by omega⟩⟩
    exact fun k hk => hfresh k (by omega)
  | succ left ih =>
    obtain ⟨t, hpass⟩ := pass_ends ha hb hlimit count hC s
    unfold repeatFrom
    by_cases hmatched : (passOf item separator limit count p).matched = true
    · have hnextC := passOf_closed ha hb hlimit hC hmatched
      have hnext := (occurrence_succ hp).2 ⟨hmatched, rfl⟩
      by_cases hstop :
          (passOf item separator limit count p).position = p ∧ 0 < count
      · -- The guard fires: this pass is the first stalled one.
        obtain ⟨hstay, hpos⟩ := hstop
        rw [hstay] at hnext
        have hsame' : Walk.same (passOf item separator limit count p).position p = true :=
          (hsame _ _ hnextC hC).2 hstay
        have hfirst : FirstStalled item separator limit i (count + 1) :=
          ⟨⟨by omega, p, hp, hnext⟩, fun l hl => hfresh l (by omega)⟩
        refine ⟨p, bounds.saturate (count + 1), t, ?_, .inl ⟨count + 1, by omega, hfirst, hnext, rfl⟩⟩
        refine Run.ends_bind.2 ⟨_, t, hpass, ?_⟩
        simp only [hmatched, hsame', hpos, decide_true, Bool.and_self, if_true]
        exact Run.ends_pure.2 ⟨by rw [hstay], rfl⟩
      · have hguard : (Walk.same (passOf item separator limit count p).position p &&
            decide (0 < count)) = false := by
          rw [Bool.and_eq_false_iff]
          by_cases hpos : 0 < count
          · left
            exact Bool.eq_false_iff.2 fun h => hstop ⟨(hsame _ _ hnextC hC).1 h, hpos⟩
          · right
            simpa using hpos
        -- The next place is fresh too: a stall there would be this pass.
        have hfresh' : ∀ k, k ≤ count + 1 → ¬ Stalled item separator limit i k := by
          intro k hk hstalled
          rcases Nat.lt_or_eq_of_le hk with hlt | rfl
          · exact hfresh k (by omega) hstalled
          · obtain ⟨htwo, q, hq, hq'⟩ := hstalled
            rw [Nat.add_sub_cancel, hp] at hq
            cases hq
            obtain ⟨-, hstay⟩ := (occurrence_succ hp).1 hq'
            exact hstop ⟨hstay, by omega⟩
        obtain ⟨q, n, u, hloop, hresult⟩ := ih hnext hnextC (by omega) hfresh' t
        refine ⟨q, n, u, Run.ends_bind.2 ⟨_, t, hpass, ?_⟩, hresult⟩
        simpa only [hmatched, hguard, if_true, Bool.false_eq_true, if_false] using hloop
    -- The pass fails, so there is no further occurrence that could stall.
    · have hnone := occurrence_succ_none hp (Bool.eq_false_iff.2 hmatched)
      refine ⟨p, count, t, ?_, .inr ⟨?_, hp, by omega, fun _ => hnone⟩⟩
      · refine Run.ends_bind.2 ⟨_, t, hpass, ?_⟩
        simp only [hmatched]
        exact Run.ends_pure.2 ⟨rfl, rfl⟩
      · intro k hk hstalled
        by_cases hle : k ≤ count
        · exact hfresh k hle hstalled
        · obtain ⟨-, q, -, hq⟩ := hstalled
          rw [occurrence_none_of_le (by omega) hnone] at hq
          cases hq

end Guarded

/-! ## The comparison -/

theorem Last.unique {most m n : Nat} {p q : κ} (hm : Last item separator limit i most m p)
    (hn : Last item separator limit i most n q) : m = n ∧ p = q := by
  obtain ⟨hp, hmle, hmlast⟩ := hm
  obtain ⟨hq, hnle, hnlast⟩ := hn
  have hmn : m = n := by
    rcases Nat.lt_trichotomy m n with hlt | heq | hlt
    -- The smaller one is the last, so there is no occurrence with the larger number.
    · rw [occurrence_none_of_le hlt (hmlast (by omega))] at hq
      cases hq
    · exact heq
    · rw [occurrence_none_of_le hlt (hnlast (by omega))] at hp
      cases hp
  subst hmn
  rw [hp] at hq
  exact ⟨rfl, by simpa using hq⟩

/-- Behind a stalled pass the plain loop goes on to its upper limit without moving. -/
theorem last_of_stalled {most k : Nat} {q : κ} (hle : k ≤ most)
    (hstalled : Stalled item separator limit i k)
    (hq : occurrence item separator limit i k = some q) :
    Last item separator limit i most most q := by
  obtain ⟨htwo, p, hp, hp'⟩ := hstalled
  rw [hq] at hp'
  cases hp'
  -- The stalled pass and the one before it end at one place, and so do all later ones.
  have hk : k - 1 + 1 = k := by omega
  refine ⟨?_, Nat.le_refl _, by omega⟩
  exact occurrence_of_stalled (n := k - 1) (by omega) hp (by rw [hk]; exact hq) (by omega)

theorem least_le_saturate (bounds : Bounds) (k : Nat) : bounds.least ≤ bounds.saturate k := by
  unfold Bounds.saturate
  split
  · exact Nat.le_max_right k bounds.least
  · exact bounds.least_le_most

theorem saturate_le_most (bounds : Bounds) {k : Nat} (hk : k ≤ bounds.most) :
    bounds.saturate k ≤ bounds.most := by
  unfold Bounds.saturate
  split
  · exact Nat.max_le.2 ⟨hk, bounds.least_le_most⟩
  · exact Nat.le_refl _

theorem FirstStalled.unique {k l : Nat} (hk : FirstStalled item separator limit i k)
    (hl : FirstStalled item separator limit i l) : k = l := by
  rcases Nat.lt_trichotomy k l with hlt | heq | hlt
  · exact absurd hk.1 (hl.2 k hlt)
  · exact heq
  · exact absurd hl.1 (hk.2 l hlt)

theorem Found.unique {bounds : Bounds} {p q : κ} {m n : Nat}
    (hm : Found item separator limit i bounds p m) (hn : Found item separator limit i bounds q n) :
    p = q ∧ m = n := by
  rcases hm with ⟨k, hk, hfirst, hp, rfl⟩ | ⟨hnever, hlast⟩
  · rcases hn with ⟨l, hl, hfirst', hq, rfl⟩ | ⟨hnever, -⟩
    · obtain rfl := hfirst.unique hfirst'
      rw [hp] at hq
      exact ⟨by simpa using hq, rfl⟩
    · exact absurd hfirst.1 (hnever k hk)
  · rcases hn with ⟨l, hl, hfirst, -⟩ | ⟨-, hlast'⟩
    · exact absurd hfirst.1 (hnever l hl)
    · exact (hlast.unique hlast').symm

/-- The answer of a repetition that has found `n` occurrences up to `position`. -/
def concluded (bounds : Bounds) (i position : κ) (n : Nat) : Match κ × Nat :=
  if bounds.least ≤ n then (.success i position, n) else (.failure i, 0)

theorem plainCounted_eq {bounds : Bounds} {j q : κ} {n : Nat}
    (hlast : Last item separator j i bounds.most n q) :
    plainCounted item separator bounds i j = concluded bounds i q n := by
  have hstart : occurrence item separator j i 0 = some i := rfl
  obtain ⟨p, m, hloop, hlast'⟩ :
      ∃ p m, plainLoop item separator j bounds.most 0 i = (p, m) ∧
        Last item separator j i (0 + bounds.most) m p := plainLoop_last hstart
  rw [Nat.zero_add] at hlast'
  obtain ⟨rfl, rfl⟩ := hlast'.unique hlast
  unfold plainCounted concluded
  rw [hloop]

theorem concluded_of_le {bounds : Bounds} {q : κ} {n : Nat} (h : bounds.least ≤ n) :
    concluded bounds i q n = (.success i q, n) := if_pos h

/-- The two loops side by side: both match at the same place behind a stalled pass, and without one
their answers are equal. -/
theorem Found.compare {bounds : Bounds} {j q : κ} {n : Nat}
    (h : Found item separator j i bounds q n) :
    (∃ k, k ≤ bounds.most ∧ FirstStalled item separator j i k ∧
      concluded bounds i q n = (.success i q, bounds.saturate k) ∧
      plainCounted item separator bounds i j = (.success i q, bounds.most)) ∨
    ((∀ k, k ≤ bounds.most → ¬ Stalled item separator j i k) ∧
      plainCounted item separator bounds i j = concluded bounds i q n) := by
  rcases h with ⟨k, hk, hfirst, hq, rfl⟩ | ⟨hnever, hlast⟩
  · refine .inl ⟨k, hk, hfirst, concluded_of_le (least_le_saturate bounds k), ?_⟩
    rw [plainCounted_eq (last_of_stalled hk hfirst.1 hq)]
    exact concluded_of_le bounds.least_le_most
  · exact .inr ⟨hnever, plainCounted_eq hlast⟩

/-- What a match and a failure say about the number of occurrences and the place. -/
theorem Found.concluded_bounds {bounds : Bounds} {j q : κ} {n : Nat}
    (h : Found item separator j i bounds q n) :
    ((concluded bounds i q n).1.matched = true →
      bounds.least ≤ (concluded bounds i q n).2 ∧ (concluded bounds i q n).2 ≤ bounds.most ∧
      ((concluded bounds i q n).1.position = i ∨ ∃ p, (item p j).matched = true ∧
        (item p j).position = (concluded bounds i q n).1.position)) ∧
    ((concluded bounds i q n).1.matched = false → (concluded bounds i q n).2 = 0) := by
  -- The place and the upper limit do not depend on whether the lower limit was reached.
  have hplace : (q = i ∨ ∃ p, (item p j).matched = true ∧ (item p j).position = q) ∧
      n ≤ bounds.most := by
    rcases h with ⟨k, hk, -, hq, rfl⟩ | ⟨-, hq, hn, -⟩
    · exact ⟨eq_or_item_end hq, saturate_le_most bounds hk⟩
    · exact ⟨eq_or_item_end hq, hn⟩
  by_cases hle : bounds.least ≤ n
  · rw [concluded_of_le hle]
    exact ⟨fun _ => ⟨hle, hplace.2, hplace.1⟩, nofun⟩
  · rw [concluded, if_neg hle]
    exact ⟨nofun, fun _ => rfl⟩

theorem counted_ends [Walk κ α] {C : κ → Prop} {a b : Recognizer κ σ} {j : κ}
    (ha : a.Answers C item) (hb : b.Answers C separator)
    (hsame : ∀ c d, C c → C d → (Walk.same c d = true ↔ c = d)) (hi : C i) (hj : C j)
    (bounds : Bounds) (s : σ) :
    ∃ q n t, (counted a b bounds i j).Ends s (concluded bounds i q n) t ∧
      Found item separator j i bounds q n := by
  -- Before the first pass nothing can have stalled.
  have hnone : ∀ k, k ≤ 0 → ¬ Stalled item separator j i k := by
    rintro k hk ⟨htwo, -⟩
    omega
  have hstart : occurrence item separator j i 0 = some i := rfl
  obtain ⟨q, n, t, hloop, hfound⟩ :=
    repeatFrom_ends ha hb hsame hj bounds hstart hi (Nat.zero_add _) hnone s
  exact ⟨q, n, t, Run.ends_bind.2 ⟨_, t, hloop, Run.ends_pure.2 ⟨rfl, rfl⟩⟩, hfound⟩

/-! ## The number of passes -/

section Passes

variable [Cursor κ α] [Track κ α]

/-- Started at a place of the input with the limit at another, the function stays between them. -/
def Inside (source : Nat) (data : List α) (f : κ → κ → Match κ) : Prop :=
  ∀ k l, k ≤ l → l ≤ data.length →
    (f (Track.place source data k) (Track.place source data l)).matched = true →
    ∃ n, k ≤ n ∧ n ≤ l ∧
      (f (Track.place source data k) (Track.place source data l)).position = Track.place source data n

variable {source : Nat} {data : List α}

theorem passOf_inside (hitem : Inside source data item) (hseparator : Inside source data separator)
    {k l : Nat} (hkl : k ≤ l) (hl : l ≤ data.length) {count : Nat}
    (hmatched : (passOf item separator (Track.place source data l) count
      (Track.place source data k)).matched = true) :
    ∃ n, k ≤ n ∧ n ≤ l ∧ (passOf item separator (Track.place source data l) count
      (Track.place source data k)).position = Track.place source data n := by
  unfold passOf at hmatched ⊢
  split
  · next hzero => exact hitem k l hkl hl (by simpa [hzero] using hmatched)
  · next hzero =>
    split
    · next hgap =>
      -- A separator and then an item: both move forward, and neither leaves the range.
      obtain ⟨g, hkg, hgl, hplace⟩ := hseparator k l hkl hl hgap
      simp only [hzero, hgap, if_true, if_false, hplace] at hmatched ⊢
      obtain ⟨n, hgn, hnl, hend⟩ := hitem g l hgl hl hmatched
      exact ⟨n, by omega, hnl, hend⟩
    · exact ⟨k, Nat.le_refl k, hkl, rfl⟩

/-- A pass tries the item once at most. -/
theorem pass_tally {limit position : κ} {count t u : Nat} {m : Match κ}
    (h : (pass (tallied item) (ofFunction separator) limit count position).Ends t m u) :
    m = passOf item separator limit count position ∧ u ≤ t + 1 := by
  unfold pass at h
  unfold passOf
  split at h
  · next hzero =>
    obtain ⟨rfl, rfl⟩ := h.unique (tallied_ends item position limit t)
    exact ⟨by simp [hzero], Nat.le_refl _⟩
  · next hzero =>
    -- The separator is tried first and leaves the tally alone.
    obtain ⟨gap, v, hgap, hrest⟩ := Run.ends_bind.1 h
    obtain ⟨rfl, rfl⟩ := hgap.unique (ofFunction_ends separator position limit t)
    split at hrest
    · next hmatched =>
      obtain ⟨rfl, rfl⟩ := hrest.unique (tallied_ends item _ limit v)
      exact ⟨by simp [hzero, hmatched], Nat.le_refl _⟩
    · next hmatched =>
      obtain ⟨rfl, rfl⟩ := Run.ends_pure.1 hrest
      exact ⟨by simp [hzero, hmatched], Nat.le_succ _⟩

/-- The loop never makes more passes than there are elements left, but for one that moves nowhere at
the beginning and one that moves nowhere, or fails, at the end. -/
theorem repeatFrom_tally (hitem : Inside source data item)
    (hseparator : Inside source data separator) (bounds : Bounds) {k l : Nat} (hkl : k ≤ l)
    (hl : l ≤ data.length) {left count t u : Nat} {result : κ × Nat}
    (h : (repeatFrom (tallied item) (ofFunction separator) bounds (Track.place source data l) left
      count (Track.place source data k)).Ends t result u) :
    u ≤ t + (l - k) + if count = 0 then 2 else 1 := by
  induction left generalizing count k t with
  | zero =>
    obtain ⟨-, rfl⟩ := Run.ends_pure.1 h
    omega
  | succ left ih =>
    obtain ⟨next, v, hpass, h⟩ := Run.ends_bind.1 h
    obtain ⟨rfl, hv⟩ := pass_tally hpass
    split at h
    · next hmatched =>
      obtain ⟨n, hkn, hnl, hend⟩ := passOf_inside hitem hseparator hkl hl hmatched
      split at h
      · obtain ⟨-, rfl⟩ := Run.ends_pure.1 h
        split <;> omega
      · next hguard =>
        rw [hend] at h hguard
        have htail := ih hnl h
        simp only [Nat.add_eq_zero_iff, Nat.succ_ne_self, and_false, if_false] at htail
        -- Either the pass has moved, or it was the first.
        by_cases hmoved : n = k
        · subst hmoved
          have hself : Walk.same (Track.place source data n : κ) (Track.place source data n) = true :=
            (Track.same_place (fun _ => data) source source n n).2 rfl
          have hcount : count = 0 := by simpa [hself] using hguard
          simp only [hcount, if_true]
          omega
        · split <;> omega
    · obtain ⟨-, rfl⟩ := Run.ends_pure.1 h
      split <;> omega

/-- **Repetition is the plain loop.** For an item and a separator that answer as functions of their
cursors, from every state: the outcome is that of the plain loop. So is the count if the upper limit is
finite or no pass stalls; without an upper limit it is the number of the first stalled pass, raised to
the lower limit. A match has as many occurrences as allowed and stops at its start or behind an item; a
failure has none. If item and separator stay inside their range, no more than two item passes are made
beyond the number of elements in it. -/
theorem counted_eq_plain (inputs : Nat → List α) {a b : Recognizer κ σ}
    (ha : a.Answers (Track.Genuine inputs) item) (hb : b.Answers (Track.Genuine inputs) separator)
    (least most : Nat) {i j : κ} (hi : Track.Genuine inputs i) (hj : Track.Genuine inputs j) :
    ∃ m n, (∀ s, ∃ t, (counted a b (.clamp least most) i j).Ends s (m, n) t) ∧
      m = (plainCounted item separator (.clamp least most) i j).1 ∧
      (most ≠ Size.top → n = (plainCounted item separator (.clamp least most) i j).2) ∧
      ((∀ k, k ≤ most → ¬ Stalled item separator j i k) →
        n = (plainCounted item separator (.clamp least most) i j).2) ∧
      (∀ k, most = Size.top → k ≤ most → FirstStalled item separator j i k →
        n = max k (min least most)) ∧
      (m.matched = true → min least most ≤ n ∧ n ≤ most ∧
        (m.position = i ∨ ∃ p, (item p j).matched = true ∧ (item p j).position = m.position)) ∧
      (m.matched = false → n = 0) ∧
      (∀ source k l, i = Track.place source (inputs source) k →
        j = Track.place source (inputs source) l → k ≤ l → l ≤ (inputs source).length →
        Inside source (inputs source) item → Inside source (inputs source) separator →
        ∀ tally, ∃ after, after ≤ tally + (Walk.distance i j + 2) ∧
          (counted (tallied item) (ofFunction separator) (.clamp least most) i j).Ends tally (m, n)
            after) := by
  have hsame : ∀ c d : κ, Track.Genuine inputs c → Track.Genuine inputs d →
      (Walk.same c d = true ↔ c = d) := fun c d hc hd => hc.same_iff hd
  -- The tallied loop is another run over the same two functions, so it finds the same.
  have hruns : ∀ tally, ∃ q n t,
      (counted (tallied item) (ofFunction separator) (.clamp least most) i j).Ends tally
        (concluded (.clamp least most) i q n) t ∧
      Found item separator j i (.clamp least most) q n :=
    counted_ends (tallied_answers ha.closed) (ofFunction_answers hb.closed) hsame hi hj _
  -- What is found does not depend on the state; any run will do to name it.
  obtain ⟨q, n, -, -, hfound⟩ := hruns 0
  refine ⟨(concluded (.clamp least most) i q n).1, (concluded (.clamp least most) i q n).2,
    ?_, ?_, ?_, ?_, ?_, ?_, ?_, ?_⟩
  · intro s
    obtain ⟨q', n', t, hend, hfound'⟩ := counted_ends ha hb hsame hi hj (.clamp least most) s
    obtain ⟨rfl, rfl⟩ := hfound'.unique hfound
    exact ⟨t, hend⟩
  · rcases hfound.compare with ⟨k, -, -, hguarded, hplain⟩ | ⟨-, hplain⟩
    · rw [hguarded, hplain]
    · rw [hplain]
  · intro hfinite
    rcases hfound.compare with ⟨k, -, -, hguarded, hplain⟩ | ⟨-, hplain⟩
    · rw [hguarded, hplain]
      exact if_neg hfinite
    · rw [hplain]
  · intro hnever
    rcases hfound.compare with ⟨k, hk, hfirst, -, -⟩ | ⟨-, hplain⟩
    · exact absurd hfirst.1 (hnever k hk)
    · rw [hplain]
  · intro k htop hk hfirst
    rcases hfound.compare with ⟨l, -, hfirst', hguarded, -⟩ | ⟨hnever, -⟩
    · rw [hguarded, hfirst.unique hfirst']
      exact if_pos htop
    · exact absurd hfirst.1 (hnever k hk)
  · exact hfound.concluded_bounds.1
  · exact hfound.concluded_bounds.2
  · rintro source k l rfl rfl hkl hl hitem hseparator tally
    obtain ⟨q', n', t, hend, hfound'⟩ := hruns tally
    obtain ⟨rfl, rfl⟩ := hfound'.unique hfound
    refine ⟨t, ?_, hend⟩
    obtain ⟨⟨position, count⟩, u, hloop, hrest⟩ := Run.ends_bind.1 hend
    obtain ⟨-, rfl⟩ := Run.ends_pure.1 hrest
    have htally := repeatFrom_tally hitem hseparator _ hkl hl hloop
    rw [Track.distance_place source (inputs source) hkl hl]
    simpa [Nat.add_assoc] using htally

/-- An item and a separator that match everywhere without moving, at least five times and without an
upper limit: the second pass stalls, and five occurrences are counted. -/
theorem counted_eq_plain_nullable :
    let stay : SliceCursor UInt8 → SliceCursor UInt8 → Match (SliceCursor UInt8) :=
      fun i _ => .stay true i
    let i : SliceCursor UInt8 := Track.place 0 [1, 2] 0
    let j : SliceCursor UInt8 := Track.place 0 [1, 2] 2
    FirstStalled stay stay j i 2 ∧
      ∃ m, m.matched = true ∧ ∃ t, (counted (ofFunction stay) (ofFunction stay)
        (.clamp 5 Size.top) i j : Run Unit _).Ends () (m, 5) t := by
  intro stay i j
  have hfirst : FirstStalled stay stay j i 2 := by
    refine ⟨⟨Nat.le_refl 2, i, rfl, rfl⟩, ?_⟩
    rintro m hm ⟨htwo, -⟩
    omega
  have hstay : (ofFunction stay : Recognizer (SliceCursor UInt8) Unit).Answers
      (Track.Genuine fun _ => [1, 2]) stay :=
    ofFunction_answers fun i j hi _ _ => hi
  obtain ⟨m, n, hends, -, -, -, htop, -, hfailed, -⟩ :=
    counted_eq_plain (fun _ => [1, 2]) hstay hstay 5 Size.top (i := i) (j := j)
      (Track.genuine_place _ 0 0) (Track.genuine_place _ 0 2)
  -- The second pass is the first that stalls, and two is raised to five.
  have hn : n = 5 := htop 2 rfl (by decide) hfirst
  subst hn
  refine ⟨hfirst, m, ?_, hends ()⟩
  cases hm : m.matched with
  | true => rfl
  | false => exact absurd (hfailed hm) (by decide)

end Passes

end Recognizer

end Pegwork
