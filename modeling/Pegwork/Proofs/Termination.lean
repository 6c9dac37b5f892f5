import Pegwork.Proofs.Range

/-!
# Termination without left recursion

A grammar whose cells expose each other in a circle may come back to a cell without having taken an
element, and then it goes on for ever. Without such a circle every parse ends.

The reason is a measure of two parts for the handles inside handles. A handle that is tried one element
later leaves less input. A handle that is tried at the same place is exposed, and its cell exposes fewer
cells in turn (`Cells.rank`). So handles are nested no deeper than the number of elements and one, times
the number of cells. The loops of repetitions and searches need no measure of their own: what they try is
never started beyond the end of the window, and a search reaches that end.

The depth that is given to a parse does not show in its outcome, as soon as it is deep enough. This is a
comparison of two runs in one window.
-/

namespace Pegwork

variable {κ ρ α β γ : Type}

open Relation

/-! ## Cells that expose each other -/

namespace Cells

/-- The definition of the cell `c` can try a handle of `d` before it has taken an element. -/
def Exposes (cells : Cells α β γ) (c d : String) : Prop :=
  ∃ rule, (cells.get c).life = .defined rule ∧ d ∈ rule.exposed

/-- No cell exposes itself, not even through others. -/
def Guarded (cells : Cells α β γ) : Prop := ∀ c, ¬ TransGen cells.Exposes c c

theorem mem_keys_of_defined {cells : Cells α β γ} {key : String} {rule : Rule α β γ}
    (h : (cells.get key).life = .defined rule) : key ∈ cells.map Prod.fst := by
  cases hlookup : cells.lookup key with
  | none =>
    rw [get, hlookup] at h
    cases h
  | some c =>
    obtain ⟨l, r, hcells, -⟩ := List.lookup_eq_some_iff.1 hlookup
    simp [hcells]

open Classical in
/-- The number of cells that a cell exposes, on its own or through others. -/
noncomputable def rank (cells : Cells α β γ) (key : String) : Nat :=
  ((cells.map Prod.fst).toFinset.filter (TransGen cells.Exposes key)).card

/-- A cell exposes more cells than those that it exposes. -/
theorem rank_lt_rank {cells : Cells α β γ} (hguarded : cells.Guarded) {c d : String}
    {rule : Rule α β γ} (hexposes : cells.Exposes c d) (hd : (cells.get d).life = .defined rule) :
    cells.rank d < cells.rank c := by
  classical
  apply Finset.card_lt_card
  refine Finset.ssubset_iff_of_subset ?_ |>.2 ⟨d, ?_, ?_⟩
  · intro e he
    rw [Finset.mem_filter] at he ⊢
    exact ⟨he.1, TransGen.head hexposes he.2⟩
  · exact Finset.mem_filter.2 ⟨List.mem_toFinset.2 (mem_keys_of_defined hd), .single hexposes⟩
  · intro hmem
    exact hguarded d (Finset.mem_filter.1 hmem).2

/-- A defined cell is one of the cells, and does not expose itself. -/
theorem rank_lt_length {cells : Cells α β γ} (hguarded : cells.Guarded) {c : String}
    {rule : Rule α β γ} (hc : (cells.get c).life = .defined rule) : cells.rank c < cells.length := by
  classical
  have hkeys : (cells.map Prod.fst).toFinset.card ≤ cells.length := by
    simpa using List.toFinset_card_le (cells.map Prod.fst)
  refine Nat.lt_of_lt_of_le (Finset.card_lt_card ?_) hkeys
  refine (Finset.ssubset_iff_of_subset (Finset.filter_subset _ _)).2 ⟨c, ?_, ?_⟩
  · exact List.mem_toFinset.2 (mem_keys_of_defined hc)
  · intro hmem
    exact hguarded c (Finset.mem_filter.1 hmem).2

end Cells

/-! ## Two depths -/

theorem Rule.Mentions.of_definition {cells : Cells α β γ} {rule definition : Rule α β γ}
    {key : String} {f : γ} (h : Mentions cells definition f)
    (hlife : (cells.get key).life = .defined definition) : Mentions cells rule f := by
  rcases h with hf | hf
  · exact .inr ⟨key, definition, hlife, hf⟩
  · exact .inr hf

namespace Rule

variable [Cursor κ α] [Track κ α] [Steps κ α] [Cursor ρ α] [Track ρ α] [Steps ρ α] [Element α]
  [DecidableEq α] {p : Twin κ ρ} {old : Store κ β} {old' : Store ρ β}
  {foreign : γ → κ → κ → Match κ} {foreign' : γ → ρ → ρ → Match ρ} {cells : Cells α β γ}

open Recognizer

/-- One level of handles: from `x` elements on, a rule that exposes only cells of a rank below `r` needs
room for the elements that are left and for `r`, if each definition behind a handle needs room for the
elements that are left there and for the rank of its cell. -/
theorem alike_of_inner (hguarded : cells.Guarded) {rule : Rule α β γ} {x r depth depth' : Nat}
    (hforeign : ∀ f, Mentions cells rule f → Meaning.Alike p old old' (fun _ => False) 0 0
      (ofFunction (foreign f)) (ofFunction (foreign' f)))
    (hexposed : ∀ key ∈ rule.exposed, ∀ definition, (cells.get key).life = .defined definition →
      cells.rank key < r)
    (hdepth : (p.length - x) * cells.length + r ≤ depth)
    (hdepth' : (p.length - x) * cells.length + r ≤ depth')
    (hinner : ∀ y key definition, (cells.get key).life = .defined definition →
      (p.length - y) * cells.length + cells.rank key < depth →
      (p.length - y) * cells.length + cells.rank key < depth' →
      Meaning.Alike p old old' (fun _ => False) y 0 (inner foreign cells depth definition)
        (inner foreign' cells depth' definition)) :
    Meaning.Alike p old old' (fun _ => False) x 0 (rule.parse foreign cells depth)
      (rule.parse foreign' cells depth') := by
  rw [parse_eq, parse_eq]
  refine (alike_denote rule (fun f hf => hforeign f (.inl hf)) ?_ ?_).mono (Nat.le_refl x)
    (Nat.zero_le _)
  -- An exposed handle is tried with the same input left, but its cell has a smaller rank.
  · intro key hkey
    apply Cells.alike_handle
    intro definition hlife
    have hrank := hexposed key hkey definition hlife
    exact hinner x key definition hlife (by omega) (by omega)
  -- All other handles are tried with one element less, if that is still in the window.
  · intro key
    by_cases hlast : p.length ≤ x
    · intro y hy hlength
      omega
    · apply Cells.alike_handle
      intro definition hlife
      have hrank := Cells.rank_lt_length hguarded hlife
      have hless : (p.length - x) * cells.length =
          (p.length - (x + 1)) * cells.length + cells.length := by
        rw [← Nat.succ_mul]
        congr 1
        omega
      exact hinner (x + 1) key definition hlife (by omega) (by omega)

/-- Deep enough: two depths that leave room for the elements that are left and for the ranks of the
exposed cells are as good as each other, and neither run halts. -/
theorem alike_of_depth (hguarded : cells.Guarded) {rule : Rule α β γ} {x r depth depth' : Nat}
    (hforeign : ∀ f, Mentions cells rule f → Meaning.Alike p old old' (fun _ => False) 0 0
      (ofFunction (foreign f)) (ofFunction (foreign' f)))
    (hexposed : ∀ key ∈ rule.exposed, ∀ definition, (cells.get key).life = .defined definition →
      cells.rank key < r)
    (hdepth : (p.length - x) * cells.length + r ≤ depth)
    (hdepth' : (p.length - x) * cells.length + r ≤ depth') :
    Meaning.Alike p old old' (fun _ => False) x 0 (rule.parse foreign cells depth)
      (rule.parse foreign' cells depth') := by
  -- By induction on the depth, which goes down by one with each handle inside a handle.
  induction depth generalizing rule x r depth' with
  | zero =>
    refine alike_of_inner hguarded hforeign hexposed hdepth hdepth' ?_
    intro y key definition hlife hroom hroom'
    omega
  | succ depth ih =>
    refine alike_of_inner hguarded hforeign hexposed hdepth hdepth' ?_
    intro y key definition hlife hroom hroom'
    cases depth' with
    | zero => omega
    | succ depth' =>
      refine ih (fun f hf => hforeign f (hf.of_definition hlife)) ?_ (Nat.le_of_lt_succ hroom)
        (Nat.le_of_lt_succ hroom')
      intro inside hinside definition' hlife'
      exact Cells.rank_lt_rank hguarded ⟨definition, hlife, hinside⟩ hlife'

end Rule

/-! ## One window -/

theorem Event.eq_of_alike {e e' : Event κ β} (h : Event.Alike Eq e e') : e = e' := by
  cases h <;> subst_vars <;> rfl

theorem Store.eq_of_alike {old s t : Store κ β} (h : Store.Alike Eq old old s t) : s = t := by
  obtain ⟨new, new', hs, ht, hnew⟩ := h.trail
  have hevents : new = new' := by
    rw [← List.forall₂_eq_eq_eq]
    exact hnew.imp fun _ _ => Event.eq_of_alike
  have htrail : s.trail = t.trail := by rw [hs, ht, hevents]
  have hraised := h.raised_eq
  have hmemory := h.memory_eq
  cases s
  cases t
  cases hraised
  cases hmemory
  cases htrail
  rfl

variable [Cursor κ α] [Track κ α] [Steps κ α]

theorem Match.eq_of_alike {w : Window α} {hfits : Steps.Fits κ w.data} {x : Nat} {m m' : Match κ}
    (h : Match.Alike (Twin.self w hfits) x m m') : m = m' := by
  obtain ⟨hmatched, hstart, hposition, -⟩ := h
  cases m
  cases m'
  cases hmatched
  cases hstart
  cases hposition
  rfl

namespace Rule

variable [Element α] [DecidableEq α]

/-- **Grammars without left recursion end.** If no cell exposes itself, every parse in a window ends, with
any foreign rules that stay in the window: handles are nested no deeper than the number of elements and
one, times the number of cells, and every depth from there on gives the same outcome. -/
theorem parse_ends_of_guarded (cells : Cells α β γ) (hguarded : cells.Guarded) (rule : Rule α β γ)
    (foreign : γ → κ → κ → Match κ) (w : Window α) (hfits : Steps.Fits κ w.data)
    (hforeign : ∀ f, Mentions cells rule f → w.Keeps (foreign f)) (before : Store κ β) :
    ∃ m after, ∀ depth, (w.length + 1) * cells.length ≤ depth →
      (rule.parse foreign cells depth (w.cursor 0) w.limit).Ends before m after := by
  have halike : ∀ depth, (w.length + 1) * cells.length ≤ depth →
      Meaning.Alike (Twin.self w hfits) before before (fun _ => False) 0 0
        (rule.parse foreign cells ((w.length + 1) * cells.length)) (rule.parse foreign cells depth) := by
    intro depth hdepth
    have hroom : ((Twin.self w hfits).length - 0) * cells.length + cells.length =
        (w.length + 1) * cells.length := by
      rw [Nat.sub_zero, ← Nat.succ_mul]
      rfl
    refine alike_of_depth hguarded (fun f hf => (hforeign f hf).alike hfits) ?_ (Nat.le_of_eq hroom)
      (Nat.le_trans (Nat.le_of_eq hroom) hdepth)
    exact fun key _ definition hlife => Cells.rank_lt_length hguarded hlife
  -- The least depth names the outcome, and all others are compared with it.
  have hends : ∀ depth, (w.length + 1) * cells.length ≤ depth → ∃ m after,
      (rule.parse foreign cells ((w.length + 1) * cells.length) (w.cursor 0) w.limit).Ends before m after ∧
      (rule.parse foreign cells depth (w.cursor 0) w.limit).Ends before m after := by
    intro depth hdepth
    rcases halike depth hdepth 0 (Nat.le_refl 0) (Nat.zero_le _) before before
      (Store.alike_refl rfl rfl) with ⟨m, m', after, after', hend, hend', hm, hafter⟩ | ⟨_, _, _, _, _, hfalse⟩
    · rw [← Match.eq_of_alike hm, ← Store.eq_of_alike hafter] at hend'
      exact ⟨m, after, hend, hend'⟩
    · exact hfalse.elim
  obtain ⟨m, after, hend, -⟩ := hends _ (Nat.le_refl _)
  refine ⟨m, after, fun depth hdepth => ?_⟩
  obtain ⟨m', after', hend', hdeep⟩ := hends depth hdepth
  obtain ⟨rfl, rfl⟩ := hend.unique hend'
  exact hdeep

/-- Digits in nested parentheses, looked for by a search inside a search, behind a repetition of nothing
that has no upper limit: the search finds the number in the middle. -/
theorem parse_ends_of_guarded_nested :
    let digit : Rule Char String Unit := .satisfy fun c => Classify.isDigit c
    let nested : Rule Char String Unit :=
      .choice digit (.seq (.element '(') (.seq (.cell "nested") (.element ')')))
    let cells : Cells Char String Unit := [("nested", ⟨"nested", .defined nested, true⟩)]
    let rule : Rule Char String Unit := .seq (.star .empty) (.find (.find (.cell "nested")))
    let w : Window Char := .whole 0 ['x', '(', '(', '7', ')', ')']
    cells.Guarded ∧ ∃ m after, m.matched = true ∧ ∀ depth, 7 ≤ depth →
      (rule.parse (fun _ i _ => .failure i) cells depth (w.cursor 0 : TextCursor) w.limit).Ends {} m
        after := by
  intro digit nested cells rule w
  have hguarded : cells.Guarded := by
    intro c hcycle
    obtain ⟨d, ⟨definition, hlife, hexposed⟩, -⟩ := Relation.TransGen.head'_iff.1 hcycle
    by_cases hc : c = "nested"
    · subst hc
      cases hlife
      cases hexposed
    · have hdropped : (cells.get c).life = .dropped := by
        simp [cells, Cells.get, List.lookup, beq_eq_false_iff_ne.2 hc]
      rw [hdropped] at hlife
      cases hlife
  have hfits : Steps.Fits TextCursor w.data := by
    show Text.bytes _ < 2 ^ 63
    decide
  obtain ⟨m, after, hends⟩ := parse_ends_of_guarded cells hguarded rule
    (fun _ i _ => .failure i) w hfits (fun _ _ _ _ hfailed => nomatch hfailed) {}
  refine ⟨hguarded, m, after, ?_, hends⟩
  have hrun : ∃ m' after', (rule.parse (fun _ i _ => .failure i) cells 7 (w.cursor 0 : TextCursor)
      w.limit).Ends {} m' after' ∧ m'.matched = true := ⟨_, _, rfl, rfl⟩
  obtain ⟨m', after', hend, hmatched⟩ := hrun
  obtain ⟨rfl, -⟩ := (hends 7 (Nat.le_refl 7)).unique hend
  exact hmatched

end Rule

end Pegwork
