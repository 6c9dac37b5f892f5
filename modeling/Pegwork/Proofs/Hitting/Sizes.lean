import Pegwork.Hitting.Printer
import Pegwork.Proofs.Hitting.RoundTrip

/-!
# How many processes a model has

A sort with the processes from zero to `max` has one process more than `max` says, and `max` may be the
largest size. Counting processes therefore is the one question about a model that can halt: it answers
with the exact number as long as that is a size, and halts from there on. Nothing that is checked when a
model is read excludes the second case (`parse_size_overflow`), in which the summary of the model cannot
be written either.
-/

namespace Pegwork.Hitting

theorem ProcessSort.size_eq (s : ProcessSort) :
    s.size = if s.max + 1 < Size.bound then .ok (s.max + 1) else .error .overflow := rfl

namespace Model

/-- The exact number of processes of all sorts. -/
def total (m : Model) : Nat := (m.sorts.map fun s => s.max + 1).sum

/-- The line of a sort in the summary, with the exact number of its processes. -/
def exactSortLine (m : Model) (s : ProcessSort) : String :=
  s!"  {s.name}: {s.max + 1} processes, hits {m.hitCount s} times"

/-- The summary with all numbers exact. -/
def exactSummary (m : Model) : String :=
  unlines (
    [ s!"{m.sorts.length} sorts, {m.total} processes, {m.actions.length} actions",
      "default rate: " ++ m.defaultRate.text,
      s!"stochasticity absorption: {m.absorption}" ] ++ m.sorts.map m.exactSortLine)

/-! ## Sums of sizes -/

/-- Adding up the sizes of sorts halts exactly when the exact sum is no size: partial sums only grow, so
that none of them halts earlier than the whole. -/
theorem foldlM_size (sorts : List ProcessSort) (n : Nat) (hn : n < Size.bound) :
    sorts.foldlM (fun total s => do Size.add total (← s.size)) n =
      if n + (sorts.map fun s => s.max + 1).sum < Size.bound then
        .ok (n + (sorts.map fun s => s.max + 1).sum)
      else .error .overflow := by
  induction sorts generalizing n with
  | nil => simp [hn, pure, Except.pure]
  | cons s sorts ih =>
    have hsum : n + ((s :: sorts).map fun s => s.max + 1).sum =
        n + (s.max + 1) + (sorts.map fun s => s.max + 1).sum := by
      simp only [List.map_cons, List.sum_cons, Nat.add_assoc]
    rw [List.foldlM_cons, s.size_eq, hsum]
    by_cases hnext : n + (s.max + 1) < Size.bound
    · have hsize : s.max + 1 < Size.bound := by omega
      simp only [hsize, if_true, bind, Except.bind, Size.add_eq_ok hnext, ← ih _ hnext]
    · have hlarge : ¬ n + (s.max + 1) + (sorts.map fun s => s.max + 1).sum < Size.bound := by omega
      -- Either the size of the sort or its sum with the others is too large already.
      by_cases hsize : s.max + 1 < Size.bound
      · simp only [hsize, if_true, bind, Except.bind, Size.add, hnext, if_false, hlarge]
      · simp only [hsize, if_false, bind, Except.bind, hlarge]

theorem processCount_eq (m : Model) :
    m.processCount = if m.total < Size.bound then .ok m.total else .error .overflow := by
  have hcount := foldlM_size m.sorts 0 (by decide)
  rwa [Nat.zero_add] at hcount

/-! ## Summaries -/

/-- A sort has no more processes than the whole model. -/
theorem le_total {m : Model} {s : ProcessSort} (hs : s ∈ m.sorts) : s.max + 1 ≤ m.total :=
  List.le_sum_of_mem (List.mem_map_of_mem hs)

theorem mapM_sortLine (m : Model) {sorts : List ProcessSort}
    (hsorts : ∀ s ∈ sorts, s.max + 1 < Size.bound) :
    sorts.mapM m.sortLine = .ok (sorts.map m.exactSortLine) := by
  induction sorts with
  | nil => rfl
  | cons s sorts ih =>
    have hline : m.sortLine s = .ok (m.exactSortLine s) := by
      rw [sortLine, s.size_eq, if_pos (hsorts s List.mem_cons_self)]
      rfl
    rw [List.mapM_cons, hline, ih fun s hs => hsorts s (List.mem_cons_of_mem _ hs)]
    rfl

theorem summary_eq (m : Model) :
    m.summary = if m.total < Size.bound then .ok m.exactSummary else .error .overflow := by
  rw [summary, processCount_eq]
  by_cases htotal : m.total < Size.bound
  · have hlines := m.mapM_sortLine fun s hs => Nat.lt_of_le_of_lt (le_total hs) htotal
    simp only [htotal, if_true, bind, Except.bind, hlines]
    rfl
  · simp only [htotal, if_false]
    rfl

/-! ## Models that were read -/

/-- **Counting processes.** For a model that was read, the number of all processes and the summary are
exact as long as that number is a size, and both halt for all other models. The number of processes of a
single sort can only be too large if the sort was declared with the largest size. -/
theorem sizes_exact_or_overflow (text : String) (m : Model) (logs : List LogRecord)
    (hsize : text.utf8ByteSize < 2 ^ 63) (h : parse text = .ok (.ok m, logs)) :
    (m.total < Size.bound → m.processCount = .ok m.total ∧ m.summary = .ok m.exactSummary) ∧
    (Size.bound ≤ m.total →
      m.processCount = .error .overflow ∧ m.summary = .error .overflow) ∧
    ∀ s ∈ m.sorts, s.size = if s.max = Size.top then .error .overflow else .ok (s.max + 1) := by
  have hm : m.Legal := legal_of_parse (TextCursor.fits_toList hsize) h
  rw [processCount_eq, summary_eq]
  refine ⟨?_, ?_, ?_⟩
  · intro htotal
    rw [if_pos htotal, if_pos htotal]
    exact ⟨rfl, rfl⟩
  · intro htotal
    rw [if_neg (Nat.not_lt.2 htotal), if_neg (Nat.not_lt.2 htotal)]
    exact ⟨rfl, rfl⟩
  · intro s hs
    obtain ⟨-, hmax⟩ := hm.sorts s hs
    have hbound : Size.bound = Size.top + 1 := rfl
    rw [s.size_eq]
    by_cases htop : s.max = Size.top
    · rw [if_neg (by omega), if_pos htop]
    · rw [if_pos (by omega), if_neg htop]

/-- The largest number of processes that can be counted, in two sorts. -/
theorem sizes_exact_or_overflow_largest :
    ∃ m logs, parse "process a 18446744073709551613 process b 0" = .ok (.ok m, logs) ∧
      m.processCount = .ok Size.top ∧ m.summary = .ok m.exactSummary := by
  let m : Model := { sorts := [⟨"a", 18446744073709551613⟩, ⟨"b", 0⟩] }
  have hparse : parse "process a 18446744073709551613 process b 0" =
      .ok (.ok m, [⟨.debug, "parsed 2 statements"⟩]) := by decide +kernel
  have hexact := (sizes_exact_or_overflow _ m _ (by decide) hparse).1 (by decide)
  exact ⟨m, _, hparse, hexact⟩

/-- A text that is accepted, with a model that cannot tell how many processes it has. -/
theorem parse_size_overflow :
    ∃ m logs, parse "process a 18446744073709551615" = .ok (.ok m, logs) ∧
      m.total = Size.bound ∧ m.processCount = .error .overflow ∧ m.summary = .error .overflow := by
  let m : Model := { sorts := [⟨"a", 18446744073709551615⟩] }
  have hparse : parse "process a 18446744073709551615" =
      .ok (.ok m, [⟨.debug, "parsed 1 statements"⟩]) := by decide +kernel
  exact ⟨m, _, hparse, rfl, rfl, rfl⟩

end Model

end Pegwork.Hitting
