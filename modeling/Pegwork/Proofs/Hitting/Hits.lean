import Pegwork.Proofs.Hitting.FirstFault
import Pegwork.Proofs.Hitting.Sizes

/-!
# Hits by process and by sort

The actions of a model are looked at in three ways: as a list, process by process (`Model.hitsFrom`) and
sort by sort (`Model.hitCount`). For a model that was built the three agree. They are groupings of one list,
by keys that are all different and leave no action out: the names of the sorts, the processes of one sort,
and the processes of all sorts.

`flatMap_filter_perm` is the statement about groupings. What it asks of the keys comes from the checks that
are made when a model is built.
-/

namespace Pegwork.Hitting

/-! ## Groupings -/

/-- Elements that no key asks for can be left out before a list is grouped. -/
theorem flatMap_filter_filter {τ υ : Type} [DecidableEq υ] (key : τ → υ) {keys : List υ} {l : List τ}
    {p : τ → Bool} (hp : ∀ x ∈ l, key x ∈ keys → p x = true) :
    (keys.flatMap fun k => (l.filter p).filter (key · == k)) =
      keys.flatMap fun k => l.filter (key · == k) := by
  apply List.flatMap_congr
  intro k hk
  rw [List.filter_filter]
  apply List.filter_congr
  intro x hx
  by_cases hkey : key x = k
  · simp [hkey, hp x hx (hkey ▸ hk)]
  · simp [hkey]

/-- A list is put together again from its groups, if every element belongs to one of the keys and no key
comes twice. -/
theorem flatMap_filter_perm {τ υ : Type} [DecidableEq υ] (key : τ → υ) {keys : List υ}
    (hkeys : keys.Nodup) {l : List τ} (hl : ∀ x ∈ l, key x ∈ keys) :
    (keys.flatMap fun k => l.filter (key · == k)).Perm l := by
  induction keys generalizing l with
  | nil =>
    have hempty : l = [] := List.eq_nil_iff_forall_not_mem.2 fun x hx => by simpa using hl x hx
    simp [hempty]
  | cons k keys ih =>
    obtain ⟨hfresh, hkeys⟩ := List.nodup_cons.1 hkeys
    -- The other groups are those of the list without the first one.
    have hothers : ∀ x ∈ l.filter (fun x => !(key x == k)), key x ∈ keys := by
      intro x hx
      obtain ⟨hx, hne⟩ := List.mem_filter.1 hx
      exact (List.mem_cons.1 (hl x hx)).resolve_left (by simpa using hne)
    have hleft : ∀ x ∈ l, key x ∈ keys → (!(key x == k)) = true := by
      intro x _ hx
      have hne : key x ≠ k := fun h => hfresh (h ▸ hx)
      simpa using hne
    rw [List.flatMap_cons, ← flatMap_filter_filter key hleft]
    exact ((ih hkeys hothers).append_left _).trans (List.filter_append_perm (key · == k) l)

/-! ## Processes -/

namespace Model

/-- The number of hits by the processes of a sort, one process after the other. -/
def hitsOf (m : Model) (s : ProcessSort) : Nat := (s.processes.map fun p => (m.hitsFrom p).length).sum

/-- What is counted on: different names, and a declared sort with enough processes for every hitter. -/
structure Grouped (m : Model) : Prop where
  distinct : (m.sorts.map (·.name)).Nodup
  hitter : ∀ a ∈ m.actions, ∃ s ∈ m.sorts, a.hitterProcess ∈ s.processes

theorem grouped_of_build {m : Model} {ss : List Statement} (h : (build ss).1 = .ok m) : m.Grouped := by
  obtain ⟨hall, rfl⟩ := (build_decided ss).eq_ok_iff.1 h
  have hvalid : Valid ss := allChecks_hold.1 hall
  refine ⟨hvalid.distinct, ?_⟩
  intro a ha
  obtain ⟨⟨b, line⟩, hb, rfl⟩ := List.mem_map.1 ha
  obtain ⟨statement, hstatement, haction⟩ := List.mem_filterMap.1 hb
  cases statement with
  | defaultRate | absorption | process => cases haction
  | action raw number =>
    cases haction
    -- The sort that was looked up has the name that is written and reaches as far as the index.
    obtain ⟨s, hs, -, -, hname, -, hitter, -, -, hread, -, -, hrange, -⟩ :=
      (hvalid.actions raw _ hstatement).processes
    refine ⟨s, hs, ProcessSort.mem_processes.2 ⟨hname.symm, ?_⟩⟩
    show wholeOf Size.bound raw.hitter ≤ s.max
    rwa [wholeOf_eq hread]

namespace Grouped

variable {m : Model}

theorem nodup_processes (hm : m.Grouped) : (m.sorts.flatMap ProcessSort.processes).Nodup := by
  rw [List.nodup_flatMap]
  refine ⟨fun s _ => s.nodup_processes, ?_⟩
  have hnames : m.sorts.Pairwise fun s t => s.name ≠ t.name := List.pairwise_map.1 hm.distinct
  refine hnames.imp fun {s t} hne p hs ht => hne ?_
  exact (ProcessSort.mem_processes.1 hs).1.symm.trans (ProcessSort.mem_processes.1 ht).1

/-- Process by process, every action is met once. -/
theorem perm_actions (hm : m.Grouped) :
    (m.sorts.flatMap fun s => s.processes.flatMap m.hitsFrom).Perm m.actions := by
  rw [← List.flatMap_assoc]
  refine flatMap_filter_perm Action.hitterProcess hm.nodup_processes fun a ha => ?_
  obtain ⟨s, hs, hp⟩ := hm.hitter a ha
  exact List.mem_flatMap.2 ⟨s, hs, hp⟩

/-- The actions that a sort hits with are those that its processes hit with. -/
theorem hitCount_eq (hm : m.Grouped) {s : ProcessSort} (hs : s ∈ m.sorts) : m.hitCount s = m.hitsOf s := by
  have hmem : ∀ a ∈ m.actions.filter (·.hitterSort == s.name), a.hitterProcess ∈ s.processes := by
    intro a ha
    obtain ⟨ha, hname⟩ := List.mem_filter.1 ha
    obtain ⟨t, ht, hp⟩ := hm.hitter a ha
    -- Only one sort has the name of the hitter.
    have hts : t.name = s.name := (ProcessSort.mem_processes.1 hp).1.symm.trans (beq_iff_eq.1 hname)
    rwa [← List.inj_on_of_nodup_map hm.distinct ht hs hts]
  have hleft : ∀ a ∈ m.actions, a.hitterProcess ∈ s.processes → (a.hitterSort == s.name) = true :=
    fun a _ hp => beq_iff_eq.2 (ProcessSort.mem_processes.1 hp).1
  have hperm := flatMap_filter_perm Action.hitterProcess s.nodup_processes hmem
  rw [flatMap_filter_filter _ hleft] at hperm
  rw [hitCount, ← hperm.length_eq, List.length_flatMap]
  rfl

/-- Sort by sort, every action is counted once. -/
theorem sum_hitCount (hm : m.Grouped) : (m.sorts.map m.hitCount).sum = m.actions.length := by
  have hmem : ∀ a ∈ m.actions, a.hitterSort ∈ m.sorts.map (·.name) := by
    intro a ha
    obtain ⟨s, hs, hp⟩ := hm.hitter a ha
    exact List.mem_map.2 ⟨s, hs, (ProcessSort.mem_processes.1 hp).1.symm⟩
  have hperm := flatMap_filter_perm Action.hitterSort hm.distinct hmem
  rw [← hperm.length_eq, List.length_flatMap, List.map_map]
  rfl

end Grouped

/-- **Hits are partitioned by processes.** In a model that was built, the hits from all processes of all
sorts are its actions, each as often as it was written; the hits from one process keep their order. The number
of hits in the summary line of a sort is the sum over its processes, and these numbers add up to the number
of actions. -/
theorem hits_partitioned (ss : List Statement) (m : Model) (warnings : List LogRecord)
    (h : build ss = (.ok m, warnings)) :
    (m.sorts.flatMap fun s => s.processes.flatMap m.hitsFrom).Perm m.actions ∧
    (∀ p, (m.hitsFrom p).Sublist m.actions ∧
      ∀ a, (m.hitsFrom p).count a = if a.hitterProcess = p then m.actions.count a else 0) ∧
    (∀ s ∈ m.sorts, m.hitCount s = m.hitsOf s ∧ ∀ line, m.sortLine s = .ok line →
      line = s!"  {s.name}: {s.max + 1} processes, hits {m.hitsOf s} times") ∧
    (m.sorts.map m.hitCount).sum = m.actions.length := by
  have hm : m.Grouped := grouped_of_build (by rw [h])
  refine ⟨hm.perm_actions, fun p => ⟨List.filter_sublist, fun a => ?_⟩, fun s hs => ?_, hm.sum_hitCount⟩
  · by_cases ha : a.hitterProcess = p
    · rw [hitsFrom, List.count_filter (by simpa using ha), if_pos ha]
    · have hnone : a ∉ m.hitsFrom p := fun hmem => ha (by simpa using (List.mem_filter.1 hmem).2)
      rw [List.count_eq_zero_of_not_mem hnone, if_neg ha]
  · refine ⟨hm.hitCount_eq hs, fun line hline => ?_⟩
    obtain ⟨size, hsize, hline⟩ := bind_eq_ok.1 hline
    obtain ⟨rfl, -⟩ := Size.add_eq_ok_iff.1 hsize
    cases hline
    rw [hm.hitCount_eq hs]

/-- Actions in front of their sorts, one of them twice, and the last process of a sort as the hitter. -/
theorem hits_partitioned_twice :
    ∃ m warnings, build [.action ⟨"b", "1", "a", "0", "1", none, none⟩ 1,
        .action ⟨"a", "0", "b", "0", "1", none, none⟩ 2, .action ⟨"b", "1", "a", "0", "1", none, none⟩ 3,
        .process "a" "1" 4, .process "b" "1" 5] = (.ok m, warnings) ∧
      (m.sorts.flatMap fun s => s.processes.flatMap m.hitsFrom).Perm m.actions ∧
      m.sorts.map m.hitCount = [1, 2] ∧ (m.sorts.map m.hitCount).sum = m.actions.length := by
  let hit : Action := ⟨"b", 1, "a", 0, 1, none, none⟩
  let m : Model := { sorts := [⟨"a", 1⟩, ⟨"b", 1⟩], actions := [hit, ⟨"a", 0, "b", 0, 1, none, none⟩, hit] }
  have hbuild : build [.action ⟨"b", "1", "a", "0", "1", none, none⟩ 1,
      .action ⟨"a", "0", "b", "0", "1", none, none⟩ 2, .action ⟨"b", "1", "a", "0", "1", none, none⟩ 3,
      .process "a" "1" 4, .process "b" "1" 5] = (.ok m, [duplicateWarning hit 3]) := by decide
  obtain ⟨hperm, -, -, hsum⟩ := hits_partitioned _ m _ hbuild
  exact ⟨m, _, hbuild, hperm, by decide, hsum⟩

end Model

end Pegwork.Hitting
