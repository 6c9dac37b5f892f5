import Pegwork.Proofs.Hitting.RoundTrip

/-!
# Graphs of models

The graph of a model that was read says what the model is (`Model.dot_faithful`). Its nodes are the
processes: every end of an edge is declared once, in the cluster of its sort, although the names of
nodes are put together with an underscore, which names of sorts may contain too. And the sorts and the
hits can be read off from the text.

Both parts rest on names standing between quotes as they are (`Plain`), and on the last underscore of
a node being the one in front of its index.
-/

namespace Pegwork.Hitting

open Grammar Pegwork.Number TextCursor

/-! ## Texts between quotes -/

/-- The text can stand between double quotes as it is. -/
def Plain (text : String) : Prop := ∀ x ∈ text.toList, x ≠ '"' ∧ x ≠ '\\' ∧ x ≠ '\n'

theorem Plain.quote {text : String} (h : Plain text) : '"' ∉ text.toList := fun hmem => (h _ hmem).1 rfl

theorem Plain.newline {text : String} (h : Plain text) : '\n' ∉ text.toList :=
  fun hmem => (h _ hmem).2.2 rfl

theorem Plain.append {text more : String} (h : Plain text) (h' : Plain more) : Plain (text ++ more) := by
  intro x hx
  rw [String.toList_append] at hx
  exact (List.mem_append.1 hx).elim (h x) (h' x)

theorem plain_of_class {p : Char → Bool} {text : String} (htext : ∀ x ∈ text.toList, p x = true)
    (hquote : p '"' = false) (hescape : p '\\' = false) (hnewline : p '\n' = false) : Plain text := by
  intro x hx
  have hp := htext x hx
  refine ⟨?_, ?_, ?_⟩
  · rintro rfl
    simp [hquote] at hp
  · rintro rfl
    simp [hescape] at hp
  · rintro rfl
    simp [hnewline] at hp

theorem plain_of_isName {name : String} (h : IsName name.toList) : Plain name :=
  plain_of_class h.chars (by decide) (by decide) (by decide)

theorem plain_toString (n : Nat) : Plain (toString n) :=
  plain_of_class (isDigits_toString n).2 (by decide) (by decide) (by decide)

theorem plain_text {p : Process} (h : IsName p.sort.toList) : Plain p.text :=
  ((plain_of_isName h).append (by simp [Plain])).append (plain_toString p.index)

theorem IsDecimal.chars {text : List Char} (h : IsDecimal text) :
    ∀ x ∈ text, (Classify.isDigit x || x == '.') = true := by
  have hdigit : ∀ {digits : List Char}, (∀ x ∈ digits, Classify.isDigit x = true) →
      ∀ x ∈ digits, (Classify.isDigit x || x == '.') = true := by
    intro digits h x hx
    rw [h x hx, Bool.true_or]
  cases h with
  | whole h => exact hdigit h.2
  | pointed h hfraction =>
    intro x hx
    rcases List.mem_append.1 hx with hx | hx
    · exact hdigit h.2 x hx
    · rcases List.mem_cons.1 hx with rfl | hx
      · decide
      · exact hdigit hfraction x hx
  | fraction h =>
    intro x hx
    rcases List.mem_cons.1 hx with rfl | hx
    · decide
    · exact hdigit h.2 x hx

theorem plain_real {x : Real64} (hx : x.isPositive = true) : Plain x.text := by
  rw [Real64.text_of_isPositive hx]
  exact plain_of_class (isDecimal_positional _).chars (by decide) (by decide) (by decide)

/-! ## Cutting -/

section Cutting

variable {α β γ κ : Type}

/-- A list can be cut at the first place of an element in one way only. -/
theorem cut_first {x : α} {a b r s : List α} (ha : x ∉ a) (hb : x ∉ b)
    (h : a ++ x :: r = b ++ x :: s) : a = b ∧ r = s := by
  induction a generalizing b with
  | nil =>
    cases b with
    | nil => exact ⟨rfl, (List.cons.inj h).2⟩
    | cons y b => exact absurd (by simp [(List.cons.inj h).1]) hb
  | cons y a ih =>
    cases b with
    | nil => exact absurd (by simp [(List.cons.inj h).1]) ha
    | cons z b =>
      obtain ⟨rfl, hrest⟩ := List.cons.inj h
      obtain ⟨rfl, rfl⟩ := ih (fun hx => ha (by simp [hx])) (fun hx => hb (by simp [hx])) hrest
      exact ⟨rfl, rfl⟩

/-- And at the last place of an element. -/
theorem cut_last {x : α} {a b r s : List α} (hr : x ∉ r) (hs : x ∉ s)
    (h : a ++ x :: r = b ++ x :: s) : a = b ∧ r = s := by
  have hreverse : r.reverse ++ x :: a.reverse = s.reverse ++ x :: b.reverse := by
    simpa using congrArg List.reverse h
  obtain ⟨hrs, hab⟩ := cut_first (by simpa using hr) (by simpa using hs) hreverse
  exact ⟨List.reverse_inj.1 hab, List.reverse_inj.1 hrs⟩

/-- In a list without repetitions, what stands around an element is different from it. -/
theorem ne_of_mem_rest {x : α} {l xs ys : List α} (h : l.Nodup) (hcut : l = xs ++ x :: ys) :
    ∀ y ∈ xs ++ ys, y ∈ l ∧ y ≠ x := by
  subst hcut
  rw [List.nodup_middle, List.nodup_cons] at h
  intro y hy
  refine ⟨?_, ?_⟩
  · simp only [List.mem_append, List.mem_cons] at hy ⊢
    exact hy.elim .inl fun hy => .inr (.inr hy)
  · rintro rfl
    exact h.1 hy

/-- Two rows of blocks are told apart block by block, if blocks are, and what follows the rows does
not begin with a block. -/
theorem map_eq_of_blocks {f : α → List γ} {g : β → List γ} (key : α → κ) (key' : β → κ) {xs : List α}
    {ys : List β} {r s : List γ}
    (hblock : ∀ x ∈ xs, ∀ y ∈ ys, ∀ r s, f x ++ r = g y ++ s → key x = key' y ∧ r = s)
    (hr : ∀ y ∈ ys, ∀ t, r ≠ g y ++ t) (hs : ∀ x ∈ xs, ∀ t, f x ++ t ≠ s)
    (h : xs.flatMap f ++ r = ys.flatMap g ++ s) : xs.map key = ys.map key' ∧ r = s := by
  induction xs generalizing ys with
  | nil =>
    cases ys with
    | nil => exact ⟨rfl, h⟩
    | cons y ys =>
      rw [List.flatMap_cons, List.append_assoc] at h
      exact absurd h (hr y (by simp) _)
  | cons x xs ih =>
    rw [List.flatMap_cons, List.append_assoc] at h
    cases ys with
    | nil => exact absurd h (hs x (by simp) _)
    | cons y ys =>
      rw [List.flatMap_cons, List.append_assoc] at h
      obtain ⟨hkey, hrest⟩ := hblock x (by simp) y (by simp) _ _ h
      obtain ⟨hkeys, rfl⟩ := ih (fun x hx y hy => hblock x (by simp [hx]) y (by simp [hy]))
        (fun y hy => hr y (by simp [hy])) (fun x hx => hs x (by simp [hx])) hrest
      exact ⟨by rw [List.map_cons, List.map_cons, hkey, hkeys], rfl⟩

end Cutting

theorem unlines_inj {lines lines' : List String} (h : ∀ line ∈ lines, '\n' ∉ line.toList)
    (h' : ∀ line ∈ lines', '\n' ∉ line.toList) (heq : unlines lines = unlines lines') :
    lines = lines' := by
  have htexts : lines.flatMap (fun line => line.toList ++ ['\n']) ++ [] =
      lines'.flatMap (fun line => line.toList ++ ['\n']) ++ [] := by
    have hunlines : ∀ lines : List String, (unlines lines).toList =
        lines.flatMap fun line => line.toList ++ ['\n'] := by
      intro lines
      induction lines with
      | nil => rfl
      | cons line lines ih => rw [toList_unlines_cons, ih, List.flatMap_cons, List.append_cons]
    rw [← hunlines, ← hunlines, heq]
  have hmaps := map_eq_of_blocks id id ?_ ?_ ?_ htexts
  · simpa using hmaps.1
  · intro x hx y hy r s hcut
    rw [List.append_assoc, List.append_assoc] at hcut
    obtain ⟨hline, hrest⟩ := cut_first (h x hx) (h' y hy) hcut
    exact ⟨String.toList_inj.1 hline, hrest⟩
  · simp
  · simp

/-- Different processes have different texts. -/
theorem Process.text_inj {p q : Process} (h : p.text = q.text) : p = q := by
  have htext : ∀ p : Process, p.text.toList = p.sort.toList ++ '_' :: (toString p.index).toList := by
    intro p
    rw [Process.text, String.toList_append, String.toList_append, List.append_assoc]
    rfl
  -- The digits of an index have no underscore, so the last one is in front of them.
  have hindex : ∀ n : Nat, '_' ∉ (toString n).toList :=
    fun n hmem => absurd ((isDigits_toString n).2 _ hmem) (by decide)
  have hlists := congrArg String.toList h
  rw [htext, htext] at hlists
  obtain ⟨hsort, hdigits⟩ := cut_last (hindex p.index) (hindex q.index) hlists
  have hnumber : p.index = q.index := by
    have hrepr : Nat.toDigits 10 p.index = Nat.toDigits 10 q.index := by
      rw [← Nat.toList_repr, ← Nat.toList_repr]
      exact hdigits
    rw [← ofDigits_toDigits p.index, hrepr, ofDigits_toDigits]
  cases p
  cases q
  simp only [Process.mk.injEq]
  exact ⟨String.toList_inj.1 hsort, hnumber⟩

/-! ## Lines -/

/-- A line without its indentation. -/
def unindented (line : String) : List Char := line.toList.dropWhile (· == ' ')

/-- The line begins with a name between quotes, and goes on with `more`. -/
def Begins (name : String) (more : List Char) (line : String) : Prop :=
  '"' ∉ name.toList ∧ unindented line = '"' :: (name.toList ++ '"' :: more)

/-- The line has an arrow between two names, with `more` behind them. -/
def Joins (source target : String) (more : List Char) (line : String) : Prop :=
  '"' ∉ target.toList ∧ Begins source (" -> ".toList ++ '"' :: (target.toList ++ '"' :: more)) line

/-- The line is an edge from one node to another. -/
def IsEdge (source target line : String) : Prop := ∃ more, Joins source target more line

/-- The line declares a node: it begins with the name of it, and no arrow follows. -/
def IsNode (name line : String) : Prop := ∃ more, Begins name more line ∧ ¬ " -> ".toList <+: more

theorem Begins.unique {name other line : String} {more rest : List Char} (h : Begins name more line)
    (h' : Begins other rest line) : name = other ∧ more = rest := by
  have hlists := (List.cons.inj (h.2.symm.trans h'.2)).2
  obtain ⟨hname, hmore⟩ := cut_first h.1 h'.1 hlists
  exact ⟨String.toList_inj.1 hname, hmore⟩

theorem Joins.unique {source target source' target' line : String} {more rest : List Char}
    (h : Joins source target more line) (h' : Joins source' target' rest line) :
    source = source' ∧ target = target' ∧ more = rest := by
  obtain ⟨hsource, hlists⟩ := h.2.unique h'.2
  have htargets := (List.cons.inj (List.append_cancel_left hlists)).2
  obtain ⟨htarget, hmore⟩ := cut_first h.1 h'.1 htargets
  exact ⟨hsource, String.toList_inj.1 htarget, hmore⟩

/-- No name is in front of a line that begins with something else than a quote. -/
theorem not_begins {line : String} (h : (unindented line).head? ≠ some '"') (name : String)
    (more : List Char) : ¬ Begins name more line := by
  intro hbegins
  exact h (by rw [hbegins.2]; rfl)

theorem Joins.not_isNode {source target name line : String} {more : List Char}
    (h : Joins source target more line) : ¬ IsNode name line := by
  rintro ⟨rest, hbegins, hrest⟩
  obtain ⟨-, rfl⟩ := hbegins.unique h.2
  exact hrest ⟨_, rfl⟩

theorem IsNode.not_isEdge {source target name line : String} (h : IsNode name line) :
    ¬ IsEdge source target line := fun ⟨_, hjoins⟩ => hjoins.not_isNode h

theorem IsNode.name_eq {name other line : String} (h : IsNode name line) (h' : IsNode other line) :
    name = other := by
  obtain ⟨_, hbegins, -⟩ := h
  obtain ⟨_, hbegins', -⟩ := h'
  exact (hbegins.unique hbegins').1

/-! ## The lines of a graph -/

namespace Model

/-- The lines of the graph of a model. -/
def dotLines (m : Model) : List String :=
  ["digraph ph \x7b", "    compound = true;"] ++ m.sorts.flatMap cluster ++
    m.actions.flatMap m.edges ++ ["\x7d"]

theorem dot_eq (m : Model) : m.dot = unlines m.dotLines := rfl

theorem toList_quoted (text : String) : (quoted text).toList = '"' :: (text.toList ++ ['"']) := by
  simp [quoted]

theorem isNode_nodeLine {p : Process} (hp : Plain p.text) : IsNode p.text (nodeLine p) := by
  refine ⟨" [label = ".toList ++ (quoted (toString p.index)).toList ++ "];".toList, ⟨hp.quote, ?_⟩, ?_⟩
  · simp [unindented, nodeLine, toList_quoted]
  · rintro ⟨more, hmore⟩
    simp at hmore

theorem joins_hit {m : Model} {a : Action} (hhitter : Plain a.hitterProcess.text)
    (htarget : Plain a.targetProcess.text) :
    Joins a.hitterProcess.text a.targetProcess.text (rateLabel (m.effectiveRate a) ++ ";").toList
      ("    " ++ quoted a.hitterProcess.text ++ " -> " ++ quoted a.targetProcess.text ++
        rateLabel (m.effectiveRate a) ++ ";") := by
  refine ⟨htarget.quote, hhitter.quote, ?_⟩
  simp [unindented, toList_quoted]

theorem joins_bounce {a : Action} (htarget : Plain a.targetProcess.text)
    (hbounce : Plain a.bounceProcess.text) :
    Joins a.targetProcess.text a.bounceProcess.text " [style = dashed];".toList
      ("    " ++ quoted a.targetProcess.text ++ " -> " ++ quoted a.bounceProcess.text ++
        " [style = dashed];") := by
  refine ⟨hbounce.quote, htarget.quote, ?_⟩
  simp [unindented, toList_quoted]

/-- The lines of a cluster in front of its nodes. -/
def opening (s : ProcessSort) : List String :=
  ["    subgraph " ++ quoted ("cluster_" ++ s.name) ++ " \x7b", "        label = " ++ quoted s.name ++ ";"]

theorem cluster_eq (s : ProcessSort) :
    cluster s = opening s ++ s.processes.map nodeLine ++ ["    \x7d"] := rfl

theorem opening_not_begins {s : ProcessSort} {line : String} (h : line ∈ opening s) (name : String)
    (more : List Char) : ¬ Begins name more line := by
  apply not_begins
  rcases List.mem_cons.1 h with rfl | h
  · simp [unindented, toList_quoted]
  · obtain rfl := List.mem_singleton.1 h
    simp [unindented, toList_quoted]

/-- The lines that are the same in every graph. -/
def frame : List String := ["digraph ph \x7b", "    compound = true;", "    \x7d", "\x7d"]

theorem frame_not_begins {line : String} (h : line ∈ frame) (name : String) (more : List Char) :
    ¬ Begins name more line := by
  apply not_begins
  simp only [frame, List.mem_cons, List.not_mem_nil, or_false] at h
  rcases h with rfl | rfl | rfl | rfl <;> decide

/-- Where the lines of a cluster come from. -/
theorem mem_cluster {s : ProcessSort} {line : String} (h : line ∈ cluster s) :
    line ∈ frame ∨ line ∈ opening s ∨ ∃ p ∈ s.processes, line = nodeLine p := by
  rw [cluster_eq, List.mem_append, List.mem_append, List.mem_map, List.mem_singleton] at h
  rcases h with (h | ⟨p, hp, rfl⟩) | rfl
  · exact .inr (.inl h)
  · exact .inr (.inr ⟨p, hp, rfl⟩)
  · exact .inl (by simp [frame])

/-- Where the lines of a graph come from. -/
theorem mem_dotLines {m : Model} {line : String} (h : line ∈ m.dotLines) :
    line ∈ frame ∨ (∃ s ∈ m.sorts, line ∈ cluster s) ∨ ∃ a ∈ m.actions, line ∈ m.edges a := by
  rw [dotLines, List.mem_append, List.mem_append, List.mem_append, List.mem_flatMap, List.mem_flatMap,
    List.mem_singleton] at h
  rcases h with ((h | h) | h) | rfl
  · exact .inl (List.mem_append_left ["    \x7d", "\x7d"] h)
  · exact .inr (.inl h)
  · exact .inr (.inr h)
  · exact .inl (by simp [frame])

/-! ## Processes of a model -/

/-- The process is one of a sort of the model. -/
def Has (m : Model) (p : Process) : Prop := ∃ s ∈ m.sorts, p ∈ s.processes

theorem plain_of_mem_processes {s : ProcessSort} {p : Process} (hs : IsName s.name.toList)
    (hp : p ∈ s.processes) : Plain p.text := by
  apply plain_text
  rwa [(ProcessSort.mem_processes.1 hp).1]

theorem Has.plain {m : Model} {p : Process} (hm : m.Legal) (h : m.Has p) : Plain p.text := by
  obtain ⟨s, hs, hp⟩ := h
  exact plain_of_mem_processes (hm.sorts s hs).1 hp

/-- The three processes of an action are processes of the model. -/
theorem has_of_mem_actions {m : Model} {a : Action} (hm : m.Legal) (ha : a ∈ m.actions) :
    m.Has a.hitterProcess ∧ m.Has a.targetProcess ∧ m.Has a.bounceProcess := by
  have hlegal := hm.actions a ha
  have hfound : ∀ {name s}, m.sorts.find? (·.name == name) = some s → s ∈ m.sorts ∧ name = s.name := by
    intro name s hfind
    have hname : s.name = name := by simpa using List.find?_some hfind
    exact ⟨List.mem_of_find?_eq_some hfind, hname.symm⟩
  obtain ⟨s, hs, hhitter⟩ := hlegal.hitter
  obtain ⟨t, ht, htarget, hbounce⟩ := hlegal.target
  obtain ⟨hs, hsname⟩ := hfound hs
  obtain ⟨ht, htname⟩ := hfound ht
  exact ⟨⟨s, hs, ProcessSort.mem_processes.2 ⟨hsname, hhitter⟩⟩,
    ⟨t, ht, ProcessSort.mem_processes.2 ⟨htname, htarget⟩⟩,
    ⟨t, ht, ProcessSort.mem_processes.2 ⟨htname, hbounce⟩⟩⟩

/-! ## Nodes and edges -/

/-- A node in a cluster is one of the processes of its sort. -/
theorem isNode_of_mem_cluster {s : ProcessSort} {name line : String} (hs : IsName s.name.toList)
    (hline : line ∈ cluster s) (h : IsNode name line) :
    ∃ p ∈ s.processes, line = nodeLine p ∧ p.text = name := by
  have ⟨more, hbegins, _⟩ := h
  rcases mem_cluster hline with hframe | hopening | ⟨p, hp, rfl⟩
  · exact absurd hbegins (frame_not_begins hframe name more)
  · exact absurd hbegins (opening_not_begins hopening name more)
  · exact ⟨p, hp, rfl, (isNode_nodeLine (plain_of_mem_processes hs hp)).name_eq h⟩

/-- The two lines of an action join its processes. -/
theorem joins_of_mem_edges {m : Model} {a : Action} {line : String} (hm : m.Legal) (ha : a ∈ m.actions)
    (hline : line ∈ m.edges a) :
    ∃ p q more, Joins p.text q.text more line ∧
      (p = a.hitterProcess ∧ q = a.targetProcess ∨ p = a.targetProcess ∧ q = a.bounceProcess) := by
  obtain ⟨hhitter, htarget, hbounce⟩ := has_of_mem_actions hm ha
  rcases List.mem_cons.1 hline with rfl | hline
  · exact ⟨_, _, _, joins_hit (hhitter.plain hm) (htarget.plain hm), .inl ⟨rfl, rfl⟩⟩
  · obtain rfl := List.mem_singleton.1 hline
    exact ⟨_, _, _, joins_bounce (htarget.plain hm) (hbounce.plain hm), .inr ⟨rfl, rfl⟩⟩

/-- Every edge belongs to an action. -/
theorem isEdge_of_mem {m : Model} {source target line : String} (hm : m.Legal)
    (hline : line ∈ m.dotLines) (h : IsEdge source target line) :
    ∃ a ∈ m.actions, ∃ p q : Process, source = p.text ∧ target = q.text ∧
      (p = a.hitterProcess ∧ q = a.targetProcess ∨ p = a.targetProcess ∧ q = a.bounceProcess) := by
  have ⟨more, hjoins⟩ := h
  rcases mem_dotLines hline with hframe | ⟨s, hs, hline⟩ | ⟨a, ha, hline⟩
  · exact absurd hjoins.2 (frame_not_begins hframe _ _)
  · rcases mem_cluster hline with hframe | hopening | ⟨p, hp, rfl⟩
    · exact absurd hjoins.2 (frame_not_begins hframe _ _)
    · exact absurd hjoins.2 (opening_not_begins hopening _ _)
    · have hnode := isNode_nodeLine (plain_of_mem_processes (hm.sorts s hs).1 hp)
      exact absurd h hnode.not_isEdge
  · obtain ⟨p, q, more', hjoins', hpq⟩ := joins_of_mem_edges hm ha hline
    obtain ⟨rfl, rfl, -⟩ := hjoins.unique hjoins'
    exact ⟨a, ha, p, q, rfl, rfl, hpq⟩

/-- Exactly one line of the graph declares the node of the process, and it stands in the cluster of
the sort of the process. -/
def DeclaredOnce (m : Model) (p : Process) : Prop :=
  ∃ s ∈ m.sorts, s.name = p.sort ∧ ∃ before inner node outer after,
    m.dotLines = before ++ cluster s ++ after ∧ cluster s = inner ++ node :: outer ∧
    IsNode p.text node ∧ ∀ line ∈ before ++ inner ++ outer ++ after, ¬ IsNode p.text line

/-- A row of clusters of other sorts does not declare the process. -/
theorem not_isNode_clusters {m : Model} {p : Process} {ss : List ProcessSort} (hm : m.Legal)
    (hss : ∀ t ∈ ss, t ∈ m.sorts ∧ t.name ≠ p.sort) {line : String} (hline : line ∈ ss.flatMap cluster) :
    ¬ IsNode p.text line := by
  intro hnode
  obtain ⟨t, ht, hline⟩ := List.mem_flatMap.1 hline
  obtain ⟨q, hq, -, htext⟩ := isNode_of_mem_cluster (hm.sorts t (hss t ht).1).1 hline hnode
  obtain rfl := Process.text_inj htext
  exact (hss t ht).2 (ProcessSort.mem_processes.1 hq).1.symm

/-- Nor do the lines of other processes of its sort. -/
theorem not_isNode_nodes {m : Model} {p : Process} {ps : List Process} (hm : m.Legal)
    (hps : ∀ q ∈ ps, m.Has q ∧ q ≠ p) {line : String} (hline : line ∈ ps.map nodeLine) :
    ¬ IsNode p.text line := by
  intro hnode
  obtain ⟨q, hq, rfl⟩ := List.mem_map.1 hline
  have htext := (isNode_nodeLine ((hps q hq).1.plain hm)).name_eq hnode
  exact (hps q hq).2 (Process.text_inj htext)

theorem not_isNode_edges {m : Model} {name line : String} (hm : m.Legal)
    (hline : line ∈ m.actions.flatMap m.edges) : ¬ IsNode name line := by
  obtain ⟨a, ha, hline⟩ := List.mem_flatMap.1 hline
  obtain ⟨p, q, more, hjoins, -⟩ := joins_of_mem_edges hm ha hline
  exact hjoins.not_isNode

theorem declaredOnce {m : Model} {p : Process} (hm : m.Legal) (hp : m.Has p) : m.DeclaredOnce p := by
  obtain ⟨s, hs, hp⟩ := hp
  obtain ⟨ss, ts, hsorts⟩ := List.append_of_mem hs
  obtain ⟨ps, qs, hprocesses⟩ := List.append_of_mem hp
  have hname : p.sort = s.name := (ProcessSort.mem_processes.1 hp).1
  -- No other sort has the name of this one, and no other process of it the index.
  have hothers : ∀ t ∈ ss ++ ts, t ∈ m.sorts ∧ t.name ≠ p.sort := by
    intro t ht
    obtain ⟨ht, hne⟩ := ne_of_mem_rest hm.distinct.of_map hsorts t ht
    refine ⟨ht, fun heq => hne ?_⟩
    exact List.inj_on_of_nodup_map hm.distinct ht hs (heq.trans hname)
  have hnodes : ∀ q ∈ ps ++ qs, m.Has q ∧ q ≠ p := by
    intro q hq
    obtain ⟨hq, hne⟩ := ne_of_mem_rest s.nodup_processes hprocesses q hq
    exact ⟨⟨s, hs, hq⟩, hne⟩
  refine ⟨s, hs, hname.symm, ["digraph ph \x7b", "    compound = true;"] ++ ss.flatMap cluster,
    opening s ++ ps.map nodeLine, nodeLine p, qs.map nodeLine ++ ["    \x7d"],
    ts.flatMap cluster ++ m.actions.flatMap m.edges ++ ["\x7d"], ?_, ?_, ?_, ?_⟩
  · rw [dotLines, hsorts]
    simp
  · rw [cluster_eq, hprocesses]
    simp
  · exact isNode_nodeLine (Has.plain hm ⟨s, hs, hp⟩)
  · intro line hline
    have hframe : line ∈ frame → ¬ IsNode p.text line :=
      fun h ⟨more, hbegins, _⟩ => frame_not_begins h _ more hbegins
    simp only [List.append_assoc, List.mem_append] at hline
    rcases hline with h | h | h | h | h | h | h | h | h
    · exact hframe (List.mem_append_left ["    \x7d", "\x7d"] h)
    · exact not_isNode_clusters hm (fun t ht => hothers t (by simp [ht])) h
    · exact fun ⟨more, hbegins, _⟩ => opening_not_begins h _ more hbegins
    · exact not_isNode_nodes hm (fun q hq => hnodes q (by simp [hq])) h
    · exact not_isNode_nodes hm (fun q hq => hnodes q (by simp [hq])) h
    · exact hframe (by simp [frame, List.mem_singleton.1 h])
    · exact not_isNode_clusters hm (fun t ht => hothers t (by simp [ht])) h
    · exact not_isNode_edges hm h
    · exact hframe (by simp [frame, List.mem_singleton.1 h])

/-! ## Reading a graph -/

/-- What an edge of an action says: who hits whom, what becomes of it, and at which rate. -/
def hit (m : Model) (a : Action) : Process × Process × Process × Rate :=
  (a.hitterProcess, a.targetProcess, a.bounceProcess, m.effectiveRate a)

theorem effectiveRate_legal {m : Model} {a : Action} (hm : m.Legal) (ha : a ∈ m.actions) :
    (m.effectiveRate a).Legal := by
  unfold effectiveRate
  cases hrate : a.rate with
  | none => exact hm.defaultRate
  | some r => exact (hm.actions a ha).rate r hrate

/-- Different rates have different labels. -/
theorem rateLabel_inj {r s : Rate} (hr : r.Legal) (hs : s.Legal)
    (h : (rateLabel r ++ ";").toList = (rateLabel s ++ ";").toList) : r = s := by
  cases r with
  | infinite =>
    cases s with
    | infinite => rfl
    | finite y => simp [rateLabel] at h
  | finite x =>
    cases s with
    | infinite => simp [rateLabel] at h
    | finite y =>
      have hlabel : ∀ x : Real64, (rateLabel (.finite x) ++ ";").toList =
          " [label = \"".toList ++ (x.text.toList ++ '"' :: [']', ';']) := by
        intro x
        simp [rateLabel, Rate.text, toList_quoted]
      rw [hlabel, hlabel] at h
      obtain ⟨htext, -⟩ := cut_first (plain_real hr).quote (plain_real hs).quote (List.append_cancel_left h)
      -- A rate is read back from its text.
      have hread := Real64.read_text hr
      rw [String.toList_inj.1 htext, Real64.read_text hs] at hread
      rw [Option.some.inj hread]

theorem edges_unique {m m' : Model} {a a' : Action} (hm : m.Legal) (hm' : m'.Legal)
    (ha : a ∈ m.actions) (ha' : a' ∈ m'.actions) {r s : List String}
    (h : m.edges a ++ r = m'.edges a' ++ s) : m.hit a = m'.hit a' ∧ r = s := by
  obtain ⟨hhitter, htarget, hbounce⟩ := has_of_mem_actions hm ha
  obtain ⟨hhitter', htarget', hbounce'⟩ := has_of_mem_actions hm' ha'
  obtain ⟨hhit, hlines⟩ := List.cons.inj h
  obtain ⟨hdashed, hrest⟩ := List.cons.inj hlines
  have hjoins := joins_hit (m := m) (hhitter.plain hm) (htarget.plain hm)
  have hjoins' := joins_bounce (htarget.plain hm) (hbounce.plain hm)
  rw [hhit] at hjoins
  rw [hdashed] at hjoins'
  obtain ⟨hsource, htext, hlabel⟩ := hjoins.unique (joins_hit (hhitter'.plain hm') (htarget'.plain hm'))
  obtain ⟨-, hdest, -⟩ := hjoins'.unique (joins_bounce (htarget'.plain hm') (hbounce'.plain hm'))
  have hrate := rateLabel_inj (effectiveRate_legal hm ha) (effectiveRate_legal hm' ha') hlabel
  refine ⟨?_, hrest⟩
  rw [hit, hit, Process.text_inj hsource, Process.text_inj htext, Process.text_inj hdest, hrate]

theorem cluster_unique {s t : ProcessSort} (hs : IsName s.name.toList) (ht : IsName t.name.toList)
    {r r' : List String} (h : cluster s ++ r = cluster t ++ r') : s = t ∧ r = r' := by
  rw [cluster_eq, cluster_eq, List.append_assoc, List.append_assoc, List.append_assoc,
    List.append_assoc] at h
  obtain ⟨hline, hlines⟩ := List.cons.inj h
  obtain ⟨-, hnodes⟩ := List.cons.inj hlines
  have hopening : ∀ s : ProcessSort,
      ("    subgraph " ++ quoted ("cluster_" ++ s.name) ++ " \x7b").toList =
        "    subgraph \"cluster_".toList ++ (s.name.toList ++ '"' :: [' ', '\x7b']) := by
    intro s
    simp [toList_quoted]
  have hchars := congrArg String.toList hline
  rw [hopening, hopening] at hchars
  obtain ⟨hname, -⟩ := cut_first (plain_of_isName hs).quote (plain_of_isName ht).quote
    (List.append_cancel_left hchars)
  -- The nodes end at the first closing line.
  have hclosing : ∀ s : ProcessSort, IsName s.name.toList → "    \x7d" ∉ s.processes.map nodeLine := by
    intro s hs hmem
    obtain ⟨p, hp, hp'⟩ := List.mem_map.1 hmem
    obtain ⟨more, hbegins, -⟩ := isNode_nodeLine (plain_of_mem_processes hs hp)
    exact frame_not_begins (by simp [frame, hp']) _ more hbegins
  obtain ⟨hprocesses, hrest⟩ := cut_first (hclosing s hs) (hclosing t ht) hnodes
  have hmax : s.max + 1 = t.max + 1 := by
    simpa [ProcessSort.processes] using congrArg List.length hprocesses
  refine ⟨?_, hrest⟩
  cases s
  cases t
  simp only [ProcessSort.mk.injEq]
  exact ⟨String.toList_inj.1 hname, by simpa using hmax⟩

/-- What follows the clusters does not begin with one. -/
theorem rest_ne_cluster {m : Model} (hm : m.Legal) (s : ProcessSort) (r : List String) :
    m.actions.flatMap m.edges ++ ["\x7d"] ≠ cluster s ++ r := by
  intro h
  have hopening := opening_not_begins (s := s) List.mem_cons_self
  cases hactions : m.actions with
  | nil =>
    rw [hactions] at h
    obtain ⟨hline, -⟩ := List.cons.inj h
    have hchars := congrArg (fun line => (unindented line).head?) hline
    simp [unindented, toList_quoted] at hchars
  | cons a as =>
    have ha : a ∈ m.actions := by simp [hactions]
    obtain ⟨hhitter, htarget, -⟩ := has_of_mem_actions hm ha
    rw [hactions] at h
    obtain ⟨hline, -⟩ := List.cons.inj h
    have hjoins := joins_hit (m := m) (hhitter.plain hm) (htarget.plain hm)
    rw [hline] at hjoins
    exact hopening _ _ hjoins.2

theorem dotLines_inj {m m' : Model} (hm : m.Legal) (hm' : m'.Legal) (h : m.dotLines = m'.dotLines) :
    m.sorts = m'.sorts ∧ m.actions.map m.hit = m'.actions.map m'.hit := by
  have hclusters : m.sorts.flatMap cluster ++ (m.actions.flatMap m.edges ++ ["\x7d"]) =
      m'.sorts.flatMap cluster ++ (m'.actions.flatMap m'.edges ++ ["\x7d"]) := by
    rw [dotLines, dotLines, List.append_assoc, List.append_assoc, List.append_assoc,
      List.append_assoc] at h
    exact List.append_cancel_left h
  obtain ⟨hsorts, hedges⟩ := map_eq_of_blocks id id
    (fun s hs t ht r r' hcut => cluster_unique (hm.sorts s hs).1 (hm'.sorts t ht).1 hcut)
    (fun s _ r => rest_ne_cluster hm s r) (fun s _ r hcut => rest_ne_cluster hm' s r hcut.symm)
    hclusters
  -- An action has two lines, and only one closes the graph.
  have hshort : ∀ (m : Model) (a : Action) (r : List String), m.edges a ++ r ≠ ["\x7d"] := by
    intro m a r hcut
    have hlength := congrArg List.length hcut
    simp [edges] at hlength
  obtain ⟨hactions, -⟩ := map_eq_of_blocks m.hit m'.hit
    (fun a ha a' ha' r s hcut => edges_unique hm hm' ha ha' hcut)
    (fun a _ r hcut => hshort m' a r hcut.symm) (fun a _ r => hshort m a r) hedges
  exact ⟨by simpa using hsorts, hactions⟩

theorem newline_notMem_frame : ∀ line ∈ frame, '\n' ∉ line.toList := by decide

theorem newline_notMem_edges {m : Model} {a : Action} {line : String} (hm : m.Legal)
    (ha : a ∈ m.actions) (hline : line ∈ m.edges a) : '\n' ∉ line.toList := by
  obtain ⟨hhitter, htarget, hbounce⟩ := has_of_mem_actions hm ha
  have hlabel : '\n' ∉ (rateLabel (m.effectiveRate a)).toList := by
    have hrate := effectiveRate_legal hm ha
    cases heffective : m.effectiveRate a with
    | infinite => simp [rateLabel]
    | finite x =>
      rw [heffective] at hrate
      simp [rateLabel, toList_quoted, Rate.text, (plain_real hrate).newline]
  rcases List.mem_cons.1 hline with rfl | hline
  · simp [toList_quoted, hlabel, (hhitter.plain hm).newline, (htarget.plain hm).newline]
  · obtain rfl := List.mem_singleton.1 hline
    simp [toList_quoted, (htarget.plain hm).newline, (hbounce.plain hm).newline]

theorem newline_notMem_cluster {s : ProcessSort} {line : String} (hs : IsName s.name.toList)
    (hline : line ∈ cluster s) : '\n' ∉ line.toList := by
  have hname : '\n' ∉ s.name.toList := (plain_of_isName hs).newline
  rcases mem_cluster hline with hframe | hopening | ⟨p, hp, rfl⟩
  · exact newline_notMem_frame line hframe
  · rcases List.mem_cons.1 hopening with rfl | hopening
    · simp [toList_quoted, hname]
    · obtain rfl := List.mem_singleton.1 hopening
      simp [toList_quoted, hname]
  · have hplain := plain_of_mem_processes hs hp
    have hindex : '\n' ∉ Nat.toDigits 10 p.index := by
      simpa using (plain_toString p.index).newline
    simp [nodeLine, toList_quoted, hplain.newline, hindex]

/-- Each line of a graph stands on one line of its text. -/
theorem newline_notMem_dotLines {m : Model} (hm : m.Legal) :
    ∀ line ∈ m.dotLines, '\n' ∉ line.toList := by
  intro line hline
  rcases mem_dotLines hline with hframe | ⟨s, hs, hline⟩ | ⟨a, ha, hline⟩
  · exact newline_notMem_frame line hframe
  · exact newline_notMem_cluster (hm.sorts s hs).1 hline
  · exact newline_notMem_edges hm ha hline

/-- **The graph of a model is faithful.** Take a model that was read. Its names stand between quotes as
they are, and each end of an edge is a process of an action that is declared once, in the cluster of
its sort. And every model that was read and has the same graph has the same sorts and the same hits. -/
theorem dot_faithful (text : String) (m : Model) (logs : List LogRecord)
    (hsize : text.utf8ByteSize < 2 ^ 63) (h : parse text = .ok (.ok m, logs)) :
    (m.dot = unlines m.dotLines ∧ ∀ line ∈ m.dotLines, '\n' ∉ line.toList) ∧
    (∀ s ∈ m.sorts, Plain s.name ∧ ∀ p ∈ s.processes, Plain p.text) ∧
    (∀ line ∈ m.dotLines, ∀ source target, IsEdge source target line →
      ∃ a ∈ m.actions, ∃ p q : Process, source = p.text ∧ target = q.text ∧
        (p = a.hitterProcess ∧ q = a.targetProcess ∨ p = a.targetProcess ∧ q = a.bounceProcess) ∧
        m.DeclaredOnce p ∧ m.DeclaredOnce q) ∧
    ∀ text' m' logs', text'.utf8ByteSize < 2 ^ 63 → parse text' = .ok (.ok m', logs') →
      m.dot = m'.dot → m.sorts = m'.sorts ∧ m.actions.map m.hit = m'.actions.map m'.hit := by
  have hm : m.Legal := legal_of_parse (fits_toList hsize) h
  refine ⟨⟨m.dot_eq, newline_notMem_dotLines hm⟩, ?_, ?_, ?_⟩
  · intro s hs
    exact ⟨plain_of_isName (hm.sorts s hs).1, fun p hp => Has.plain hm ⟨s, hs, hp⟩⟩
  · intro line hline source target hedge
    obtain ⟨a, ha, p, q, rfl, rfl, hpq⟩ := isEdge_of_mem hm hline hedge
    obtain ⟨hhitter, htarget, hbounce⟩ := has_of_mem_actions hm ha
    refine ⟨a, ha, p, q, rfl, rfl, hpq, ?_⟩
    rcases hpq with ⟨rfl, rfl⟩ | ⟨rfl, rfl⟩
    · exact ⟨declaredOnce hm hhitter, declaredOnce hm htarget⟩
    · exact ⟨declaredOnce hm htarget, declaredOnce hm hbounce⟩
  · intro text' m' logs' hsize' h' hdot
    have hm' : m'.Legal := legal_of_parse (fits_toList hsize') h'
    rw [dot_eq, dot_eq] at hdot
    exact dotLines_inj hm hm'
      (unlines_inj (newline_notMem_dotLines hm) (newline_notMem_dotLines hm') hdot)

/-- The process `a_1` of the sort `a` next to a sort `a_1`. The rate of one half is that of the action in
one model, and the default in the other, with the same graph. -/
theorem dot_faithful_underscore :
    ∃ m m' logs logs', parse "process a_1 1 process a 1 a 1 -> a_1 0 1 @.5" = .ok (.ok m, logs) ∧
      parse "directive default_rate .5 process a_1 1 process a 1 a 1 -> a_1 0 1" = .ok (.ok m', logs') ∧
      m ≠ m' ∧ m.DeclaredOnce ⟨"a", 1⟩ ∧ m.DeclaredOnce ⟨"a_1", 0⟩ ∧ m.dot = m'.dot ∧
      m.sorts = m'.sorts ∧ m.actions.map m.hit = m'.actions.map m'.hit := by
  let half : Rate := .finite ⟨4602678819172646912⟩
  let sorts : List ProcessSort := [⟨"a_1", 1⟩, ⟨"a", 1⟩]
  let m : Model := { sorts, actions := [⟨"a", 1, "a_1", 0, 1, some half, none⟩] }
  let m' : Model := { defaultRate := half, sorts, actions := [⟨"a", 1, "a_1", 0, 1, none, none⟩] }
  have hparse : parse "process a_1 1 process a 1 a 1 -> a_1 0 1 @.5" =
      .ok (.ok m, [⟨.debug, "parsed 3 statements"⟩]) := by decide +kernel
  have hparse' : parse "directive default_rate .5 process a_1 1 process a 1 a 1 -> a_1 0 1" =
      .ok (.ok m', [⟨.debug, "parsed 4 statements"⟩]) := by decide +kernel
  have hdot : m.dot = m'.dot := by decide +kernel
  obtain ⟨-, -, hedges, hsame⟩ := dot_faithful _ m _ (by decide) hparse
  have hedge : IsEdge "a_1" "a_1_0" "    \"a_1\" -> \"a_1_0\" [label = \"0.5\"];" :=
    ⟨_, by decide, by decide, rfl⟩
  obtain ⟨a, ha, p, q, hp, hq, -, hsource, htarget⟩ := hedges _ (by decide +kernel) _ _ hedge
  obtain rfl : p = ⟨"a", 1⟩ := Process.text_inj (q := ⟨"a", 1⟩) hp.symm
  obtain rfl : q = ⟨"a_1", 0⟩ := Process.text_inj (q := ⟨"a_1", 0⟩) hq.symm
  obtain ⟨hsorts, hhits⟩ := hsame _ m' _ (by decide) hparse' hdot
  exact ⟨m, m', _, _, hparse, hparse', by decide, hsource, htarget, hdot, hsorts, hhits⟩

end Model

end Pegwork.Hitting
