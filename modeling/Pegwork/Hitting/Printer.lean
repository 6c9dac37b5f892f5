import Pegwork.Hitting.Model

/-!
# Renderings of models

A model can be written as the text of a model file, as a graph for Graphviz, and as a short summary of
its size.
-/

namespace Pegwork.Hitting

/-- Lines of text, each ended by a newline. -/
def unlines (lines : List String) : String := String.join (lines.map (· ++ "\n"))

/-! ## Model files -/

/-- An action as a statement. -/
def Action.statement (a : Action) : String :=
  s!"{a.hitterSort} {a.hitter} -> {a.targetSort} {a.target} {a.bounce}" ++
    (match a.rate with
      | some rate => " @" ++ rate.text
      | none => "") ++
    (match a.stochasticity with
      | some n => "~" ++ toString n
      | none => "")

/-- A sort as a statement. -/
def ProcessSort.statement (s : ProcessSort) : String := s!"process {s.name} {s.max}"

/-- Lines after an empty one, if there are any. -/
def paragraph (lines : List String) : List String := if lines.isEmpty then [] else "" :: lines

namespace Model

/-- The model as the text of a model file. -/
def text (m : Model) : String :=
  unlines (
    [ "directive default_rate " ++ m.defaultRate.text,
      "directive stochasticity_absorption " ++ toString m.absorption ] ++
    paragraph (m.sorts.map ProcessSort.statement) ++
    paragraph (m.actions.map Action.statement))

/-! ## Graphs -/

/-- A text between double quotes. -/
def quoted (s : String) : String := "\"" ++ s ++ "\""

/-- The node of a process. -/
def nodeLine (p : Process) : String :=
  "        " ++ quoted p.text ++ " [label = " ++ quoted (toString p.index) ++ "];"

/-- The cluster of a sort: its label and its processes. -/
def cluster (s : ProcessSort) : List String :=
  [ "    subgraph " ++ quoted ("cluster_" ++ s.name) ++ " \x7b",
    "        label = " ++ quoted s.name ++ ";" ] ++
  s.processes.map nodeLine ++ ["    \x7d"]

/-- The label of a hit with a given rate. An infinite rate has none. -/
def rateLabel : Rate → String
  | .infinite => ""
  | rate => " [label = " ++ quoted rate.text ++ "]"

/-- The edges of an action: a solid one for the hit and a dashed one for the bounce. -/
def edges (m : Model) (a : Action) : List String :=
  [ "    " ++ quoted a.hitterProcess.text ++ " -> " ++ quoted a.targetProcess.text ++
      rateLabel (m.effectiveRate a) ++ ";",
    "    " ++ quoted a.targetProcess.text ++ " -> " ++ quoted a.bounceProcess.text ++
      " [style = dashed];" ]

/-- The model as a graph: a cluster for each sort, then the edges of each action. -/
def dot (m : Model) : String :=
  unlines (["digraph ph \x7b", "    compound = true;"] ++ m.sorts.flatMap cluster ++
    m.actions.flatMap m.edges ++ ["\x7d"])

/-! ## Summaries -/

/-- How many actions have a hitter of a given sort. -/
def hitCount (m : Model) (s : ProcessSort) : Nat :=
  (m.actions.filter (·.hitterSort == s.name)).length

/-- The line of a sort in the summary. -/
def sortLine (m : Model) (s : ProcessSort) : Except Halt String := do
  let size ← s.size
  return s!"  {s.name}: {size} processes, hits {m.hitCount s} times"

/-- A short description of the size of the model. -/
def summary (m : Model) : Except Halt String := do
  let count ← m.processCount
  let sortLines ← m.sorts.mapM m.sortLine
  return unlines (
    [ s!"{m.sorts.length} sorts, {count} processes, {m.actions.length} actions",
      "default rate: " ++ m.defaultRate.text,
      s!"stochasticity absorption: {m.absorption}" ] ++ sortLines)

end Model

end Pegwork.Hitting
