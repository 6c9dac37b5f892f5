import Pegwork.Number.Shortest
import Pegwork.Size

/-!
# Process-hitting models

A model has named sorts, each with processes numbered from zero to `max`, and actions: one process
hits another, which bounces to a third of its own sort.
-/

namespace Pegwork.Hitting

open Pegwork.Number

/-! ## Rates -/

/-- A floating-point number of 64 bits. -/
structure Real64 where
  /-- The bits of the number. -/
  bits : Nat
  deriving DecidableEq, Repr

namespace Real64

/-- The number a text stands for. -/
def read (text : String) : Option Real64 :=
  (readNumeral text).map fun n => ⟨Format.double.ofNumeral n⟩

/-- All digits that are needed and no others, never with an exponent. -/
def text (x : Real64) : String := Format.double.text .plain x.bits

/-- Whether the number is greater than zero and not infinite. -/
def isPositive (x : Real64) : Bool := 0 < x.bits && x.bits < Format.double.infinity

end Real64

/-- How fast an action fires. -/
inductive Rate where
  /-- At a finite rate. -/
  | finite (value : Real64)
  /-- At once. -/
  | infinite
  deriving DecidableEq, Repr

/-- A rate as it is written in a model file. -/
def Rate.text : Rate → String
  | finite value => value.text
  | infinite => "Inf"

/-! ## Processes and actions -/

/-- A process: one state of a sort. -/
structure Process where
  sort : String
  index : Nat
  deriving DecidableEq, Repr

/-- The name of a process. -/
def Process.text (p : Process) : String := p.sort ++ "_" ++ toString p.index

/-- A named component with processes from zero to `max`. -/
structure ProcessSort where
  name : String
  max : Nat
  deriving DecidableEq, Repr

/-- The processes of a sort in order. -/
def ProcessSort.processes (s : ProcessSort) : List Process :=
  (List.range (s.max + 1)).map (⟨s.name, ·⟩)

/-- The processes of a sort are those of its name that are numbered up to its greatest index. -/
theorem ProcessSort.mem_processes {s : ProcessSort} {p : Process} :
    p ∈ s.processes ↔ p.sort = s.name ∧ p.index ≤ s.max := by
  obtain ⟨sort, index⟩ := p
  simp only [processes, List.mem_map, List.mem_range, Process.mk.injEq, Nat.lt_succ_iff]
  constructor
  · rintro ⟨i, hi, rfl, rfl⟩
    exact ⟨rfl, hi⟩
  · rintro ⟨rfl, hindex⟩
    exact ⟨index, hindex, rfl, rfl⟩

/-- No process of a sort comes twice. -/
theorem ProcessSort.nodup_processes (s : ProcessSort) : s.processes.Nodup :=
  List.pairwise_map.2 (List.nodup_range.imp fun hne heq => hne (congrArg Process.index heq))

/-- The number of processes of a sort. -/
def ProcessSort.size (s : ProcessSort) : Except Halt Nat := Size.add s.max 1

/-- An action: the hitter hits the target, which bounces to another process of its sort. -/
structure Action where
  hitterSort : String
  hitter : Nat
  targetSort : String
  target : Nat
  bounce : Nat
  /-- The rate, if it is not the default of the model. -/
  rate : Option Rate
  /-- The stochasticity absorption, if it is not that of the model. -/
  stochasticity : Option Nat
  deriving DecidableEq, Repr

namespace Action

/-- The process that hits. -/
def hitterProcess (a : Action) : Process := ⟨a.hitterSort, a.hitter⟩

/-- The process that is hit. -/
def targetProcess (a : Action) : Process := ⟨a.targetSort, a.target⟩

/-- The process that the target becomes. -/
def bounceProcess (a : Action) : Process := ⟨a.targetSort, a.bounce⟩

end Action

/-! ## Models -/

/-- A process-hitting model. -/
structure Model where
  /-- The rate of actions without one of their own. -/
  defaultRate : Rate := .infinite
  /-- The stochasticity absorption of actions without one of their own. -/
  absorption : Nat := 1
  /-- The sorts in the order of their declarations. -/
  sorts : List ProcessSort := []
  /-- The actions in order. -/
  actions : List Action := []
  deriving DecidableEq, Repr

namespace Model

/-- The sort with a given name. -/
def sort? (m : Model) (name : String) : Option ProcessSort := m.sorts.find? (·.name == name)

/-- The number of all processes. -/
def processCount (m : Model) : Except Halt Nat :=
  m.sorts.foldlM (fun total s => do Size.add total (← s.size)) 0

/-- The rate of an action: its own or the default. -/
def effectiveRate (m : Model) (a : Action) : Rate := a.rate.getD m.defaultRate

/-- The actions whose hitter is a given process, in order. -/
def hitsFrom (m : Model) (p : Process) : List Action := m.actions.filter (·.hitterProcess == p)

end Model

end Pegwork.Hitting
