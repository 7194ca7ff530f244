import EncoderTables.Failure

/-!
# Schedules

Declared steps are put into an order in which each follows those it needs; of several that could
come next, the one declared first does. The needs are the edges of a directed graph, and the order
is a sorting of its nodes. How graphs are kept, tested for cycles and sorted is left to a library
of graphs, which is a parameter of the schedule.
-/

namespace EncoderTables.Generator

/-- A declared step with the names of the steps it needs. -/
abbrev Declared := String × List String

/-- A library of directed graphs whose nodes are names. -/
structure Graphs where
  Graph : Type
  empty : Graph
  addNode : Graph → String → Graph
  /-- Add an edge from one node to another, and these if they are not there. -/
  addEdge : Graph → String → String → Graph
  hasNode : Graph → String → Bool
  hasEdge : Graph → String → String → Bool
  isAcyclic : Graph → Bool
  /-- The nodes, each behind those that have an edge to it. The key resolves ambiguities. -/
  sorted : Graph → (String → Nat) → List String

namespace Schedule

/-- Declare a step; a repeated declaration replaces the earlier one in its place. -/
def declare (step : Declared) : List Declared → List Declared
  | [] => [step]
  | first :: rest => if first.1 = step.1 then step :: rest else first :: declare step rest

/-- The distinct declarations in order. -/
def declarations (steps : List Declared) : List Declared :=
  steps.foldl (fun known step => declare step known) []

/-- Refuse the first need that no declaration meets. -/
def checkNeeds (known : List String) : List Declared → Except Failure Unit
  | [] => .ok ()
  | (name, needs) :: rest =>
    match needs.find? fun need => !known.contains need with
    | some need => refuse (.unknownDependency name need)
    | none => checkNeeds known rest

/-- The graph of declared steps: an edge leads from each need to the step that needs it. -/
def graphOf (graphs : Graphs) (known : List Declared) : graphs.Graph :=
  known.foldl
    (fun graph step => step.2.foldl (fun graph need => graphs.addEdge graph need step.1) graph)
    (known.foldl (fun graph step => graphs.addNode graph step.1) graphs.empty)

/-- The order of declared steps in which each follows those it needs. -/
def order (graphs : Graphs) (steps : List Declared) : Except Failure (List String) := do
  let known := declarations steps
  let names := known.map (·.1)
  checkNeeds names known
  let graph := graphOf graphs known
  if graphs.isAcyclic graph then return graphs.sorted graph fun name => names.idxOf name
  else refuse .circularPhases

end Schedule

end EncoderTables.Generator
