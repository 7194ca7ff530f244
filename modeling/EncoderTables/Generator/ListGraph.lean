import EncoderTables.Generator.Schedule

/-!
# Graphs as lists

A library of graphs that keeps the nodes and the edges of a graph in lists. Its graphs are sorted
node by node: of the nodes to which no edge leads from a node that is left, the one of the least
key is next. A graph has a cycle when nodes are left at the end.
-/

namespace EncoderTables.Generator

/-- A graph as the list of its nodes and the list of its edges, which join nodes. -/
structure ListGraph where
  nodes : List String
  edges : List (String × String)
  distinct : nodes.Nodup
  joined : ∀ edge ∈ edges, edge.1 ∈ nodes ∧ edge.2 ∈ nodes

namespace ListGraph

/-- A graph without nodes. -/
def empty : ListGraph := ⟨[], [], List.nodup_nil, by simp⟩

/-- Add a node, unless it is there already. -/
def addNode (graph : ListGraph) (name : String) : ListGraph :=
  if known : name ∈ graph.nodes then graph
  else
    { nodes := graph.nodes ++ [name]
      edges := graph.edges
      distinct := by
        refine List.nodup_append.mpr ⟨graph.distinct, by simp, fun other inside last final => ?_⟩
        cases List.mem_singleton.mp final
        exact fun same => known (same ▸ inside)
      joined := fun edge listed =>
        (graph.joined edge listed).imp (List.mem_append_left _) (List.mem_append_left _) }

/-- The nodes of a graph with a further one. -/
theorem mem_addNode {graph : ListGraph} {name other : String} :
    other ∈ (graph.addNode name).nodes ↔ other = name ∨ other ∈ graph.nodes := by
  unfold addNode
  split
  · next known =>
    constructor
    · exact Or.inr
    · rintro (rfl | inside)
      · exact known
      · exact inside
  · simp [or_comm]

/-- A further node has no edges. -/
theorem edges_addNode (graph : ListGraph) (name : String) :
    (graph.addNode name).edges = graph.edges := by
  unfold addNode
  split <;> rfl

/-- Add an edge, and its ends if they are not there. -/
def addEdge (graph : ListGraph) (source target : String) : ListGraph :=
  let joined := (graph.addNode source).addNode target
  { nodes := joined.nodes
    edges := graph.edges ++ [(source, target)]
    distinct := joined.distinct
    joined := by
      intro edge listed
      rw [mem_addNode, mem_addNode, mem_addNode, mem_addNode]
      rcases List.mem_append.mp listed with former | new
      · have ends := graph.joined edge former
        exact ⟨Or.inr (Or.inr ends.1), Or.inr (Or.inr ends.2)⟩
      · cases List.mem_singleton.mp new
        exact ⟨Or.inr (Or.inl rfl), Or.inl rfl⟩ }

/-- The nodes of a graph with a further edge. -/
theorem mem_addEdge {graph : ListGraph} {source target name : String} :
    name ∈ (graph.addEdge source target).nodes ↔
      name = source ∨ name = target ∨ name ∈ graph.nodes := by
  rw [addEdge, mem_addNode, mem_addNode]
  exact or_left_comm

/-- No edge leads to a node from one that is left. -/
def isFree (graph : ListGraph) (left : List String) (name : String) : Bool :=
  graph.edges.all fun edge => edge.2 != name || !left.contains edge.1

/-- The first of the nodes of the least key. -/
def least? (key : String → Nat) : List String → Option String
  | [] => none
  | name :: rest =>
    match least? key rest with
    | some other => if key other < key name then some other else some name
    | none => some name

/-- The least node belongs to those that it is chosen from. -/
theorem mem_of_least? {key : String → Nat} {names : List String} {name : String}
    (found : least? key names = some name) : name ∈ names := by
  induction names generalizing name with
  | nil => cases found
  | cons first rest inductionHypothesis =>
    rw [least?] at found
    split at found
    · next other later =>
      split at found
      · exact List.mem_cons_of_mem _ (inductionHypothesis (later.trans found))
      · cases found
        exact List.mem_cons_self
    · cases found
      exact List.mem_cons_self

/-- The nodes that are left, as far as they can be sorted. -/
def sortFrom (graph : ListGraph) (key : String → Nat) (left : List String) : List String :=
  match _found : least? key (left.filter (graph.isFree left)) with
  | some name => name :: graph.sortFrom key (left.erase name)
  | none => []
  termination_by left.length
  decreasing_by
    have member := (List.mem_filter.mp (mem_of_least? _found)).1
    have shorter := List.length_erase_of_mem member
    have nonempty := List.length_pos_of_mem member
    omega

/-- The nodes of a graph, as far as they can be sorted. -/
def sorted (graph : ListGraph) (key : String → Nat) : List String :=
  graph.sortFrom key graph.nodes

/-- All nodes can be sorted. -/
def isAcyclic (graph : ListGraph) : Bool :=
  (graph.sorted fun _ => 0).length == graph.nodes.length

end ListGraph

/-- The library of graphs as lists. -/
def listGraphs : Graphs where
  Graph := ListGraph
  empty := ListGraph.empty
  addNode := ListGraph.addNode
  addEdge := ListGraph.addEdge
  hasNode graph name := graph.nodes.contains name
  hasEdge graph source target := graph.edges.contains (source, target)
  isAcyclic := ListGraph.isAcyclic
  sorted := ListGraph.sorted

end EncoderTables.Generator
