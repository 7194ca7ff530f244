import EncoderTables.Generator.ListGraph
import Mathlib.Data.Fintype.Card
import Mathlib.Data.Fintype.EquivFin
import Mathlib.Data.Fintype.Sets
import Mathlib.Data.List.Nodup
import Mathlib.Logic.Relation
import Mathlib.Order.WellFounded

/-!
# Graphs

What a library of graphs is documented to do, and that the one which keeps graphs in lists does it:
a sorting holds each node once, behind those that have an edge to it; it exists unless a node can be
reached from itself; and of several nodes that could come next, it takes one of the least key.
-/

namespace EncoderTables.Generator

/-! ### Edges in lists of nodes -/

section Edges

variable {edge : String → String → Prop} {names : List String}

/-- When all edges lead forward in a list of nodes, no node can be reached from itself. -/
theorem acyclic_of_forward (distinct : names.Nodup)
    (listed : ∀ source target, edge source target → target ∈ names)
    (forward : ∀ before name behind, names = before ++ name :: behind →
      ∀ source, edge source name → source ∈ before) (name : String) :
    ¬ Relation.TransGen edge name name := by
  have single {source target : String} (leads : edge source target) :
      names.idxOf source < names.idxOf target := by
    obtain ⟨before, behind, rfl⟩ := List.append_of_mem (listed source target leads)
    have early := forward before target behind rfl source leads
    have new : target ∉ before := fun member =>
      (List.nodup_append.mp distinct).2.2 target member target List.mem_cons_self rfl
    rw [List.idxOf_append_of_mem early, List.idxOf_append_of_notMem new, List.idxOf_cons_self]
    exact Nat.lt_of_lt_of_le (List.idxOf_lt_length_of_mem early) (Nat.le_add_right _ _)
  have all {source target : String} (leads : Relation.TransGen edge source target) :
      names.idxOf source < names.idxOf target := by
    induction leads with
    | single leads => exact single leads
    | tail _ leads inductionHypothesis => exact inductionHypothesis.trans (single leads)
  exact fun leads => Nat.lt_irrefl _ (all leads)

/-- Among finitely many nodes of which each has an edge from one of them, one can be reached from
itself. -/
theorem exists_cycle (filled : names ≠ [])
    (each : ∀ name ∈ names, ∃ source ∈ names, edge source name) :
    ∃ name, Relation.TransGen edge name name := by
  by_contra none
  have acyclic : ∀ name, ¬ Relation.TransGen edge name name := by simpa using none
  let leads (source target : { name // name ∈ names }) : Prop :=
    Relation.TransGen edge source.1 target.1
  have : IsTrans _ leads := ⟨fun _ _ _ first second => first.trans second⟩
  have : Std.Irrefl leads := ⟨fun name => acyclic name.1⟩
  -- No edge leads to the first one, but one of them has an edge to it.
  obtain ⟨some, member⟩ := List.exists_mem_of_ne_nil _ filled
  obtain ⟨first, -, least⟩ := (Finite.wellFounded_of_trans_of_irrefl leads).has_min Set.univ
    ⟨⟨some, member⟩, trivial⟩
  obtain ⟨source, listed, own⟩ := each first.1 first.2
  exact least ⟨source, listed⟩ trivial (.single own)

end Edges

/-! ### What is documented -/

namespace Graphs

variable (graphs : Graphs)

/-- A list holds each node of a graph once, behind those that have an edge to it. -/
structure IsSorting (graph : graphs.Graph) (names : List String) : Prop where
  distinct : names.Nodup
  complete : ∀ name, name ∈ names ↔ graphs.hasNode graph name = true
  forward : ∀ before name behind, names = before ++ name :: behind →
    ∀ source, graphs.hasEdge graph source name = true → source ∈ before

/-- A library of graphs does what it is documented to do. -/
structure Documented : Prop where
  hasNode_empty : ∀ name, graphs.hasNode graphs.empty name = false
  hasEdge_empty : ∀ source target, graphs.hasEdge graphs.empty source target = false
  hasNode_addNode : ∀ graph name other, graphs.hasNode (graphs.addNode graph name) other = true ↔
    other = name ∨ graphs.hasNode graph other = true
  hasEdge_addNode : ∀ graph name source target,
    graphs.hasEdge (graphs.addNode graph name) source target = graphs.hasEdge graph source target
  /-- An edge comes with its ends. -/
  hasNode_addEdge : ∀ graph source target name,
    graphs.hasNode (graphs.addEdge graph source target) name = true ↔
      name = source ∨ name = target ∨ graphs.hasNode graph name = true
  hasEdge_addEdge : ∀ graph source target first second,
    graphs.hasEdge (graphs.addEdge graph source target) first second = true ↔
      (first = source ∧ second = target) ∨ graphs.hasEdge graph first second = true
  isAcyclic_iff : ∀ graph, graphs.isAcyclic graph = true ↔
    ∀ name, ¬ Relation.TransGen (fun source target => graphs.hasEdge graph source target = true)
      name name
  sorted_isSorting : ∀ graph key, graphs.isAcyclic graph = true →
    graphs.IsSorting graph (graphs.sorted graph key)
  /-- The key decides between a node and another one that could stand in its place. -/
  sorted_resolved : ∀ graph key, graphs.isAcyclic graph = true → ∀ before name behind,
    graphs.sorted graph key = before ++ name :: behind → ∀ other ∈ behind,
      (∀ source, graphs.hasEdge graph source other = true → source ∈ before) → key name ≤ key other

end Graphs

/-! ### Graphs as lists -/

namespace ListGraph

variable {graph : ListGraph} {key : String → Nat} {left : List String}

/-- A node is free when the nodes with an edge to it are not left. -/
theorem isFree_iff {name : String} :
    graph.isFree left name = true ↔ ∀ source, (source, name) ∈ graph.edges → source ∉ left := by
  simp only [isFree, List.all_eq_true, Bool.or_eq_true, bne_iff_ne, Bool.not_eq_true',
    List.contains_eq_mem, decide_eq_false_iff_not, Prod.forall]
  constructor
  · intro free source leads
    exact (free source name leads).resolve_left fun other => other rfl
  · intro free source target leads
    by_cases same : target = name
    · exact Or.inr (free source (same ▸ leads))
    · exact Or.inl same

/-- There is a least node unless there is none. -/
theorem least?_eq_none {names : List String} : least? key names = none ↔ names = [] := by
  cases names with
  | nil => simp [least?]
  | cons first rest =>
    rw [least?]
    split
    · split <;> simp
    · simp

/-- The least node has the least key. -/
theorem least?_le {names : List String} {name other : String}
    (found : least? key names = some name) (member : other ∈ names) : key name ≤ key other := by
  induction names generalizing name with
  | nil => cases member
  | cons first rest inductionHypothesis =>
    rw [least?] at found
    split at found
    · next least later =>
      have below (inside : other ∈ rest) : key least ≤ key other := inductionHypothesis later inside
      split at found
      · next less =>
        cases found
        exact (List.mem_cons.mp member).elim (fun same => same ▸ Nat.le_of_lt less) below
      · next less =>
        cases found
        have own := Nat.le_of_not_lt less
        exact (List.mem_cons.mp member).elim (fun same => same ▸ Nat.le_refl _)
          fun inside => own.trans (below inside)
    · next empty =>
      cases found
      rw [least?_eq_none] at empty
      subst empty
      cases List.mem_singleton.mp member
      exact Nat.le_refl _

/-- What is taken first is one of the nodes that are left. -/
theorem mem_of_taken {name : String}
    (found : least? key (left.filter (graph.isFree left)) = some name) : name ∈ left :=
  (List.mem_filter.mp (mem_of_least? found)).1

/-- Nodes are sorted once each. -/
theorem sortFrom_nodup (distinct : left.Nodup) :
    (graph.sortFrom key left).Nodup ∧ ∀ name ∈ graph.sortFrom key left, name ∈ left := by
  fun_induction sortFrom graph key left with
  | case1 left name found inductionHypothesis =>
    obtain ⟨others, inside⟩ := inductionHypothesis (distinct.erase name)
    refine ⟨List.nodup_cons.mpr ⟨fun again => ?_, others⟩, ?_⟩
    · exact (distinct.mem_erase_iff.mp (inside name again)).1 rfl
    · exact List.forall_mem_cons.mpr
        ⟨mem_of_taken found, fun other member => List.mem_of_mem_erase (inside other member)⟩
  | case2 => exact ⟨List.nodup_nil, by simp⟩

/-- A node is sorted when those with an edge to it are, and no other node that could have been
taken in its place has a lesser key. -/
theorem sortFrom_split (distinct : left.Nodup) {before behind : List String} {name : String}
    (split : graph.sortFrom key left = before ++ name :: behind) :
    (∀ source, (source, name) ∈ graph.edges → source ∈ left → source ∈ before) ∧
      ∀ other ∈ left, other ∉ before →
        (∀ source, (source, other) ∈ graph.edges → source ∈ left → source ∈ before) →
          key name ≤ key other := by
  fun_induction sortFrom graph key left generalizing before with
  | case1 left first found inductionHypothesis =>
    cases before with
    | nil =>
      obtain ⟨rfl, -⟩ := List.cons.inj split
      have free := isFree_iff.mp (List.mem_filter.mp (mem_of_least? found)).2
      refine ⟨fun source leads waits => absurd waits (free source leads), ?_⟩
      intro other member _ alsoFree
      refine least?_le found (List.mem_filter.mpr ⟨member, isFree_iff.mpr ?_⟩)
      exact fun source leads waits => List.not_mem_nil (alsoFree source leads waits)
    | cons head before =>
      obtain ⟨rfl, rest⟩ := List.cons.inj split
      obtain ⟨early, least⟩ := inductionHypothesis (distinct.erase first) rest
      -- What is left is what was left without the first one.
      have taken {source : String} (waits : source ∈ left) :
          source = first ∨ source ∈ left.erase first := by
        by_cases same : source = first
        · exact Or.inl same
        · exact Or.inr ((List.mem_erase_of_ne same).mpr waits)
      refine ⟨fun source leads waits => ?_, fun other member new free => ?_⟩
      · rcases taken waits with rfl | later
        · exact List.mem_cons_self
        · exact List.mem_cons_of_mem _ (early source leads later)
      · rw [List.mem_cons, not_or] at new
        have inside := (List.mem_erase_of_ne new.1).mpr member
        refine least other inside new.2 fun source leads waits => ?_
        obtain ⟨differs, listed⟩ := distinct.mem_erase_iff.mp waits
        exact (List.mem_cons.mp (free source leads listed)).resolve_left differs
  | case2 => simp at split

/-- A node that is never sorted has an edge from another such node. -/
theorem exists_stuck (distinct : left.Nodup) {name : String} (member : name ∈ left)
    (stuck : name ∉ graph.sortFrom key left) :
    ∃ source ∈ left, source ∉ graph.sortFrom key left ∧ (source, name) ∈ graph.edges := by
  fun_induction sortFrom graph key left with
  | case1 left first found inductionHypothesis =>
    rw [List.mem_cons, not_or] at stuck
    obtain ⟨source, inside, also, leads⟩ := inductionHypothesis (distinct.erase first)
      ((List.mem_erase_of_ne stuck.1).mpr member) stuck.2
    obtain ⟨differs, waits⟩ := distinct.mem_erase_iff.mp inside
    exact ⟨source, waits, fun taken => (List.mem_cons.mp taken).elim differs also, leads⟩
  | case2 left empty =>
    rw [least?_eq_none, List.filter_eq_nil_iff] at empty
    have waits := empty name member
    rw [isFree_iff] at waits
    push Not at waits
    obtain ⟨source, leads, inside⟩ := waits
    exact ⟨source, inside, List.not_mem_nil, leads⟩

/-- There are edges from one node to another. -/
def Leads (graph : ListGraph) (source target : String) : Prop := (source, target) ∈ graph.edges

/-- When no node can be reached from itself, all nodes are sorted. -/
theorem mem_sorted (acyclic : ∀ name, ¬ Relation.TransGen graph.Leads name name) (name : String) :
    name ∈ graph.sorted key ↔ name ∈ graph.nodes := by
  refine ⟨(sortFrom_nodup graph.distinct).2 name, fun member => ?_⟩
  by_contra stuck
  have each : ∀ other ∈ graph.nodes.filter (· ∉ graph.sorted key),
      ∃ source ∈ graph.nodes.filter (· ∉ graph.sorted key), graph.Leads source other := by
    intro other listed
    rw [List.mem_filter, decide_eq_true_eq] at listed
    obtain ⟨source, inside, also, leads⟩ := exists_stuck graph.distinct listed.1 listed.2
    exact ⟨source, List.mem_filter.mpr ⟨inside, decide_eq_true also⟩, leads⟩
  obtain ⟨around, cycle⟩ := exists_cycle
    (List.ne_nil_of_mem (List.mem_filter.mpr ⟨member, decide_eq_true stuck⟩)) each
  exact acyclic around cycle

/-- All nodes can be sorted exactly when none can be reached from itself. -/
theorem isAcyclic_iff :
    graph.isAcyclic = true ↔ ∀ name, ¬ Relation.TransGen graph.Leads name name := by
  obtain ⟨distinct, inside⟩ := @sortFrom_nodup graph (fun _ => 0) _ graph.distinct
  rw [isAcyclic, beq_iff_eq]
  constructor
  · intro size
    have all := (distinct.subperm inside).perm_of_length_le size.ge
    refine acyclic_of_forward distinct (fun source target leads => ?_) ?_
    · exact all.mem_iff.mpr (graph.joined _ leads).2
    · intro before name behind split source leads
      exact (sortFrom_split graph.distinct split).1 source leads (graph.joined _ leads).1
  · intro acyclic
    exact ((List.perm_ext_iff_of_nodup distinct graph.distinct).mpr
      (mem_sorted acyclic)).length_eq

end ListGraph

/-- The library that keeps graphs in lists does what is documented. -/
theorem listGraphs_documented : listGraphs.Documented := by
  constructor
  case hasNode_empty => exact fun _ => rfl
  case hasEdge_empty => exact fun _ _ => rfl
  case hasNode_addNode =>
    intro graph name other
    simp only [listGraphs, List.contains_iff_mem]
    exact ListGraph.mem_addNode
  case hasEdge_addNode =>
    intro graph name source target
    simp only [listGraphs]
    exact congrArg (List.contains · (source, target)) (ListGraph.edges_addNode graph name)
  case hasNode_addEdge =>
    intro graph source target name
    simp only [listGraphs, List.contains_iff_mem]
    exact ListGraph.mem_addEdge
  case hasEdge_addEdge =>
    intro graph source target first second
    simp [listGraphs, ListGraph.addEdge, or_comm]
  case isAcyclic_iff =>
    intro graph
    simp only [listGraphs, List.contains_iff_mem]
    exact ListGraph.isAcyclic_iff
  case sorted_isSorting =>
    intro graph key acyclic
    have all := @ListGraph.mem_sorted graph key (ListGraph.isAcyclic_iff.mp acyclic)
    refine ⟨(ListGraph.sortFrom_nodup graph.distinct).1, ?_, ?_⟩
    · simpa [listGraphs] using all
    · intro before name behind split source leads
      have listed : (source, name) ∈ graph.edges := by simpa [listGraphs] using leads
      exact (ListGraph.sortFrom_split graph.distinct split).1 source listed
        (graph.joined _ listed).1
  case sorted_resolved =>
    intro graph key acyclic before name behind split other later free
    have listed : (before ++ name :: behind).Nodup ∧
        ∀ node ∈ before ++ name :: behind, node ∈ ListGraph.nodes graph :=
      split ▸ @ListGraph.sortFrom_nodup graph key _ graph.distinct
    have new : other ∉ before := fun early =>
      (List.nodup_append.mp listed.1).2.2 other early other (List.mem_cons_of_mem _ later) rfl
    have member := listed.2 other (List.mem_append_right _ (List.mem_cons_of_mem _ later))
    refine (ListGraph.sortFrom_split graph.distinct split).2 other member new ?_
    exact fun source leads _ => free source (by simpa [listGraphs] using leads)

end EncoderTables.Generator
