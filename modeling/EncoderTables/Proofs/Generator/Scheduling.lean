import EncoderTables.Proofs.Generator.Graphs
import EncoderTables.Proofs.Results
import Mathlib.Data.List.Lex
import Mathlib.Data.List.Permutation

/-!
# Scheduling

Declared steps can be put into an order in which each follows those it needs unless a need is
not declared or steps wait for each other. With any library of graphs that does what is documented
they are put into the least of all such orders, by the places of the steps in the declaration:
where another order differs from theirs first, its step could have stood in the place of the one
that they have there, so it is declared later.
-/

namespace EncoderTables.Generator.Schedule

open Results

variable {graphs : Graphs} {known : List Declared}

/-- A declared step needs another one. -/
def Needs (known : List Declared) (name need : String) : Prop :=
  ∃ needs, (name, needs) ∈ known ∧ need ∈ needs

/-- The place of a step in the declaration. -/
def place (known : List Declared) (name : String) : Nat := (known.map Prod.fst).idxOf name

/-- A step that is declared before another one. -/
def Earlier (known : List Declared) (first second : String) : Prop :=
  place known first < place known second

/-- The declared steps in an order in which each of them stands once, behind all that it needs. -/
structure IsOrder (known : List Declared) (names : List String) : Prop where
  distinct : names.Nodup
  complete : ∀ name, name ∈ names ↔ name ∈ known.map Prod.fst
  follows : ∀ before name behind, names = before ++ name :: behind →
    ∀ need, Needs known name need → need ∈ before

/-! ### The graph of declared steps -/

/-- What a step of a fold can bring about holds at its end if a step did or it held before. -/
theorem foldl_iff {α β : Type} (holds : β → Prop) {step : β → α → β} {adds : α → Prop}
    (each : ∀ state item, holds (step state item) ↔ adds item ∨ holds state) (items : List α)
    (state : β) : holds (items.foldl step state) ↔ (∃ item ∈ items, adds item) ∨ holds state := by
  induction items generalizing state with
  | nil => simp
  | cons item items inductionHypothesis =>
    simp only [List.foldl_cons, inductionHypothesis, each, List.mem_cons, exists_eq_or_imp]
    exact or_left_comm.trans or_assoc.symm

/-- The edges lead from the needs of a step to the step. -/
theorem hasEdge_graphOf (documented : graphs.Documented) (need name : String) :
    graphs.hasEdge (graphOf graphs known) need name = true ↔ Needs known name need := by
  let holds (graph : graphs.Graph) : Prop := graphs.hasEdge graph need name = true
  have nodes (graph : graphs.Graph) (step : Declared) :
      holds (graphs.addNode graph step.1) ↔ False ∨ holds graph := by
    simp only [holds, documented.hasEdge_addNode, false_or]
  have edges (graph : graphs.Graph) (step : Declared) :
      holds (step.2.foldl (fun graph need => graphs.addEdge graph need step.1) graph) ↔
        (∃ other ∈ step.2, need = other ∧ name = step.1) ∨ holds graph :=
    foldl_iff holds (fun graph other => documented.hasEdge_addEdge graph other step.1 need name) _ _
  have empty : ¬ holds graphs.empty := by simp [holds, documented.hasEdge_empty]
  refine (foldl_iff holds edges known _).trans ?_
  rw [foldl_iff holds nodes known graphs.empty]
  simp only [and_false, exists_const, empty, or_false]
  constructor
  · rintro ⟨step, listed, _, needed, rfl, rfl⟩
    exact ⟨step.2, listed, needed⟩
  · rintro ⟨needs, listed, needed⟩
    exact ⟨(name, needs), listed, need, needed, rfl, rfl⟩

/-- When all needs are declared, the nodes are the declared steps. -/
theorem hasNode_graphOf (documented : graphs.Documented)
    (met : ∀ name need, Needs known name need → need ∈ known.map Prod.fst) (name : String) :
    graphs.hasNode (graphOf graphs known) name = true ↔ name ∈ known.map Prod.fst := by
  let holds (graph : graphs.Graph) : Prop := graphs.hasNode graph name = true
  have edges (graph : graphs.Graph) (step : Declared) :
      holds (step.2.foldl (fun graph need => graphs.addEdge graph need step.1) graph) ↔
        (∃ other ∈ step.2, name = other ∨ name = step.1) ∨ holds graph :=
    foldl_iff holds (fun graph other =>
      (documented.hasNode_addEdge graph other step.1 name).trans or_assoc.symm) _ _
  have empty : ¬ holds graphs.empty := by simp [holds, documented.hasNode_empty]
  refine (foldl_iff holds edges known _).trans ?_
  rw [foldl_iff holds (fun graph step => documented.hasNode_addNode graph step.1 name) known
    graphs.empty]
  simp only [empty, or_false, List.mem_map]
  constructor
  · rintro (⟨step, listed, other, needed, rfl | rfl⟩ | ⟨step, listed, rfl⟩)
    · exact List.mem_map.mp (met step.1 name ⟨step.2, listed, needed⟩)
    · exact ⟨step, listed, rfl⟩
    · exact ⟨step, listed, rfl⟩
  · rintro ⟨step, listed, rfl⟩
    exact Or.inr ⟨step, listed, rfl⟩

/-- The graph has a cycle when a step waits for itself. -/
theorem isAcyclic_graphOf (documented : graphs.Documented) :
    graphs.isAcyclic (graphOf graphs known) = true ↔
      ∀ name, ¬ Relation.TransGen (Needs known) name name := by
  rw [documented.isAcyclic_iff]
  simp only [hasEdge_graphOf documented]
  exact forall_congr' fun name => not_congr Relation.transGen_swap

/-! ### The least order -/

/-- An order shows that all needs are declared and that no step waits for itself. -/
theorem IsOrder.sound {names : List String} (order : IsOrder known names) :
    (∀ name need, Needs known name need → need ∈ known.map Prod.fst) ∧
      ∀ name, ¬ Relation.TransGen (Needs known) name name := by
  have listed {name need : String} (needed : Needs known name need) : name ∈ names :=
    (order.complete name).mpr (List.mem_map_of_mem needed.choose_spec.1)
  constructor
  · intro name need needed
    obtain ⟨before, behind, split⟩ := List.append_of_mem (listed needed)
    have early := order.follows before name behind split need needed
    exact (order.complete need).mp (split ▸ List.mem_append_left _ early)
  · intro name waits
    exact acyclic_of_forward order.distinct (fun _ _ => listed) order.follows name
      (Relation.transGen_swap.mp waits)

/-- Two lists of the same distinct names are equal, or there is a first place in which they differ;
each of the names there stands behind it in the other list. -/
theorem eq_or_differ {names others : List String} (distinct : names.Nodup)
    (same : names.Perm others) :
    names = others ∨ ∃ before name other behind rest, names = before ++ name :: behind ∧
      others = before ++ other :: rest ∧ name ∈ rest ∧ other ∈ behind := by
  induction names generalizing others with
  | nil => exact Or.inl (List.nil_perm.mp same).symm
  | cons name names inductionHypothesis =>
    cases others with
    | nil => exact absurd same.length_eq (by simp)
    | cons other others =>
      by_cases equal : other = name
      · subst equal
        rcases inductionHypothesis distinct.of_cons same.cons_inv with rfl | differ
        · exact Or.inl rfl
        · obtain ⟨before, first, second, behind, rest, rfl, rfl, places⟩ := differ
          exact Or.inr ⟨other :: before, first, second, behind, rest, rfl, rfl, places⟩
      · have first : name ∈ others :=
          (List.mem_cons.mp (same.mem_iff.mp List.mem_cons_self)).resolve_left (Ne.symm equal)
        have second : other ∈ names :=
          (List.mem_cons.mp (same.mem_iff.mpr List.mem_cons_self)).resolve_left equal
        exact Or.inr ⟨[], name, other, names, others, rfl, rfl, first, second⟩

/-- Orders of the same steps are permutations of each other. -/
theorem IsOrder.perm {names others : List String} (order : IsOrder known names)
    (other : IsOrder known others) : names.Perm others :=
  (List.perm_ext_iff_of_nodup order.distinct other.distinct).mpr fun name =>
    (order.complete name).trans (other.complete name).symm

/-- Steps whose needs are met without a cycle are sorted into an order. -/
theorem isOrder_sorted (documented : graphs.Documented)
    (met : ∀ name need, Needs known name need → need ∈ known.map Prod.fst)
    (acyclic : ∀ name, ¬ Relation.TransGen (Needs known) name name) :
    IsOrder known (graphs.sorted (graphOf graphs known) (place known)) := by
  obtain ⟨distinct, complete, forward⟩ := documented.sorted_isSorting _ (place known)
    ((isAcyclic_graphOf documented).mpr acyclic)
  refine ⟨distinct, ?_, ?_⟩
  · simpa only [hasNode_graphOf documented met] using complete
  · simpa only [hasEdge_graphOf documented] using forward

/-- Where an order differs from the sorting first, the sorting has the step that is declared
earlier, as both steps could stand there. -/
theorem earlier_of_sorted (documented : graphs.Documented)
    {before behind rest : List String} {name other : String}
    (sorted : graphs.sorted (graphOf graphs known) (place known) = before ++ name :: behind)
    (order : IsOrder known (before ++ other :: rest)) (later : other ∈ behind) :
    Earlier known name other := by
  obtain ⟨met, acyclic⟩ := order.sound
  have sorting := isOrder_sorted documented met acyclic
  rw [sorted] at sorting
  have atMost : place known name ≤ place known other := by
    refine documented.sorted_resolved _ _ ((isAcyclic_graphOf documented).mpr acyclic) before name
      behind sorted other later fun need leads => ?_
    have needed := (hasEdge_graphOf documented need other).mp leads
    exact order.follows before other rest rfl need needed
  have differs : name ≠ other := fun same =>
    (List.nodup_cons.mp (List.nodup_append.mp sorting.distinct).2.1).1 (same ▸ later)
  have listed : name ∈ known.map Prod.fst := (sorting.complete name).mp (by simp)
  exact Nat.lt_of_le_of_ne atMost fun same => differs ((List.idxOf_inj listed).mp same)

/-- The sorting is the least order. -/
theorem sorted_least (documented : graphs.Documented) {others : List String}
    (other : IsOrder known others) :
    graphs.sorted (graphOf graphs known) (place known) = others ∨
      List.Lex (Earlier known) (graphs.sorted (graphOf graphs known) (place known)) others := by
  have order := isOrder_sorted documented other.sound.1 other.sound.2
  rcases eq_or_differ order.distinct (order.perm other) with same | differ
  · exact Or.inl same
  · obtain ⟨before, first, second, behind, rest, split, rfl, -, later⟩ := differ
    rw [split]
    exact Or.inr (.append_left _ (.rel (earlier_of_sorted documented split other later)) _)

/-- Distinct steps stand in the order of their places. -/
theorem pairwise_earlier (distinct : (known.map Prod.fst).Nodup) :
    (known.map Prod.fst).Pairwise (Earlier known) := by
  rw [List.pairwise_iff_getElem]
  intro i j low high less
  rw [Earlier, place, place, distinct.idxOf_getElem, distinct.idxOf_getElem]
  exact less

/-- Steps that are declared in an order are sorted into it: at a first difference, each of the two
steps would be declared before the other one. -/
theorem sorted_declared (documented : graphs.Documented)
    (own : IsOrder known (known.map Prod.fst)) :
    graphs.sorted (graphOf graphs known) (place known) = known.map Prod.fst := by
  have order := isOrder_sorted documented own.sound.1 own.sound.2
  rcases eq_or_differ order.distinct (order.perm own) with same | differ
  · exact same
  · obtain ⟨before, first, second, behind, rest, split, declared, early, later⟩ := differ
    have declaredBefore := pairwise_earlier own.distinct
    rw [declared] at own declaredBefore
    have back := (List.pairwise_cons.mp (List.pairwise_append.mp declaredBefore).2.1).1 first early
    exact absurd (earlier_of_sorted documented split own later) (Nat.lt_asymm back)

/-! ### Declared steps -/

/-- The needs of steps are met when each is known. -/
theorem checkNeeds_ok_iff {known : List String} {steps : List Declared} :
    checkNeeds known steps = .ok () ↔ ∀ step ∈ steps, ∀ need ∈ step.2, need ∈ known := by
  induction steps with
  | nil => simp [checkNeeds]
  | cons step steps inductionHypothesis =>
    rw [checkNeeds, List.forall_mem_cons, ← inductionHypothesis]
    split
    · next need found =>
      have missing := List.find?_some found
      constructor
      · intro met
        cases met
      · intro met
        have known := met.1 need (List.mem_of_find?_eq_some found)
        simp [known] at missing
    · next none =>
      have met : ∀ need ∈ step.2, need ∈ known := by simpa using none
      exact ⟨fun others => ⟨met, others⟩, And.right⟩

/-- Steps are refused for a need that is not known. -/
theorem checkNeeds_error {known : List String} {steps : List Declared} {failure : Failure}
    (refused : checkNeeds known steps = .error failure) :
    ∃ step ∈ steps, ∃ need ∈ step.2, need ∉ known ∧
      failure = .of (.unknownDependency step.1 need) := by
  induction steps with
  | nil => cases refused
  | cons step steps inductionHypothesis =>
    rw [checkNeeds] at refused
    split at refused
    · next need found =>
      cases refused
      have missing := List.find?_some found
      exact ⟨step, List.mem_cons_self, need, List.mem_of_find?_eq_some found,
        by simpa using missing, rfl⟩
    · obtain ⟨other, member, missing⟩ := inductionHypothesis refused
      exact ⟨other, List.mem_cons_of_mem _ member, missing⟩

/-- A new declaration stands behind the others. -/
theorem declare_new {step : Declared} {steps : List Declared} (new : step.1 ∉ steps.map Prod.fst) :
    declare step steps = steps ++ [step] := by
  induction steps with
  | nil => rfl
  | cons first steps inductionHypothesis =>
    rw [List.map_cons, List.mem_cons, not_or] at new
    rw [declare, if_neg fun same => new.1 same.symm, inductionHypothesis new.2, List.cons_append]

/-- Declarations of distinct steps are kept as they are. -/
theorem declarations_of_distinct {steps : List Declared} (distinct : (steps.map Prod.fst).Nodup) :
    declarations steps = steps := by
  induction steps using List.reverseRecOn with
  | nil => rfl
  | append_singleton earlier step inductionHypothesis =>
    rw [List.map_append, List.nodup_append] at distinct
    obtain ⟨former, -, apart⟩ := distinct
    have kept := inductionHypothesis former
    rw [declarations] at kept ⊢
    rw [List.foldl_append, kept, List.foldl_cons, List.foldl_nil,
      declare_new fun member => apart _ member step.1 (by simp) rfl]

/-- Distinct steps are ordered by sorting their graph, if their needs are met without a cycle. -/
theorem order_ok_iff (documented : graphs.Documented) (distinct : (known.map Prod.fst).Nodup)
    {names : List String} : order graphs known = .ok names ↔
      (∀ name need, Needs known name need → need ∈ known.map Prod.fst) ∧
        (∀ name, ¬ Relation.TransGen (Needs known) name name) ∧
          graphs.sorted (graphOf graphs known) (place known) = names := by
  have needs : (∀ step ∈ known, ∀ need ∈ step.2, need ∈ known.map Prod.fst) ↔
      ∀ name need, Needs known name need → need ∈ known.map Prod.fst :=
    ⟨fun met _ need ⟨_, listed, needed⟩ => met _ listed need needed,
      fun met step listed need needed => met step.1 need ⟨step.2, listed, needed⟩⟩
  simp only [order, declarations_of_distinct distinct, bind_ok_iff]
  rw [exists_and_right, Unique.exists_iff, PUnit.default_eq_unit, checkNeeds_ok_iff, needs,
    ← isAcyclic_graphOf documented]
  split
  · next acyclic =>
    simp only [acyclic, pure_ok_iff, true_and]
    exact Iff.rfl
  · next cyclic => simp [cyclic]

/-- Distinct steps are refused for a need that is not declared, or else because a step waits for
itself. -/
theorem order_error (documented : graphs.Documented) (distinct : (known.map Prod.fst).Nodup)
    {failure : Failure} (refused : order graphs known = .error failure) :
    (∃ name need, Needs known name need ∧ need ∉ known.map Prod.fst ∧
        failure = .of (.unknownDependency name need)) ∨
      (∃ name, Relation.TransGen (Needs known) name name) ∧ failure = .of .circularPhases := by
  simp only [order, declarations_of_distinct distinct, bind_error_iff] at refused
  rcases refused with missing | ⟨_, _, waits⟩
  · obtain ⟨step, listed, need, needed, unknown, rfl⟩ := checkNeeds_error missing
    exact Or.inl ⟨step.1, need, ⟨step.2, listed, needed⟩, unknown, rfl⟩
  · split at waits
    · cases waits
    · next cyclic =>
      cases waits
      rw [isAcyclic_graphOf documented] at cyclic
      push Not at cyclic
      exact Or.inr ⟨cyclic, rfl⟩

/-- Distinct steps that are declared in an order keep it. -/
theorem order_of_declared (documented : graphs.Documented)
    (own : IsOrder known (known.map Prod.fst)) :
    order graphs known = .ok (known.map Prod.fst) :=
  (order_ok_iff documented own.distinct).mpr
    ⟨own.sound.1, own.sound.2, sorted_declared documented own⟩

/-- Distinct steps of which each only needs steps declared before it are declared in an order. -/
theorem isOrder_declared (distinct : (known.map Prod.fst).Nodup)
    (early : ∀ index : Fin known.length, ∀ need ∈ known[index].2,
      need ∈ (known.take index).map Prod.fst) : IsOrder known (known.map Prod.fst) := by
  refine ⟨distinct, fun _ => Iff.rfl, ?_⟩
  rintro before name behind split need ⟨needs, listed, needed⟩
  obtain ⟨former, latter, rfl, rfl, rest⟩ := List.map_eq_append_iff.mp split
  obtain ⟨step, others, rfl, rfl, -⟩ := List.map_eq_cons_iff.mp rest
  have same : (step.1, needs) = step := List.inj_on_of_nodup_map distinct listed (by simp) rfl
  have own : need ∈ step.2 := congrArg Prod.snd same ▸ needed
  simpa using early ⟨former.length, by simp⟩ need (by simpa using own)

/-- With a library of graphs that does what is documented, declared steps are refused exactly when
a step needs one that is not declared or waits for itself, directly or through others. Otherwise
they are ordered so that each stands once, behind all that it needs, and of all such orders theirs
is the least: where another one differs from it first, the other one has a step that is declared
later. So steps that are declared in such an order keep it. -/
theorem order_least {graphs : Graphs} (documented : graphs.Documented) {known : List Declared}
    (distinct : (known.map Prod.fst).Nodup) :
    ((∃ failure, order graphs known = .error failure) ↔
      (∃ name need, Needs known name need ∧ need ∉ known.map Prod.fst) ∨
        ∃ name, Relation.TransGen (Needs known) name name) ∧
    (∀ failure, order graphs known = .error failure →
      (∃ name need, Needs known name need ∧ need ∉ known.map Prod.fst ∧
        failure = .of (.unknownDependency name need)) ∨
      (∃ name, Relation.TransGen (Needs known) name name) ∧ failure = .of .circularPhases) ∧
    (∀ names, order graphs known = .ok names → IsOrder known names ∧
      ∀ others, IsOrder known others → names = others ∨ List.Lex (Earlier known) names others) ∧
    (IsOrder known (known.map Prod.fst) → order graphs known = .ok (known.map Prod.fst)) := by
  refine ⟨⟨?_, fun wrong => ?_⟩, fun failure => order_error documented distinct,
    fun names found => ?_, fun own => ?_⟩
  · rintro ⟨failure, refused⟩
    rcases order_error documented distinct refused with missing | ⟨cycle, -⟩
    · obtain ⟨name, need, needed, unknown, -⟩ := missing
      exact Or.inl ⟨name, need, needed, unknown⟩
    · exact Or.inr cycle
  · cases result : order graphs known with
    | error failure => exact ⟨failure, rfl⟩
    | ok names =>
      obtain ⟨met, acyclic, -⟩ := (order_ok_iff documented distinct).mp result
      rcases wrong with ⟨name, need, needed, missing⟩ | ⟨name, cycle⟩
      · exact absurd (met name need needed) missing
      · exact absurd cycle (acyclic name)
  · obtain ⟨met, acyclic, rfl⟩ := (order_ok_iff documented distinct).mp found
    exact ⟨isOrder_sorted documented met acyclic, fun _ => sorted_least documented⟩
  · exact order_of_declared documented own

/-- A step that is declared before the one that it needs, and a step that needs nothing. -/
def laterNeed : List Declared := [("b", ["a"]), ("c", []), ("a", [])]

/-- The step that needs nothing comes first, as the first one has to wait; steps of which the
second needs the first keep their order; and of two steps that need each other both wait for
themselves. -/
theorem order_least_laterNeed :
    listGraphs.Documented ∧ (laterNeed.map Prod.fst).Nodup ∧
      order listGraphs laterNeed = .ok ["c", "a", "b"] ∧
      IsOrder laterNeed ["c", "a", "b"] ∧
      (∀ others, IsOrder laterNeed others →
        ["c", "a", "b"] = others ∨ List.Lex (Earlier laterNeed) ["c", "a", "b"] others) ∧
      IsOrder [("a", []), ("b", ["a", "a"])] ["a", "b"] ∧
      order listGraphs [("a", []), ("b", ["a", "a"])] = .ok ["a", "b"] ∧
      ∃ failure, order listGraphs [("a", ["b"]), ("b", ["a"])] = .error failure := by
  have distinct : (laterNeed.map Prod.fst).Nodup := by decide
  have found : order listGraphs laterNeed = .ok ["c", "a", "b"] := by cbv
  obtain ⟨own, least⟩ := (order_least listGraphs_documented distinct).2.2.1 _ found
  have declared : order listGraphs [("a", []), ("b", ["a", "a"])] = .ok ["a", "b"] := by cbv
  have inOrder := ((order_least listGraphs_documented (by decide)).2.2.1 _ declared).1
  have needs {name need : String} (listed : (name, [need]) ∈ [("a", ["b"]), ("b", ["a"])]) :
      Needs [("a", ["b"]), ("b", ["a"])] name need := ⟨_, listed, List.mem_cons_self⟩
  refine ⟨listGraphs_documented, distinct, found, own, least, inOrder,
    (order_least listGraphs_documented (by decide)).2.2.2 inOrder,
    (order_least listGraphs_documented (by decide)).1.mpr (Or.inr ⟨"a", ?_⟩)⟩
  exact .tail (.single (@needs "a" "b" (by simp))) (needs (by simp))

end EncoderTables.Generator.Schedule
