import EncoderTables.Proofs.Generator.Blocks
import EncoderTables.Proofs.Generator.Enumerations
import EncoderTables.Proofs.Parameters.FieldOrder

/-!
# Phases that cannot fail

A phase fails when it is not allowed to run, when it cannot produce its elements or when
they cannot be printed. The phases behind the parameter tables do none of this in a run
with the default settings: their elements depend on the architecture or are constants, so
a run succeeds as soon as all tables of the instructions have been produced.
-/

namespace EncoderTables.Generator

open Steps

/-- Elements that can be printed are laid out on a page that is wide enough. -/
theorem render_succeeds {elements : List Code.Element} {chunks : List Code.Chunk}
    (indent : Nat) {width : Nat} {implementing : Bool}
    (printed : Code.chunksOf implementing elements = .ok chunks)
    (wide : Code.leastWidth ≤ width) :
    ∃ text, Code.render elements indent width implementing = .ok text := by
  have page : Code.Page.make indent width = .ok ⟨indent, width⟩ := by
    simp [Code.Page.make, Int.not_lt.mpr wide]
  exact ⟨_, by simp only [Code.render, page, printed]; rfl⟩

/-- A phase is run when it is allowed to, its elements can be produced and printed and the
lines are wide enough. -/
theorem runOne_succeeds {phase : Phase} {before produced : Session}
    {elements : List Code.Element} {chunks : List Code.Chunk}
    (allowed : checkPhase before phase = .ok ())
    (made : produce phase (before.tell ("\t\tTranslating " ++ phase.title ++ "...")) =
      .ok elements produced)
    (printed : Code.chunksOf (!phase.forHeader) elements = .ok chunks)
    (wide : Code.leastWidth ≤ produced.settings.width) :
    ∃ block after, runOne phase before = .ok block after := by
  obtain ⟨text, rendered⟩ := render_succeeds produced.settings.indent printed wide
  exact ⟨text, _, (runOne_ok_iff ..).mpr ⟨allowed, elements, produced, made, rendered, rfl⟩⟩

/-- A phase has run when its elements are there. -/
theorem hasRun_iff (session : Session) (phase : Phase) :
    session.hasRun phase = true ↔ phase ∈ session.elements.map (·.1) := by
  unfold Session.hasRun
  induction session.elements with
  | nil => simp
  | cons entry rest inductionHypothesis =>
    obtain ⟨first, elements⟩ := entry
    rw [lookup_cons_ite]
    split
    · next same => simp [same]
    · next different =>
      rw [inductionHypothesis]
      simp [different]

/-- A phase that has left no elements is allowed when all that it needs have left theirs. -/
theorem checkPhase_ok {session : Session} {phase : Phase}
    (new : phase ∉ session.elements.map (·.1))
    (needs : ∀ need ∈ phase.needs, need ∈ session.elements.map (·.1)) :
    checkPhase session phase = .ok () := by
  rw [checkPhase_ok_iff]
  refine ⟨?_, fun need member => (hasRun_iff session need).mpr (needs need member)⟩
  rw [← Bool.not_eq_true, hasRun_iff]
  exact new

/-- Elements of which each can be printed are printed one after the other. -/
theorem chunksOf_succeeds {implementing : Bool} {elements : List Code.Element}
    (each : ∀ element ∈ elements, ∃ chunks, element.chunks (!implementing) = .ok chunks) :
    ∃ chunks, Code.chunksOf implementing elements = .ok chunks := by
  induction elements with
  | nil => exact ⟨[], rfl⟩
  | cons element rest inductionHypothesis =>
    obtain ⟨first, printed⟩ := each element List.mem_cons_self
    obtain ⟨others, remaining⟩ :=
      inductionHypothesis fun other member => each other (List.mem_cons_of_mem _ member)
    exact ⟨first ++ others, by simp only [Code.chunksOf, printed, remaining]; rfl⟩

/-- Domains have constants that can be printed. -/
theorem domainConstants_print (registry : Registry) :
    ∃ chunks, Code.chunksOf true (domainConstants registry) = .ok chunks := by
  refine chunksOf_succeeds ?_
  intro element member
  rw [domainConstants, List.mem_append, List.mem_map, List.mem_singleton] at member
  rcases member with ⟨domain, -, rfl⟩ | rfl
  · exact ⟨_, rfl⟩
  · exact ⟨_, rfl⟩

/-- The enumerations can be printed. -/
theorem enumerations_print (set : InstructionSet) :
    ∃ elements chunks, enumerations set = .ok elements ∧
      Code.chunksOf false elements = .ok chunks := by
  obtain ⟨chunks, printed⟩ := @chunksOf_succeeds false
    ((instructionEnumeration set :: furtherEnumerations set).map Code.Element.enumeration) (by
      intro element member
      obtain ⟨enumeration, listed, rfl⟩ := List.mem_map.mp member
      exact declaration_enumeration set listed)
  exact ⟨_, chunks, enumerations_eq set, printed⟩

open Parameters in
/-- A structure whose fields are sorted by insertion can be declared within a number of
words. -/
def fitsWords (basic : Bool) (words : Nat) : Bool :=
  match Slot.ofParameters basic (Arch.parametersOf basic) with
  | .error _ => false
  | .ok fields =>
    let sorted := fields.insertionSort fun first second => first.precedes second = true
    let layout : Layout := ⟨basic, Layout.group (Layout.unionsOf basic) sorted⟩
    decide (fields.map (·.name)).Nodup &&
      (decide (layout.width ≤ words * Layout.wordBits) && layout.declaration.declaration.toBool)

/-- Both structures fit their default budgets. -/
theorem fitsWords_default (basic : Bool) : fitsWords basic (if basic then 1 else 4) = true := by
  cases basic <;> decide +kernel

open Parameters in
/-- A structure that fits a number of words is laid out within this budget and can be
declared. -/
theorem layout_succeeds {basic : Bool} {words : Nat} (fits : fitsWords basic words = true) :
    ∃ layout chunks,
      Layout.make (Arch.parametersOf basic) basic (Layout.unionsOf basic) (.number words) =
        .ok layout ∧
      layout.declaration.declaration = .ok chunks := by
  unfold fitsWords at fits
  split at fits
  · simp at fits
  · next fields found =>
    rw [Bool.and_eq_true, Bool.and_eq_true, decide_eq_true_iff, decide_eq_true_iff] at fits
    obtain ⟨distinct, narrow, declared⟩ := fits
    rw [← Layout.ordered_eq_insertionSort distinct] at narrow declared
    generalize made : Layout.mk basic (Layout.group (Layout.unionsOf basic)
      (Layout.ordered fields)) = layout at narrow declared
    cases printed : layout.declaration.declaration with
    | error failure => simp [printed, Except.toBool] at declared
    | ok chunks =>
      refine ⟨layout, chunks, ?_, printed⟩
      have within : Scalar.atMost? (.number layout.width) (.number (Layout.wordBits * words)) =
          some true := by
        have bound : (layout.width : Int) ≤ Layout.wordBits * words := by
          rw [Nat.mul_comm] at narrow
          exact_mod_cast narrow
        simp [Scalar.atMost?, Scalar.ratio?, Scalar.whole?, Scalar.shifted, bound]
      simp only [Layout.make, found, Scalar.times?, Scalar.whole?, Option.map_some]
      show (if _ then _ else _) = _
      rw [made, within]
      rfl

/-- The functions of accessors can be produced and printed. -/
theorem accessorFunctions_print (stub : Bool) :
    ∃ elements chunks, Parameters.Accessor.functions stub = .ok elements ∧
      Code.chunksOf stub elements = .ok chunks := by
  have computed : Results.passes (fun elements =>
      Results.passes (fun _ => true) (Code.chunksOf stub elements))
      (Parameters.Accessor.functions stub) = true := by
    cases stub <;> decide
  obtain ⟨elements, made, printable⟩ := Results.exists_ok computed
  obtain ⟨chunks, printed, -⟩ := Results.exists_ok printable
  exact ⟨elements, chunks, made, printed⟩

/-- The declaration of a structure is produced and can be printed. -/
theorem parameterStructure_succeeds (basic : Bool) {session : Session}
    (settings : session.settings = .default) :
    ∃ declaration chunks after, parameterStructure basic session = .ok declaration after ∧
      declaration.chunks true = .ok chunks := by
  obtain ⟨layout, chunks, made, printed⟩ := layout_succeeds (fitsWords_default basic)
  have budget : (if basic then session.settings.basicBudget else session.settings.budget) =
      .number ((if basic then 1 else 4 : Nat)) := by
    rw [settings]
    cases basic <;> rfl
  exact ⟨layout.declaration, chunks, _,
    parameterStructure_ok_iff.mpr ⟨layout, budget ▸ made, rfl, rfl⟩, printed⟩

/-- The phases behind the tables of the instructions. -/
def closingPhases : List Phase :=
  [.parameterStructures, .accessorStubs, .domains, .enumerations, .accessors]

/-- With the default settings the elements of these phases are produced and can be
printed. -/
theorem produce_succeeds {phase : Phase} (closing : phase ∈ closingPhases) {session : Session}
    (settings : session.settings = .default) :
    ∃ elements produced chunks, produce phase session = .ok elements produced ∧
      Code.chunksOf (!phase.forHeader) elements = .ok chunks := by
  simp only [closingPhases, List.mem_cons, List.not_mem_nil, or_false] at closing
  rcases closing with rfl | rfl | rfl | rfl | rfl
  · obtain ⟨full, fullChunks, middle, first, fullPrinted⟩ :=
      parameterStructure_succeeds false settings
    have unchanged : middle.settings = .default := by
      rw [parameterStructure_frame first]
      exact settings
    obtain ⟨basic, basicChunks, after, second, basicPrinted⟩ :=
      parameterStructure_succeeds true unchanged
    obtain ⟨chunks, printed⟩ :=
      @chunksOf_succeeds false [full, basic] (by simp [fullPrinted, basicPrinted])
    exact ⟨[full, basic], after, chunks,
      produce_parameterStructures_ok_iff.mpr ⟨full, basic, middle, first, second, rfl⟩, printed⟩
  · obtain ⟨elements, chunks, made, printed⟩ := accessorFunctions_print true
    exact ⟨elements, session, chunks, (Run.ofExcept_ok_iff ..).mpr ⟨made, rfl⟩, printed⟩
  · obtain ⟨chunks, printed⟩ := domainConstants_print session.registry
    exact ⟨_, session, chunks, rfl, printed⟩
  · obtain ⟨elements, chunks, made, printed⟩ := enumerations_print session.set
    exact ⟨elements, session, chunks, (Run.ofExcept_ok_iff ..).mpr ⟨made, rfl⟩, printed⟩
  · obtain ⟨elements, chunks, made, printed⟩ := accessorFunctions_print false
    exact ⟨elements, session, chunks, (Run.ofExcept_ok_iff ..).mpr ⟨made, rfl⟩, printed⟩

/-- These phases need no other of them. -/
theorem needs_closing {phase : Phase} (closing : phase ∈ closingPhases) :
    ∀ need ∈ phase.needs, need = .parameters := by
  simp only [closingPhases, List.mem_cons, List.not_mem_nil, or_false] at closing
  rcases closing with rfl | rfl | rfl | rfl | rfl <;> simp [Phase.needs]

/-- With the default settings these phases run behind the parameter tables, each once. -/
theorem runAll_succeeds {phases : List Phase} (closing : ∀ phase ∈ phases, phase ∈ closingPhases)
    {before : Session} (settings : before.settings = .default)
    (tables : .parameters ∈ before.elements.map (·.1))
    (new : (before.elements.map (·.1) ++ phases).Nodup) :
    ∃ after, runAll (phases.map Phase.name) before = .ok () after := by
  induction phases generalizing before with
  | nil => exact ⟨before, rfl⟩
  | cons phase rest inductionHypothesis =>
    have first := closing phase List.mem_cons_self
    have allowed : checkPhase before phase = .ok () := by
      refine checkPhase_ok ?_ ?_
      · intro member
        exact (List.nodup_append.mp new).2.2 phase member phase List.mem_cons_self rfl
      · intro need member
        rw [needs_closing first need member]
        exact tables
    obtain ⟨elements, produced, chunks, made, printed⟩ := @produce_succeeds phase first
      (before.tell ("\t\tTranslating " ++ phase.title ++ "...")) (by
        rw [tell_frame]
        exact settings)
    have kept : produced.settings = .default := by
      rw [produce_changes made, tell_frame]
      exact settings
    obtain ⟨block, middle, one⟩ := runOne_succeeds allowed made printed (by
      rw [kept]
      decide)
    have ran : runAll ([phase].map Phase.name) before = .ok () middle := by
      simp only [List.map_cons, List.map_nil, runAll, runNamed_name, bind_ok_iff, pure_ok_iff]
      exact ⟨block, middle, one, trivial, rfl⟩
    obtain ⟨same, ⟨further, listed, keys⟩, -⟩ := runAll_extends ran
    obtain ⟨after, others⟩ := inductionHypothesis
      (fun other member => closing other (List.mem_cons_of_mem _ member))
      (same.trans settings) (by simp [listed, tables]) (by simpa [listed, keys] using new)
    exact ⟨after, (runAll_append_ok_iff ([phase].map Phase.name) _ before after).mpr
      ⟨middle, ran, others⟩⟩

/-- The phases up to the parameter tables, which depend on the instructions. -/
def tablePhases : List Phase :=
  emissionPhases ++ [.instructions, .operands, .mnemonics, .parameters]

/-- The functions and the tables of the instructions of a set can be produced. -/
def tablesSucceed (set : InstructionSet) : Bool :=
  match runAll (tablePhases.map Phase.name) (.start set .default) with
  | .ok .. => true
  | .error .. => false

/-- With the default settings a run succeeds when the functions and the tables of its
instructions can be produced. -/
theorem generate_succeeds {set : InstructionSet} (succeed : tablesSucceed set = true) :
    ∃ final, generate (.start set .default) = .ok () final := by
  unfold tablesSucceed at succeed
  split at succeed
  · next _ middle ran =>
    obtain ⟨-, -, -, default, none⟩ := start_frame set .default
    obtain ⟨settings, ⟨further, listed, keys⟩, -⟩ := runAll_extends ran
    rw [none, List.nil_append] at listed
    obtain ⟨final, later⟩ := @runAll_succeeds closingPhases (fun _ member => member) middle
      (settings.trans default) (by simp [listed, keys, tablePhases]) (by
        rw [listed, keys]
        decide)
    refine ⟨final, ?_⟩
    rw [generate_eq]
    exact (runAll_append_ok_iff (tablePhases.map Phase.name) (closingPhases.map Phase.name) _ _).mpr
      ⟨middle, ran, later⟩
  · simp at succeed

end EncoderTables.Generator
