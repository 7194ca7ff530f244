import EncoderTables.Generator.Session

/-!
# Steps that may be refused

Emissions and sessions are steps on a state that can be refused. A step made of others
succeeds exactly when each of them does, each on the state that the one before it left, and
is refused when one of them is. These equations open a step one part at a time; nothing
below unfolds the steps themselves.
-/

namespace EncoderTables.Steps

variable {ε σ α β : Type}

/-- A sequence succeeds when its first step does, and then the next on what that left. -/
@[simp]
theorem bind_ok_iff (first : EStateM ε σ α) (next : α → EStateM ε σ β) (before after : σ)
    (value : β) :
    (first >>= next) before = .ok value after ↔
      ∃ found middle, first before = .ok found middle ∧ next found middle = .ok value after := by
  cases reached : first before with
  | ok found middle =>
    simp only [bind, EStateM.bind, reached, EStateM.Result.ok.injEq]
    constructor
    · intro succeeded
      exact ⟨found, middle, ⟨rfl, rfl⟩, succeeded⟩
    · rintro ⟨_, _, ⟨rfl, rfl⟩, succeeded⟩
      exact succeeded
  | error failure middle => simp [bind, EStateM.bind, reached]

/-- A value alone changes nothing. -/
@[simp]
theorem pure_ok_iff (found value : α) (before after : σ) :
    (pure found : EStateM ε σ α) before = .ok value after ↔ found = value ∧ before = after := by
  simp [pure, EStateM.pure]

/-- A change of the value that a step finds changes nothing else. -/
@[simp]
theorem map_ok_iff (step : EStateM ε σ α) (change : α → β) (before after : σ) (value : β) :
    (change <$> step) before = .ok value after ↔
      ∃ found, step before = .ok found after ∧ change found = value := by
  cases reached : step before with
  | ok found middle =>
    simp only [Functor.map, EStateM.map, reached, EStateM.Result.ok.injEq]
    constructor
    · rintro ⟨same, unchanged⟩
      exact ⟨found, ⟨rfl, unchanged⟩, same⟩
    · rintro ⟨_, ⟨rfl, unchanged⟩, same⟩
      exact ⟨same, unchanged⟩
  | error failure middle => simp [Functor.map, EStateM.map, reached]

/-- Reading the state changes nothing. -/
@[simp]
theorem get_ok_iff (value before after : σ) :
    (get : EStateM ε σ σ) before = .ok value after ↔ before = value ∧ before = after := by
  show EStateM.Result.ok before before = .ok value after ↔ _
  simp

/-- A change of the state always succeeds. -/
@[simp]
theorem modify_ok_iff (change : σ → σ) (before after : σ) (value : PUnit) :
    (modify change : EStateM ε σ PUnit) before = .ok value after ↔ change before = after := by
  show EStateM.Result.ok PUnit.unit (change before) = .ok value after ↔ _
  simp

/-- A change of the state that also finds a value always succeeds. -/
@[simp]
theorem modifyGet_ok_iff (change : σ → α × σ) (before after : σ) (value : α) :
    (modifyGet change : EStateM ε σ α) before = .ok value after ↔
      change before = (value, after) := by
  show EStateM.Result.ok (change before).1 (change before).2 = .ok value after ↔ _
  simp [Prod.ext_iff]

/-- A refusal never succeeds. -/
@[simp]
theorem throw_not_ok (failure : ε) (before after : σ) (value : α) :
    (throw failure : EStateM ε σ α) before ≠ .ok value after := by
  show EStateM.Result.error failure before ≠ .ok value after
  simp

/-- A sequence is refused when its first step is, or the next on what that left. -/
@[simp]
theorem bind_error_iff (first : EStateM ε σ α) (next : α → EStateM ε σ β) (before after : σ)
    (failure : ε) :
    (first >>= next) before = .error failure after ↔
      first before = .error failure after ∨
        ∃ found middle, first before = .ok found middle ∧
          next found middle = .error failure after := by
  cases reached : first before with
  | ok found middle =>
    simp only [bind, EStateM.bind, reached, EStateM.Result.ok.injEq, reduceCtorEq, false_or]
    constructor
    · intro refused
      exact ⟨found, middle, ⟨rfl, rfl⟩, refused⟩
    · rintro ⟨_, _, ⟨rfl, rfl⟩, refused⟩
      exact refused
  | error cause middle => simp [bind, EStateM.bind, reached]

/-- A value alone is not refused. -/
@[simp]
theorem pure_not_error (found : α) (before after : σ) (failure : ε) :
    (pure found : EStateM ε σ α) before ≠ .error failure after := by
  simp [pure, EStateM.pure]

/-- Reading the state is not refused. -/
@[simp]
theorem get_not_error (before after : σ) (failure : ε) :
    (get : EStateM ε σ σ) before ≠ .error failure after := by
  show EStateM.Result.ok before before ≠ .error failure after
  simp

/-- A change of the state is not refused. -/
@[simp]
theorem modify_not_error (change : σ → σ) (before after : σ) (failure : ε) :
    (modify change : EStateM ε σ PUnit) before ≠ .error failure after := by
  show EStateM.Result.ok PUnit.unit (change before) ≠ .error failure after
  simp

end EncoderTables.Steps

namespace EncoderTables.Generator

/-- A value that has been refused does not become part of an emission. -/
@[simp]
theorem Emit.ofExcept_ok_iff {α : Type} (found : Except Failure α) (before after : Emission)
    (value : α) :
    Emit.ofExcept found before = .ok value after ↔ found = .ok value ∧ before = after := by
  cases found with
  | ok _ => simp [Emit.ofExcept]
  | error _ => simp [Emit.ofExcept]

/-- A refusal never succeeds. -/
@[simp]
theorem Emit.refuse_not_ok {α : Type} (cause : Cause) (before after : Emission) (value : α) :
    (Emit.refuse cause : Emit α) before ≠ .ok value after := by simp [Emit.refuse]

/-- A refusal at a site never succeeds. -/
@[simp]
theorem Site.refuse_not_ok {α : Type} (site : Site) (cause : Cause) (before after : Emission)
    (value : α) : (site.refuse cause : Emit α) before ≠ .ok value after := by
  simp [Site.refuse]

/-- A value that has been refused does not become part of a session. -/
@[simp]
theorem Run.ofExcept_ok_iff {α : Type} (found : Except Failure α) (before after : Session)
    (value : α) :
    Run.ofExcept found before = .ok value after ↔ found = .ok value ∧ before = after := by
  cases found with
  | ok _ => simp [Run.ofExcept]
  | error _ => simp [Run.ofExcept]

/-- A step of a session is refused for the value that it needs. -/
@[simp]
theorem Run.ofExcept_error_iff {α : Type} (found : Except Failure α) (before after : Session)
    (failure : Failure) :
    (Run.ofExcept found : Run α) before = .error failure after ↔
      found = .error failure ∧ before = after := by
  cases found with
  | ok _ => simp [Run.ofExcept]
  | error cause =>
    show EStateM.Result.error cause before = .error failure after ↔ _
    simp

/-- A step of an emission changes nothing else of the session. -/
@[simp]
theorem Run.emit_ok_iff {α : Type} (step : Emit α) (before after : Session) (value : α) :
    Run.emit step before = .ok value after ↔
      ∃ emission, step before.emission = .ok value emission ∧
        { before with emission := emission } = after := by
  unfold Run.emit
  cases reached : step before.emission with
  | ok found emission =>
    simp only [EStateM.Result.ok.injEq]
    constructor
    · rintro ⟨same, changed⟩
      exact ⟨emission, ⟨same, rfl⟩, changed⟩
    · rintro ⟨_, ⟨same, rfl⟩, changed⟩
      exact ⟨same, changed⟩
  | error failure emission => simp

/-- A step of an emission that is refused leaves what it has recorded by then. -/
@[simp]
theorem Run.emit_error_iff {α : Type} (step : Emit α) (before after : Session)
    (failure : Failure) :
    (Run.emit step : Run α) before = .error failure after ↔
      ∃ emission, step before.emission = .error failure emission ∧
        { before with emission := emission } = after := by
  unfold Run.emit
  cases reached : step before.emission with
  | ok found emission => simp
  | error cause emission =>
    simp only [EStateM.Result.error.injEq]
    constructor
    · rintro ⟨same, changed⟩
      exact ⟨emission, ⟨same, rfl⟩, changed⟩
    · rintro ⟨_, ⟨same, rfl⟩, changed⟩
      exact ⟨same, changed⟩

/-- A new emitter is behind all others. -/
@[simp]
theorem Emit.newEmitter_ok_iff (instruction : Option Instruction) (address : Callers)
    (before after : Emission) (id : Nat) :
    Emit.newEmitter instruction address before = .ok id after ↔
      before.emitters.length = id ∧ (before.add (.fresh instruction address)).2 = after := by
  simp [Emit.newEmitter, Emission.add, Prod.ext_iff]

section Functions

open Steps

/-- The function of an instruction is written for a new emitter, which is listed then, and the
functions of the others follow. -/
theorem emitInstructions_cons_ok_iff {instruction : Instruction} {rest : List Instruction}
    {before after : Session} {functions : List Code.Element} :
    emitInstructions (instruction :: rest) before = .ok functions after ↔
      ∃ function written others,
        instructionFunction ⟨before.emission.emitters.length, some instruction.name⟩ instruction
          (before.emission.add (.fresh (some instruction) (.listed []))).2 =
            .ok function written ∧
        emitInstructions rest { before with
          emission := written
          instructionEmitters := before.instructionEmitters ++ [before.emission.emitters.length] } =
            .ok others after ∧
        functions = function :: others := by
  simp only [emitInstructions, bind_ok_iff, pure_ok_iff, modify_ok_iff, Run.emit_ok_iff,
    Emit.newEmitter_ok_iff]
  constructor
  · rintro ⟨_, _, ⟨_, ⟨rfl, rfl⟩, rfl⟩, function, _, ⟨written, made, rfl⟩, _, _, rfl, others, _,
      remaining, rfl, rfl⟩
    exact ⟨function, written, others, made, remaining, rfl⟩
  · rintro ⟨function, written, others, made, remaining, rfl⟩
    exact ⟨_, _, ⟨_, ⟨rfl, rfl⟩, rfl⟩, function, _, ⟨written, made, rfl⟩, (), _, rfl, others, _,
      remaining, rfl, rfl⟩

/-- The function of unordered writes is written for a new emitter, what it reads is merged into
its callers, and the functions of the others follow. -/
theorem emitOrderings_cons_ok_iff {id : Nat} {writes : List Node} {consumers : List Nat}
    {rest : List (List Node × List Nat)} {before after : Emission}
    {functions : List Code.Element} :
    emitOrderings id ((writes, consumers) :: rest) before = .ok functions after ↔
      ∃ function written others,
        orderingFunction ⟨before.emitters.length, none⟩ writes (toString id)
          (Naming.permutationTable (toString writes.length))
          (before.add (.fresh none (.ofOrdering id))).2 = .ok function written ∧
        emitOrderings (id + 1) rest (consumers.foldl (fun emission consumer =>
          emission.mergeFrom before.emitters.length consumer) written) = .ok others after ∧
        functions = function :: others := by
  simp only [emitOrderings, bind_ok_iff, pure_ok_iff, modify_ok_iff, Emit.newEmitter_ok_iff]
  constructor
  · rintro ⟨_, _, ⟨rfl, rfl⟩, function, written, made, _, _, rfl, others, _, remaining, rfl, rfl⟩
    exact ⟨function, written, others, made, remaining, rfl⟩
  · rintro ⟨function, written, others, made, remaining, rfl⟩
    exact ⟨_, _, ⟨rfl, rfl⟩, function, written, made, (), _, rfl, others, _, remaining, rfl, rfl⟩

/-- The function of a routine is written for a new emitter, which is then known as the one of the
routine, and what it reads is merged into its callers. -/
theorem emitRoutine_ok_iff {id : Nat} {routine : Node} {before after : Emission}
    {function : Code.Element} :
    emitRoutine id routine before = .ok function after ↔
      ∃ written known,
        routineFunction ⟨before.emitters.length, none⟩ routine (toString id)
          (before.add (.fresh none (.ofRoutine id))).2 = .ok function written ∧
        { written with
          emitted := Emission.setEmitted id before.emitters.length written.emitted } = known ∧
        (known.callers (.ofRoutine id)).foldl (fun emission consumer =>
          emission.mergeFrom before.emitters.length consumer) known = after := by
  simp only [emitRoutine, bind_ok_iff, pure_ok_iff, modify_ok_iff, Emit.newEmitter_ok_iff]
  constructor
  · rintro ⟨_, _, ⟨rfl, rfl⟩, _, written, made, _, known, registered, _, _, spread, rfl, rfl⟩
    exact ⟨written, known, made, registered, spread⟩
  · rintro ⟨written, known, made, registered, spread⟩
    exact ⟨_, _, ⟨rfl, rfl⟩, function, written, made, (), known, registered, (), _, spread, rfl, rfl⟩

/-- A round of the loop over routines: it ends where none is requested, or it emits the function of
the routine that is, and goes on with the next one. -/
theorem emitRoutinesWithin_succ_ok_iff {fuel id : Nat} {before after : Emission}
    {functions : List Code.Element} :
    emitRoutinesWithin (fuel + 1) id before = .ok functions after ↔
      before.routines.key? id = none ∧ functions = [] ∧ before = after ∨
      ∃ routine function middle others, before.routines.key? id = some routine ∧
        emitRoutine id routine before = .ok function middle ∧
        emitRoutinesWithin fuel (id + 1) middle = .ok others after ∧
        functions = function :: others := by
  simp only [emitRoutinesWithin, bind_ok_iff, get_ok_iff]
  constructor
  · rintro ⟨_, _, ⟨rfl, rfl⟩, rest⟩
    cases requested : before.routines.key? id with
    | none =>
      simp only [requested, pure_ok_iff] at rest
      exact .inl ⟨rfl, rest.1.symm, rest.2⟩
    | some routine =>
      simp only [requested, bind_ok_iff, pure_ok_iff] at rest
      obtain ⟨function, middle, made, others, _, remaining, rfl, rfl⟩ := rest
      exact .inr ⟨routine, function, middle, others, rfl, made, remaining, rfl⟩
  · rintro (⟨free, rfl, rfl⟩ | ⟨routine, function, middle, others, requested, made, remaining, rfl⟩)
    · exact ⟨before, before, ⟨rfl, rfl⟩, by simp [free]⟩
    · refine ⟨before, before, ⟨rfl, rfl⟩, ?_⟩
      simp only [requested, bind_ok_iff, pure_ok_iff]
      exact ⟨function, middle, made, others, after, remaining, rfl, rfl⟩

end Functions

section Phases

/-! What each phase produces, of the session that it finds. -/

open Steps

theorem produce_instructionFunctions (session : Session) :
    produce .instructionFunctions session =
      emitInstructions session.set.instructions session := rfl

theorem produce_orderingFunctions (session : Session) :
    produce .orderingFunctions session =
      Run.emit (emitOrderings 0 session.emission.orderings.entries) session := rfl

theorem produce_permutationTables (session : Session) :
    produce .permutationTables session =
      .ok (session.emission.permutations.map permutationTable) session := rfl

theorem produce_routineFunctions (session : Session) :
    produce .routineFunctions session = Run.emit emitRoutines session := rfl

/-- The loop over routines is given as many rounds as what has been requested can need. -/
theorem emitRoutines_eq (emission : Emission) :
    emitRoutines emission =
      emitRoutinesWithin ((emission.routines.entries.map fun entry =>
        1 + callCount entry.1).foldr (· + ·) 1) 0 emission := rfl

theorem produce_instructions (session : Session) :
    produce .instructions session =
      .ok (instructionTables (session.encoded.map fun entry =>
        instructionRow entry.1 entry.2.parameters)) session := rfl

theorem produce_operands (session : Session) :
    produce .operands session = Run.ofExcept (operandTables session.encoded) session := rfl

theorem produce_mnemonics (session : Session) :
    produce .mnemonics session =
      .ok (session.encoded.map fun entry => mnemonicTable entry.1) session := rfl

theorem produce_parameters (session : Session) :
    produce .parameters session = parameterTables session.encoded session := rfl

/-- A parameter structure is declared as the budget for it allows, and its size is told. -/
theorem parameterStructure_ok_iff {basic : Bool} {before after : Session}
    {declaration : Code.Element} :
    parameterStructure basic before = .ok declaration after ↔
      ∃ layout, Parameters.Layout.make (Arch.parametersOf basic) basic
          (Parameters.Layout.unionsOf basic)
          (if basic then before.settings.basicBudget else before.settings.budget) = .ok layout ∧
        declaration = layout.declaration ∧
        before.tell ("\t\t" ++ Naming.parametersType basic ++ " uses " ++ layout.words ++
          " words") = after := by
  simp only [parameterStructure, Run.tell, bind_ok_iff, get_ok_iff, pure_ok_iff, modify_ok_iff,
    Run.ofExcept_ok_iff]
  constructor
  · rintro ⟨_, _, ⟨rfl, rfl⟩, layout, _, ⟨made, rfl⟩, _, _, told, rfl, rfl⟩
    exact ⟨layout, made, rfl, told⟩
  · rintro ⟨layout, made, rfl, told⟩
    exact ⟨before, before, ⟨rfl, rfl⟩, layout, before, ⟨made, rfl⟩, (), after, told, rfl, rfl⟩

/-- Both structures are declared, the basic one behind the full one. -/
theorem produce_parameterStructures_ok_iff {before after : Session}
    {elements : List Code.Element} :
    produce .parameterStructures before = .ok elements after ↔
      ∃ full basic middle, parameterStructure false before = .ok full middle ∧
        parameterStructure true middle = .ok basic after ∧ elements = [full, basic] := by
  simp only [produce, bind_ok_iff, pure_ok_iff]
  constructor
  · rintro ⟨full, middle, first, basic, _, second, rfl, rfl⟩
    exact ⟨full, basic, middle, first, second, rfl⟩
  · rintro ⟨full, basic, middle, first, second, rfl⟩
    exact ⟨full, middle, first, basic, after, second, rfl, rfl⟩

theorem produce_accessorStubs (session : Session) :
    produce .accessorStubs session = Run.ofExcept (Parameters.Accessor.functions true) session := rfl

theorem produce_domains (session : Session) :
    produce .domains session = .ok (domainConstants session.registry) session := rfl

theorem produce_enumerations (session : Session) :
    produce .enumerations session = Run.ofExcept (enumerations session.set) session := rfl

theorem produce_accessors (session : Session) :
    produce .accessors session =
      Run.ofExcept (Parameters.Accessor.functions false) session := rfl

/-- A phase succeeds when it is allowed, its elements can be produced and these can be laid
out; it leaves the elements and their text. -/
theorem runOne_ok_iff (phase : Phase) (before after : Session) (block : String) :
    runOne phase before = .ok block after ↔
      checkPhase before phase = .ok () ∧ ∃ elements produced,
        produce phase (before.tell ("\t\tTranslating " ++ phase.title ++ "...")) =
          .ok elements produced ∧
        Code.render elements produced.settings.indent produced.settings.width
          (!phase.forHeader) = .ok block ∧
        { produced with
          elements := produced.elements ++ [(phase, elements)]
          blocks := produced.blocks ++ [(phase, block)] } = after := by
  simp only [runOne, blockText, bind_ok_iff, get_ok_iff, Run.ofExcept_ok_iff, Run.tell,
    modify_ok_iff, pure_ok_iff]
  constructor
  · rintro ⟨_, _, ⟨rfl, rfl⟩, _, _, ⟨allowed, rfl⟩, _, _, rfl, elements, produced, made, _, _,
      rfl, block, _, ⟨_, _, ⟨rfl, rfl⟩, printed, rfl⟩, _, _, rfl, rfl, rfl⟩
    exact ⟨allowed, elements, produced, made, printed, rfl⟩
  · rintro ⟨allowed, elements, produced, made, printed, rfl⟩
    exact ⟨before, before, ⟨rfl, rfl⟩, (), before, ⟨allowed, rfl⟩, (), _, rfl, elements,
      produced, made, (), _, rfl, block, _, ⟨_, _, ⟨rfl, rfl⟩, printed, rfl⟩, (), _, rfl, rfl,
      rfl⟩

/-- A phase is refused because it is not allowed, or when its elements cannot be produced, or
when they cannot be laid out. -/
theorem runOne_error_iff (phase : Phase) (before after : Session) (failure : Failure) :
    runOne phase before = .error failure after ↔
      (checkPhase before phase = .error failure ∧ before = after) ∨
      (checkPhase before phase = .ok () ∧
        (produce phase (before.tell ("\t\tTranslating " ++ phase.title ++ "...")) =
            .error failure after ∨
          ∃ elements produced,
            produce phase (before.tell ("\t\tTranslating " ++ phase.title ++ "...")) =
              .ok elements produced ∧
            Code.render elements produced.settings.indent produced.settings.width
              (!phase.forHeader) = .error failure ∧
            { produced with elements := produced.elements ++ [(phase, elements)] } = after)) := by
  simp only [runOne, blockText, Run.tell, bind_error_iff, bind_ok_iff, get_ok_iff,
    get_not_error, modify_ok_iff, modify_not_error, pure_not_error, Run.ofExcept_error_iff,
    Run.ofExcept_ok_iff, false_or]
  constructor
  · rintro ⟨_, _, ⟨rfl, rfl⟩, refused | ⟨_, _, ⟨allowed, rfl⟩, _, _, rfl, later⟩⟩
    · exact Or.inl refused
    · refine Or.inr ⟨allowed, ?_⟩
      rcases later with unmade | ⟨elements, produced, made, _, _, rfl, printing⟩
      · exact Or.inl unmade
      · rcases printing with ⟨_, _, ⟨rfl, rfl⟩, unprinted, same⟩ | ⟨_, _, -, _, _, -, impossible⟩
        · exact Or.inr ⟨elements, produced, made, unprinted, same⟩
        · exact impossible.elim
  · rintro (refused | ⟨allowed, unmade | ⟨elements, produced, made, unprinted, same⟩⟩)
    · exact ⟨before, before, ⟨rfl, rfl⟩, Or.inl refused⟩
    · exact ⟨before, before, ⟨rfl, rfl⟩, Or.inr ⟨(), before, ⟨allowed, rfl⟩, (), _, rfl,
        Or.inl unmade⟩⟩
    · exact ⟨before, before, ⟨rfl, rfl⟩, Or.inr ⟨(), before, ⟨allowed, rfl⟩, (), _, rfl,
        Or.inr ⟨elements, produced, made, (), _, rfl, Or.inl ⟨_, _, ⟨rfl, rfl⟩, unprinted, same⟩⟩⟩⟩

end Phases

end EncoderTables.Generator
