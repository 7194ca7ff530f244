import EncoderTables.Proofs.Generator.Constants

/-!
# Names that a run defines

A complete run defines functions, variables and enumerators: an encoding function for each
instruction, numbered functions for what instructions share, tables of orders, the tables of
the instructions, accessors, domains and the enumerators of all enumerations.
-/

namespace EncoderTables

namespace Parameters.Accessor

/-- The part of an accessor's name that is its own. -/
def shortName (accessor : Accessor) : String :=
  (if accessor.basic then "basic_" else "") ++ accessor.access.group ++ "_" ++
    accessor.access.name ++ (if accessor.stub then "" else "_")

/-- An accessor is named like an encoding function. -/
theorem identifier_eq (accessor : Accessor) :
    accessor.identifier accessor.stub = Naming.encoder accessor.shortName := by
  obtain ⟨access, basic, stub⟩ := accessor
  cases access <;> cases basic <;> cases stub <;> decide

end Parameters.Accessor

namespace Generator

open Steps

/-- The names that an element defines: its own as a function or a variable, or those of its
enumerators. -/
def definedBy : Code.Element → List String
  | .function _ name _ _ _ _ _ => [name]
  | .value declared => [declared.name]
  | .enumeration listed => listed.values.map (·.1)
  | _ => []

/-- The functions, variables and enumerators that a session defines, phase by phase. -/
def Session.definedNames (session : Session) : List String :=
  Phase.all.flatMap fun phase => (session.elementsOf phase).flatMap definedBy

/-- The names of elements of which each defines one name. -/
theorem definedBy_partners {α : Type} {related : α → Code.Element → Prop} {name : α → String}
    {keys : List α} {elements : List Code.Element} (paired : List.Forall₂ related keys elements)
    (named : ∀ {key element}, related key element → definedBy element = [name key]) :
    elements.flatMap definedBy = keys.map name := by
  induction paired with
  | nil => rfl
  | cons own _ inductionHypothesis =>
    rw [List.flatMap_cons, named own, inductionHypothesis]
    rfl

/-- Elements that are made of keys define the names of these. -/
theorem definedBy_map {α : Type} {element : α → Code.Element} {name : α → String}
    (named : ∀ key, definedBy (element key) = [name key]) (keys : List α) :
    (keys.map element).flatMap definedBy = keys.map name := by
  have paired : List.Forall₂ (fun key own => own = element key) keys (keys.map element) :=
    List.forall₂_map_right_iff.mpr (List.forall₂_same.mpr fun _ _ => rfl)
  refine definedBy_partners paired ?_
  rintro key _ rfl
  exact named key

/-- The results of several values are theirs one by one. -/
theorem partners_of_mapM {ε α β : Type} {step : α → Except ε β} {values : List α}
    {found : List β} (made : values.mapM step = .ok found) :
    List.Forall₂ (fun value result => step value = .ok result) values found := by
  induction values generalizing found with
  | nil =>
    cases made
    exact .nil
  | cons value rest inductionHypothesis =>
    simp only [List.mapM_cons, Results.bind_ok_iff, Results.pure_ok_iff] at made
    obtain ⟨result, own, others, later, rfl⟩ := made
    exact .cons own (inductionHypothesis later)

/-- A function defines its name. -/
theorem IsFunction.defines {comment : Code.Comment} {name : String}
    {parameters : List Code.Element} {code : Except Failure String} {element : Code.Element}
    (function : IsFunction comment name parameters code element) : definedBy element = [name] := by
  obtain ⟨_, _, -, rfl⟩ := function
  rfl

/-- The parts of the accessors' names that are their own, with or without their bodies. -/
def accessorNames (stub : Bool) : List String :=
  (Parameters.Accessor.all stub).map Parameters.Accessor.shortName

/-- The accessors define their names. -/
theorem definedBy_accessors {stub : Bool} {elements : List Code.Element}
    (made : Parameters.Accessor.functions stub = .ok elements) :
    elements.flatMap definedBy = (accessorNames stub).map Naming.encoder := by
  rw [accessorNames, List.map_map]
  refine definedBy_partners (partners_of_mapM made) fun {accessor element} found => ?_
  simp only [Parameters.Accessor.function, Results.bind_ok_iff, Results.pure_ok_iff] at found
  obtain ⟨body, -, rfl⟩ := found
  rw [Function.comp_apply, ← accessor.identifier_eq]
  rfl

/-- The names of the functions of what is shared are numbered. -/
theorem map_zipIdx {α : Type} (keys : List α) (name : Nat → String) :
    keys.zipIdx.map (fun entry => name entry.2) = (List.range keys.length).map name := by
  have numbers : keys.zipIdx.map (·.2) = List.range keys.length := by
    rw [List.zipIdx_map_snd, List.range_eq_range']
  rw [← numbers, List.map_map]
  rfl

/-- The shared functions by the parts of their names that are their own: those of unordered
writes and of routines by their numbers, and the accessors. -/
def sharedNames (emission : Emission) : List String :=
  (List.range emission.orderings.keys.length).map (fun id => "prefs_" ++ toString id) ++
    (List.range emission.routines.keys.length).map (fun id => "func_" ++ toString id) ++
    accessorNames true ++ accessorNames false

/-- The names that a run defines, in families with a common leader: functions, tables of
orders, instruction tables, operand tables, mnemonics, parameter tables, domains, their
number, and enumerators. -/
def families (set : InstructionSet) (final : Session) : List (String × List String) :=
  [("evoasm_x64_", (set.instructions.map (·.name) ++ sharedNames final.emission).map
      Naming.encoder),
   ("permutations", final.emission.permutations.map fun items =>
      Naming.permutationTable (toString items)),
   ("_", [Naming.staticInstructionTable, Naming.instructionTable]),
   ("operands_", (final.encoded.filter fun entry => !entry.1.operands.isEmpty).map
      fun entry => Naming.operandTable entry.1.name),
   ("name_", set.instructions.map fun instruction => Naming.mnemonic instruction.name),
   ("params_", (final.encoded.filter fun entry => !entry.2.parameters.isEmpty).map
      fun entry => Naming.parameterTable entry.1.name),
   ("param_domain", final.registry.domains.map Domain.name),
   ("evoasm_n_", ["evoasm_n_domains"]),
   ("EVOASM_X64_", enumeratorNames set)]

section Run

variable {set : InstructionSet} {settings : Settings} {final : Session}

/-- The phases that emit functions define them, and tables of orders between them. -/
theorem definedNames_emission (ran : generate (.start set settings) = .ok () final) :
    (final.elementsOf .instructionFunctions).flatMap definedBy =
        set.instructions.map (fun instruction => Naming.encoder instruction.name) ∧
      (final.elementsOf .orderingFunctions).flatMap definedBy =
        (List.range final.emission.orderings.keys.length).map
          (fun id => Naming.orderingFunction (toString id)) ∧
      (final.elementsOf .permutationTables).flatMap definedBy =
        final.emission.permutations.map (fun items => Naming.permutationTable (toString items)) ∧
      (final.elementsOf .routineFunctions).flatMap definedBy =
        (List.range final.emission.routines.keys.length).map
          (fun id => Naming.routineFunction (toString id)) := by
  obtain ⟨instructions, orderings, routines, emits⟩ := generate_emits ran
  refine ⟨?_, ?_, ?_, ?_⟩
  · rw [Session.elementsOf, emits.instructionsFound]
    exact definedBy_partners emits.instructions fun own => IsFunction.defines own
  · rw [Session.elementsOf, emits.orderingsFound, ← map_zipIdx]
    exact definedBy_partners emits.orderings fun own => IsFunction.defines own
  · rw [Session.elementsOf, emits.tablesFound]
    exact definedBy_map (fun _ => rfl) _
  · rw [Session.elementsOf, emits.routinesFound, ← map_zipIdx]
    refine definedBy_partners emits.routines ?_
    rintro _ _ ⟨_, _, -, own⟩
    exact own.defines

/-- The phases that describe the instructions define tables. -/
theorem definedNames_tables (ran : generate (.start set settings) = .ok () final) :
    (final.elementsOf .instructions).flatMap definedBy =
        [Naming.staticInstructionTable, Naming.instructionTable] ∧
      (final.elementsOf .operands).flatMap definedBy =
        (final.encoded.filter fun entry => !entry.1.operands.isEmpty).map
          (fun entry => Naming.operandTable entry.1.name) ∧
      (final.elementsOf .mnemonics).flatMap definedBy =
        set.instructions.map (fun instruction => Naming.mnemonic instruction.name) ∧
      (final.elementsOf .parameters).flatMap definedBy =
        (final.encoded.filter fun entry => !entry.2.parameters.isEmpty).map
          (fun entry => Naming.parameterTable entry.1.name) := by
  obtain ⟨outputs, -⟩ := generate_outputs ran
  refine ⟨?_, ?_, ?_, ?_⟩
  · rw [Session.elementsOf, outputs.rows]
    rfl
  · rw [Session.elementsOf, outputs.operandTables]
    exact definedBy_map (fun _ => rfl) _
  · rw [Session.elementsOf, generate_mnemonics ran]
    exact definedBy_map (fun _ => rfl) _
  · rw [Session.elementsOf, outputs.parameterTables]
    exact definedBy_map (fun _ => rfl) _

/-- The phases that do not depend on the instructions define accessors, domains and
enumerators; structures are types. -/
theorem definedNames_closing (ran : generate (.start set settings) = .ok () final) :
    (final.elementsOf .parameterStructures).flatMap definedBy = [] ∧
      (final.elementsOf .accessorStubs).flatMap definedBy =
        (accessorNames true).map Naming.encoder ∧
      (final.elementsOf .domains).flatMap definedBy =
        final.registry.domains.map Domain.name ++ ["evoasm_n_domains"] ∧
      (final.elementsOf .enumerations).flatMap definedBy = enumeratorNames set ∧
      (final.elementsOf .accessors).flatMap definedBy =
        (accessorNames false).map Naming.encoder := by
  obtain ⟨-, described⟩ := generate_encodes ran
  obtain ⟨_, _, structures, -, arranged, structuresFound⟩ :=
    described .parameterStructures (by simp [descriptionPhases])
  obtain ⟨stubs, stubbed, stubsFound⟩ := generate_accessorStubs ran
  obtain ⟨_, _, accessors, -, listed, accessorsFound⟩ :=
    described .accessors (by simp [descriptionPhases])
  rw [produce_accessors, Run.ofExcept_ok_iff] at listed
  obtain ⟨_, _, _, first, second, rfl⟩ := produce_parameterStructures_ok_iff.mp arranged
  obtain ⟨full, -, rfl, -⟩ := parameterStructure_ok_iff.mp first
  obtain ⟨basic, -, rfl, -⟩ := parameterStructure_ok_iff.mp second
  refine ⟨?_, ?_, ?_, ?_, ?_⟩
  · rw [Session.elementsOf, structuresFound]
    rfl
  · rw [Session.elementsOf, stubsFound]
    exact definedBy_accessors stubbed
  · rw [Session.elementsOf, (generate_domains ran).2.1, Option.getD_some, domainConstants,
      List.flatMap_append, definedBy_map (fun _ => rfl)]
    rfl
  · rw [Session.elementsOf, generate_enumerations ran, Option.getD_some, List.flatMap_map]
    exact List.flatMap_def
  · rw [Session.elementsOf, accessorsFound]
    exact definedBy_accessors listed.1

/-- A complete run defines the names of the families. -/
theorem definedNames_perm (ran : generate (.start set settings) = .ok () final) :
    final.definedNames.Perm ((families set final).flatMap (·.2)) := by
  obtain ⟨encoders, orderings, permutations, routines⟩ := definedNames_emission ran
  obtain ⟨rows, operands, mnemonics, parameters⟩ := definedNames_tables ran
  obtain ⟨structures, stubs, domains, enumerators, accessors⟩ := definedNames_closing ran
  refine List.perm_iff_count.mpr fun name => ?_
  simp only [Session.definedNames, Phase.all, List.flatMap_cons, List.flatMap_nil, encoders,
    orderings, permutations, routines, rows, operands, mnemonics, parameters, structures, stubs,
    domains, enumerators, accessors, families, sharedNames, List.map_append, List.map_map,
    List.count_append, List.count_nil]
  have ordered : (fun id => Naming.orderingFunction (toString id)) =
      Naming.encoder ∘ fun id : Nat => "prefs_" ++ toString id := rfl
  have called : (fun id => Naming.routineFunction (toString id)) =
      Naming.encoder ∘ fun id : Nat => "func_" ++ toString id := rfl
  have named : (fun instruction : Instruction => Naming.encoder instruction.name) =
      Naming.encoder ∘ (·.name) := rfl
  rw [ordered, called, named]
  ac_rfl

end Run

end Generator

end EncoderTables
