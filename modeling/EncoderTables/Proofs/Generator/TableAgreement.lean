import EncoderTables.Proofs.Generator.OperandFailures
import EncoderTables.Proofs.Generator.ParameterLists
import EncoderTables.Proofs.Generator.ParameterTables
import EncoderTables.Proofs.Instruction.Filling
import EncoderTables.Proofs.Naming

/-!
# Agreement of the tables

The rows of the instruction table, the parameter and operand tables and the enumeration of the
instructions are produced one after the other from what has been encoded. Nothing about it
changes in between, so they agree: each position belongs to one instruction in all of them,
counts and references fit the tables that are emitted, and operands refer to the rows of
their parameters.
-/

namespace EncoderTables.Generator

open Steps

/-- The tables of a name. -/
def tablesNamed (tables : List Code.Element) (name : String) : List Code.Element :=
  tables.filter fun element => element.name? == some name

/-- How two fields of a row describe the table of a name: one counts its rows, the other refers
to it. The table is emitted once if it has rows, else there is none and no reference. -/
structure Refers (tables : List Code.Element) (type name : String) (rows : List (List String))
    (count reference : Option String) : Prop where
  emitted : tablesNamed tables name = if rows.isEmpty then [] else [tableOf type name rows]
  counted : count = some (toString rows.length)
  missing : reference = some "NULL" ↔ tablesNamed tables name = []
  present : tablesNamed tables name ≠ [] → reference = some ("(" ++ type ++ " *) " ++ name)

/-- What a session has produced about its instructions: the rows of their table by their
fields, the tables of their parameters and operands, their enumeration and the width of the
positions of parameters. -/
structure Outputs where
  rows : List (List String)
  parameterTables : List Code.Element
  operandTables : List Code.Element
  enumeration : Code.Enumeration
  indexBits : Nat

/-- The outputs are those of a session. -/
structure Outputs.Of (session : Session) (outputs : Outputs) : Prop where
  rows : session.elements.lookup .instructions =
    some [tableOf "evoasm_x64_inst_t" "__evoasm_x64_insts" outputs.rows, publicReference]
  parameterTables : session.elements.lookup .parameters = some outputs.parameterTables
  operandTables : session.elements.lookup .operands = some outputs.operandTables
  enumeration : ∃ further, session.elements.lookup .enumerations =
    some (.enumeration outputs.enumeration :: further)
  enumerated : outputs.enumeration.name = "evoasm_x64_inst_id_t"
  indexBits : session.scalars.lookup "param_idx_bitsize" = some (.number outputs.indexBits)

/-- The outputs are about certain instructions and nothing else. -/
structure Outputs.Only (outputs : Outputs) (instructions : List Instruction) : Prop where
  rows : outputs.rows.length = instructions.length
  parameterTables : ∀ table ∈ outputs.parameterTables, ∃ instruction ∈ instructions,
    table.name? = some ("params_" ++ instruction.name)
  operandTables : ∀ table ∈ outputs.operandTables, ∃ instruction ∈ instructions,
    table.name? = some ("operands_" ++ instruction.name)
  enumerators : outputs.enumeration.values =
    instructions.map (fun instruction => (Naming.instruction instruction.name, .text "")) ++
      [("EVOASM_X64_N_INSTS", .text "")]

/-- The outputs agree on the instruction at a position, whose row has the given fields, whose
parameter table has the given rows and whose operands refer to the given positions. -/
structure Outputs.Agree (outputs : Outputs) (position : Nat) (instruction : Instruction)
    (fields : List String) (parameters : List (String × Domain)) (index : Operand → Nat) :
    Prop where
  row : outputs.rows[position]? = some fields
  numbered : instruction.position = some position
  named : fields[1]? = some (Naming.instruction instruction.name)
  enumerated : outputs.enumeration.values[position]? =
    some (Naming.instruction instruction.name, .text "")
  parameterTable : Refers outputs.parameterTables "evoasm_x64_param_t"
    ("params_" ++ instruction.name) (parameters.map parameterFields) fields[2]? fields[6]?
  operandTable : Refers outputs.operandTables "evoasm_x64_operand_t"
    ("operands_" ++ instruction.name)
    (instruction.operands.map fun operand => operandFields operand (index operand))
    fields[0]? fields[8]?
  distinct : (parameters.map (·.1)).Nodup
  indexed : ∀ operand ∈ instruction.operands, ∀ parameter,
    operand.parameter = some parameter →
      (parameters.map (·.1))[index operand]? = some parameter
  unindexed : ∀ operand ∈ instruction.operands, operand.parameter = none →
    index operand = parameters.length
  carried : ∀ operand ∈ instruction.operands,
    (operandFields operand (index operand))[6]? = some (toString (index operand))
  narrow : ∀ operand ∈ instruction.operands, index operand < 2 ^ outputs.indexBits

/-- An entry of a list with different names is the only one of its name. -/
theorem filter_name {entries : List (Instruction × Emitter)}
    (distinct : (entries.map fun entry => entry.1.name).Nodup)
    {entry : Instruction × Emitter} (member : entry ∈ entries)
    (keep : Instruction × Emitter → Bool) :
    entries.filter (fun other => other.1.name == entry.1.name && keep other) =
      if keep entry then [entry] else [] := by
  induction entries with
  | nil => cases member
  | cons first rest inductionHypothesis =>
    rw [List.map_cons, List.nodup_cons] at distinct
    obtain ⟨new, distinct⟩ := distinct
    rcases List.mem_cons.mp member with rfl | later
    · have others : rest.filter (fun other => other.1.name == entry.1.name && keep other) = [] := by
        rw [List.filter_eq_nil_iff]
        intro other listed
        have different : other.1.name ≠ entry.1.name := by
          intro same
          exact new (same ▸ List.mem_map_of_mem listed)
        simp [different]
      rw [List.filter_cons, others]
      simp
    · have different : first.1.name ≠ entry.1.name := by
        intro same
        exact new (same ▸ List.mem_map_of_mem later)
      rw [List.filter_cons_of_neg (by simp [different])]
      exact inductionHypothesis distinct later

/-- When the instructions with rows have tables, an instruction has a table of its name exactly
when it has rows. -/
theorem tablesNamed_eq {entries : List (Instruction × Emitter)}
    (distinct : (entries.map fun entry => entry.1.name).Nodup)
    {entry : Instruction × Emitter} (member : entry ∈ entries)
    {keep : Instruction × Emitter → Bool} {table : Instruction × Emitter → Code.Element}
    {naming : String → String} (different : naming.Injective)
    (named : ∀ entry, (table entry).name? = some (naming entry.1.name)) :
    tablesNamed ((entries.filter keep).map table) (naming entry.1.name) =
      if keep entry then [table entry] else [] := by
  have own : ((fun element : Code.Element => element.name? == some (naming entry.1.name)) ∘
      table) = fun other => other.1.name == entry.1.name := by
    funext other
    rw [Function.comp_apply, named, Bool.eq_iff_iff, beq_iff_eq, beq_iff_eq, Option.some.injEq]
    exact different.eq_iff
  rw [tablesNamed, List.filter_map, own, List.filter_filter, filter_name distinct member]
  split <;> rfl

/-- Different instructions have different parameter tables. -/
theorem parameterTable_injective : Naming.parameterTable.Injective := by
  intro first second same
  simpa [Naming.parameterTable] using same

/-- Different instructions have different operand tables. -/
theorem operandTable_injective : Naming.operandTable.Injective := by
  intro first second same
  simpa [Naming.operandTable] using same

/-- A reference to a table is no missing reference. -/
theorem reference_ne_null (type name : String) : "(" ++ type ++ " *) " ++ name ≠ "NULL" := by
  intro same
  have letters := congrArg String.toList same
  simp at letters

/-- A row with a count and a reference describes the table that is emitted for its rows. -/
theorem Refers.of_emitted {tables : List Code.Element} {type name : String}
    {rows : List (List String)} {size : Nat} {empty : Bool}
    (emitted : tablesNamed tables name = if !empty then [tableOf type name rows] else [])
    (counted : size = rows.length) (without : empty = rows.isEmpty) :
    Refers tables type name rows (some (toString size))
      (some (referenceText (!empty) type name)) := by
  subst counted without
  cases none : rows.isEmpty with
  | true =>
    simp only [none, Bool.not_true, Bool.false_eq_true, if_false] at emitted
    exact ⟨by simp [emitted, none], rfl, by simp [emitted, referenceText], by simp [emitted]⟩
  | false =>
    simp only [none, Bool.not_false, if_true] at emitted
    refine ⟨by simp [emitted, none], rfl, ?_, ?_⟩
    · simp [emitted, referenceText, reference_ne_null]
    · simp [referenceText]

/-- A number of a list is at most its greatest one. -/
theorem le_foldl_max {number least : Nat} {numbers : List Nat} :
    number ≤ least ∨ number ∈ numbers → number ≤ numbers.foldl max least := by
  induction numbers generalizing least with
  | nil => simp
  | cons first rest inductionHypothesis =>
    rintro (small | member)
    · exact inductionHypothesis (Or.inl (small.trans (Nat.le_max_left ..)))
    · rcases List.mem_cons.mp member with rfl | later
      · exact inductionHypothesis (Or.inl (Nat.le_max_right ..))
      · exact inductionHypothesis (Or.inr later)

/-- The width of positions is that of the greatest number of parameters. -/
theorem scalars_indexBits (session : Session) :
    session.scalars.lookup "param_idx_bitsize" =
      some (.number (Bits.length session.maxParameters)) := rfl

/-- The number of an instruction's parameters can be told in the width of positions. -/
theorem parameters_lt {session : Session} {entry : Instruction × Emitter}
    (member : entry ∈ session.encoded) :
    entry.2.parameters.length < 2 ^ Bits.length session.maxParameters := by
  have greatest : entry.2.parameters.length ≤ session.maxParameters :=
    le_foldl_max (Or.inr (List.mem_map.mpr ⟨entry, member, rfl⟩))
  have held := (Bits.length_le_iff session.maxParameters _).mp le_rfl
  rw [Bits.capacity, Nat.one_shiftLeft] at held
  omega

/-- The enumeration of the instructions lists their constants in their order, and then the one
that counts them. -/
theorem instructionEnumeration_values {set : InstructionSet} (filled : set.Filled) :
    (instructionEnumeration set).values =
      set.instructions.map (fun instruction =>
        (Naming.instruction instruction.name, .text "")) ++ [("EVOASM_X64_N_INSTS", .text "")] := by
  have count : Naming.count "insts" = "EVOASM_X64_N_INSTS" := by decide
  have symbols : symbolConstants (some "inst") (set.instructions.map (·.name)) =
      set.instructions.map fun instruction =>
        (Naming.instruction instruction.name, Scalar.text "") := by
    simp only [symbolConstants, List.map_map]
    rfl
  rw [← count, ← symbols]
  refine Code.Enumeration.values_ofValues _ _ _ ?_
  have constants : (symbolConstants (some "inst") (set.instructions.map (·.name))).map (·.1) =
      (set.instructions.map (·.name)).map Naming.instruction := by
    simp only [symbolConstants, List.map_map]
    rfl
  rw [List.map_append, constants, List.map_singleton, List.nodup_append]
  refine ⟨?_, by simp, ?_⟩
  · refine List.Nodup.map_on ?_ filled.registered.distinct
    intro first one second two same
    obtain ⟨former, listed, rfl⟩ := List.mem_map.mp one
    obtain ⟨latter, known, rfl⟩ := List.mem_map.mp two
    exact Naming.eq_of_instruction (filled.sound listed).1 (filled.sound known).1 same
  · intro constant member count single
    obtain ⟨name, -, rfl⟩ := List.mem_map.mp member
    rw [List.mem_singleton.mp single]
    exact Naming.instruction_ne_count name

/-- The enumerations of a complete run are those of its set. -/
theorem generate_enumerations {set : InstructionSet} {settings : Settings} {final : Session}
    (ran : generate (.start set settings) = .ok () final) :
    final.elements.lookup .enumerations =
      some ((instructionEnumeration set :: furtherEnumerations set).map .enumeration) := by
  obtain ⟨encoded, described⟩ := generate_encodes ran
  obtain ⟨_, _, listing, agrees, made, found⟩ :=
    described .enumerations (by simp [descriptionPhases])
  rw [produce_enumerations, Run.ofExcept_ok_iff, agrees.set, encoded.source, enumerations_eq,
    Except.ok.injEq] at made
  rw [found, made.1]

/-- The outputs of a session that agree with each other. -/
def outputsOf (set : InstructionSet) (session : Session) : Outputs where
  rows := session.encoded.map fun entry => instructionFields entry.1 entry.2.parameters
  parameterTables := (session.encoded.filter fun entry => !entry.2.parameters.isEmpty).map
    tableElement
  operandTables := (session.encoded.filter fun entry => !entry.1.operands.isEmpty).map
    operandElement
  enumeration := instructionEnumeration set
  indexBits := Bits.length session.maxParameters

/-- Behind a complete run these are the outputs, and all operands have listed parameters. -/
theorem generate_outputs {set : InstructionSet} {settings : Settings} {final : Session}
    (ran : generate (.start set settings) = .ok () final) :
    (outputsOf set final).Of final ∧
      ∀ entry ∈ final.encoded, ∀ operand ∈ entry.1.operands,
        IsListed entry.2.parameters operand := by
  obtain ⟨-, described⟩ := generate_encodes ran
  obtain ⟨_, _, rows, rowsAgree, rowsMade, rowsFound⟩ :=
    described .instructions (by simp [descriptionPhases])
  obtain ⟨_, _, tables, tablesAgree, tablesMade, tablesFound⟩ :=
    described .operands (by simp [descriptionPhases])
  rw [produce_instructions] at rowsMade
  obtain ⟨rfl, -⟩ := EStateM.Result.ok.inj rowsMade
  rw [produce_operands, Run.ofExcept_ok_iff, operandTables_ok_iff,
    tablesAgree.encoded_eq] at tablesMade
  obtain ⟨⟨listed, rfl⟩, -⟩ := tablesMade
  have named : Naming.enumType "inst_id" = "evoasm_x64_inst_id_t" := by decide
  refine ⟨⟨?_, (generate_tables ran).2, tablesFound, ⟨_, generate_enumerations ran⟩,
    (Code.Enumeration.name_ofValues ..).trans named, scalars_indexBits final⟩, listed⟩
  rw [rowsFound, rowsAgree.encoded_eq, outputsOf, ← instructionTables_eq, List.map_map]
  rfl

/-- These outputs are about the instructions of the set. -/
theorem outputsOf_only {set : InstructionSet} (filled : set.Filled) {settings : Settings}
    {final : Session} (ran : generate (.start set settings) = .ok () final) :
    (outputsOf set final).Only set.instructions := by
  have instructions := (generate_encodes ran).1.map_fst_encoded
  have own {entry : Instruction × Emitter} (member : entry ∈ final.encoded) :
      entry.1 ∈ set.instructions := instructions ▸ List.mem_map_of_mem member
  constructor
  case rows => rw [← instructions, outputsOf, List.length_map, List.length_map]
  case parameterTables =>
    intro table listed
    obtain ⟨entry, kept, rfl⟩ := List.mem_map.mp listed
    exact ⟨entry.1, own (List.mem_of_mem_filter kept), rfl⟩
  case operandTables =>
    intro table listed
    obtain ⟨entry, kept, rfl⟩ := List.mem_map.mp listed
    exact ⟨entry.1, own (List.mem_of_mem_filter kept), rfl⟩
  case enumerators => exact instructionEnumeration_values filled

/-- The outputs agree on each instruction. -/
theorem outputsOf_agree {set : InstructionSet} (filled : set.Filled) {settings : Settings}
    {final : Session} (ran : generate (.start set settings) = .ok () final)
    {position : Nat} {entry : Instruction × Emitter}
    (found : final.encoded[position]? = some entry) :
    (outputsOf set final).Agree position entry.1
      (instructionFields entry.1 entry.2.parameters) (tableRows entry)
      (operandIndex entry.2.parameters) := by
  obtain ⟨encoded, -⟩ := generate_encodes ran
  obtain ⟨-, listed⟩ := generate_outputs ran
  have member := List.mem_of_getElem? found
  have rows : (tableRows entry).map (·.1) = entry.2.parameters :=
    (generate_tables ran).1 entry member
  have size : entry.2.parameters.length = (tableRows entry).length := by
    rw [← rows, List.length_map]
  have instructions := encoded.map_fst_encoded
  have own : set.instructions[position]? = some entry.1 := by
    rw [← instructions, List.getElem?_map, found]
    rfl
  have distinct : (final.encoded.map fun entry => entry.1.name).Nodup := by
    have names := filled.registered.distinct
    rwa [← instructions, List.map_map] at names
  refine {
    row := by simp [outputsOf, found]
    numbered := filled.registered.numbered position entry.1 own
    named := rfl
    enumerated := ?_
    parameterTable := ?_
    operandTable := ?_
    distinct := rows ▸ (encoded.entry member).1
    indexed := ?_
    unindexed := ?_
    carried := fun _ _ => rfl
    narrow := ?_ }
  · have inside := (List.getElem?_eq_some_iff.mp own).1
    rw [outputsOf, instructionEnumeration_values filled,
      List.getElem?_append_left (by simpa using inside), List.getElem?_map, own]
    rfl
  · refine Refers.of_emitted ?_ (by rw [List.length_map, size]) ?_
    · exact tablesNamed_eq distinct member parameterTable_injective fun _ => rfl
    · rw [Bool.eq_iff_iff, List.isEmpty_iff_length_eq_zero, List.isEmpty_iff_length_eq_zero,
        List.length_map, size]
  · refine Refers.of_emitted ?_ (by rw [List.length_map]) (by simp)
    exact tablesNamed_eq distinct member operandTable_injective fun _ => rfl
  · intro operand inside parameter bound
    rw [rows, operandIndex, bound]
    exact List.getElem?_idxOf (listed entry member operand inside parameter bound)
  · intro operand inside free
    rw [operandIndex, free, size]
  · intro operand inside
    refine lt_of_le_of_lt ?_ (parameters_lt member)
    unfold operandIndex
    split
    · exact le_rfl
    · exact List.idxOf_le_length

/-- The phase of the operand tables is refused for a parameter that is not listed exactly when
an encoded instruction has an operand with such a parameter, and these are all instructions of
the set in whichever order phases have run. When all phases have run, rows, tables,
enumeration and positions agree on every instruction, and there are none of others. -/
theorem tables_agree (set : InstructionSet) (settings : Settings) :
    (∀ session : Session,
      (∃ failure after, runNamed "inst_operands" session = .error failure after ∧
        NotListed failure.cause) ↔
      checkPhase session .operands = .ok () ∧
        ∃ entry ∈ session.encoded, ∃ operand ∈ entry.1.operands, ∃ parameter,
          operand.parameter = some parameter ∧ parameter ∉ entry.2.parameters) ∧
    (∀ names session, runAll names (.start set settings) = .ok () session →
      checkPhase session .operands = .ok () →
      session.encoded.map (·.1) = set.instructions) ∧
    ∀ final, set.Filled → generate (.start set settings) = .ok () final →
      ∃ outputs : Outputs, outputs.Of final ∧ outputs.Only set.instructions ∧
        ∀ position instruction, set.instructions[position]? = some instruction →
          ∃ fields parameters index,
            outputs.Agree position instruction fields parameters index := by
  refine ⟨operands_refused_iff, fun _ _ => encoded_of_allowed, ?_⟩
  intro final filled ran
  have instructions := (generate_encodes ran).1.map_fst_encoded
  refine ⟨outputsOf set final, (generate_outputs ran).1, outputsOf_only filled ran, ?_⟩
  intro position instruction found
  rw [← instructions, List.getElem?_map, Option.map_eq_some_iff] at found
  obtain ⟨entry, listed, rfl⟩ := found
  exact ⟨_, _, _, outputsOf_agree filled ran listed⟩

/-- The tables of a shared routine's callers agree, and so do the instructions that are encoded
when the operand tables are produced. -/
theorem tables_of_sharing : ∃ set final, sharingSet = .ok set ∧ set.Filled ∧
    generate (.start set .default) = .ok () final ∧
    (∃ outputs : Outputs, outputs.Of final ∧ outputs.Only set.instructions ∧
      ∀ position instruction, set.instructions[position]? = some instruction →
        ∃ fields parameters index,
          outputs.Agree position instruction fields parameters index) ∧
    ∃ names session, runAll names (.start set .default) = .ok () session ∧
      checkPhase session .operands = .ok () ∧
      session.encoded.map (·.1) = set.instructions := by
  have evaluated : Results.passes tablesSucceed sharingSet = true := by
    decide +kernel
  obtain ⟨set, made, succeed⟩ := Results.exists_ok evaluated
  obtain ⟨final, ran⟩ := generate_succeeds succeed
  have filled : set.Filled := by
    have found := made
    simp only [sharingSet, Results.bind_ok_iff] at found
    obtain ⟨first, one, second, two, added⟩ := found
    exact ⟨[first, second], by simpa using ⟨⟨_, _, _, _, _, _, _, _, one⟩,
      ⟨_, _, _, _, _, _, _, _, two⟩⟩, added⟩
  have phases : Phase.all.map Phase.name =
      (emissionPhases ++ [Phase.instructions]).map Phase.name ++
        (Phase.operands :: descriptionPhases.drop 2).map Phase.name := rfl
  have steps := ran
  rw [generate_eq, phases] at steps
  obtain ⟨session, former, latter⟩ := (runAll_append_ok_iff ..).mp steps
  simp only [List.map_cons, runAll, bind_ok_iff, runNamed_name] at latter
  obtain ⟨_, _, next, -⟩ := latter
  obtain ⟨-, encoded, agree⟩ := tables_agree set .default
  exact ⟨set, final, made, filled, ran, agree final filled ran, _, session, former,
    (runOne_ok next).1, encoded _ session former (runOne_ok next).1⟩

end EncoderTables.Generator
