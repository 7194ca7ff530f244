import EncoderTables.Proofs.Generator.DomainConstants
import EncoderTables.Proofs.Generator.Enumerators
import EncoderTables.Proofs.Generator.SharedStorage
import EncoderTables.Proofs.Generator.TableAgreement
import EncoderTables.Proofs.Instruction.Contents
import EncoderTables.Proofs.Text.Reading

/-!
# Constants of the tables

The tables of instructions, operands and parameters and the domains mention constants that the
enumerations declare: of instructions, their flags, operand types and sizes, register types and
registers, bit masks, parameters and counts. All of them are declared but for the sizes of
operands: a size can be any number, and only some sizes have a constant.
-/

namespace EncoderTables.Generator

open Steps
open Naming (constantLeader groupLeader)

/-- The constants that a text mentions. -/
def constants (text : String) : List (List Char) :=
  (Text.words text.toList).filter constantLeader.isPrefixOf

/-- Texts that are kept apart mention the constants of both. -/
theorem constants_append_append {row : String}
    (stops : row.toList.all fun c => !Text.isIdentifierPart c) (nonempty : row ≠ "")
    (first second : String) :
    constants (first ++ row ++ second) = constants first ++ constants second := by
  have split := Text.words_append_append (by simpa using stops)
    (fun none => nonempty (String.toList_inj.mp none)) first.toList second.toList
  rw [constants, String.toList_append, String.toList_append, split, List.filter_append]
  rfl

/-- What stands around a text without characters of identifiers mentions no constants. -/
theorem constants_framed {before after : String}
    (front : before.toList.all fun c => !Text.isIdentifierPart c)
    (back : after.toList.all fun c => !Text.isIdentifierPart c) (text : String) :
    constants (before ++ text ++ after) = constants text := by
  rw [constants, String.toList_append, String.toList_append,
    Text.words_framed (by simpa using front) (by simpa using back)]
  rfl

/-- Separated texts mention the constants of all. -/
theorem constants_intercalate {row : String}
    (stops : row.toList.all fun c => !Text.isIdentifierPart c) (nonempty : row ≠ "")
    (texts : List String) : constants (row.intercalate texts) = texts.flatMap constants := by
  induction texts with
  | nil => rfl
  | cons first rest inductionHypothesis =>
    cases rest with
    | nil => simp
    | cons second rest =>
      rw [String.intercalate_cons_cons, constants_append_append stops nonempty,
        inductionHypothesis]
      exact List.flatMap_cons.symm

/-- A table mentions the constants of its rows. -/
theorem constants_tableValue (rows : List String) :
    constants (tableValue rows) = rows.flatMap constants := by
  rw [tableValue, constants_framed (by decide) (by decide),
    constants_intercalate (by decide) (by decide)]

/-- A row mentions the constants of its fields. -/
theorem constants_rowText (fields : List String) :
    constants (rowText fields) = fields.flatMap constants := by
  rw [rowText, constants_framed (by decide) (by decide),
    constants_intercalate (by decide) (by decide)]

/-- Without the first letter of the leader there is no constant. -/
theorem constants_eq_nil {text : String} (without : 'E' ∉ text.toList) : constants text = [] := by
  refine List.filter_eq_nil_iff.mpr fun word member leads => ?_
  obtain ⟨rest, rfl⟩ := List.isPrefixOf_iff_prefix.mp leads
  exact without (Text.mem_of_mem_words member (List.mem_append_left rest (by decide))).1

/-- The text of a constant mentions it and nothing else. -/
theorem constants_of_parts {text : String} (parts : text.toList.all Text.isIdentifierPart)
    (leads : constantLeader.isPrefixOf text.toList) : constants text = [text.toList] := by
  have nonempty : text.toList ≠ [] := by
    rintro none
    rw [none] at leads
    exact absurd leads (by decide)
  rw [constants, Text.words_of_parts (by simpa using parts) nonempty]
  simp [leads]

/-- The names of the enumerators of an element. -/
def enumeratorsOf : Code.Element → List String
  | .enumeration listed => listed.values.map (·.1)
  | _ => []

/-- The initializer of an element. -/
def initializerOf : Code.Element → String
  | .value declared => declared.value
  | _ => ""

/-- The elements that a phase has left behind, if it has run. -/
def Session.elementsOf (session : Session) (phase : Phase) : List Code.Element :=
  (session.elements.lookup phase).getD []

/-- The constants that the enumerations of a session declare. -/
def Session.declaredConstants (session : Session) : List (List Char) :=
  ((session.elementsOf .enumerations).flatMap enumeratorsOf).flatMap constants

/-- The phases of the tables that mention constants. -/
def mentioningPhases : List Phase := [.instructions, .operands, .parameters, .domains]

/-- The constants that the tables of a session mention. -/
def Session.mentionedConstants (session : Session) : List (List Char) :=
  ((mentioningPhases.flatMap session.elementsOf).map initializerOf).flatMap constants

/-- The constants that the enumerations of a set declare. -/
def declared (set : InstructionSet) : List (List Char) := (enumeratorNames set).flatMap constants

/-- The constants of symbols are declared. -/
theorem member_declared {set : InstructionSet} {group symbol : String} {symbols : List String}
    (grouped : (group, symbols) ∈ allGroups set) (known : symbol ∈ symbols) :
    constants (Naming.member group symbol) ⊆ declared set := by
  intro word mentioned
  exact List.mem_flatMap.mpr
    ⟨_, mem_enumeratorNames_iff.mpr ⟨_, grouped, symbol, known, rfl⟩, mentioned⟩

/-- The constants of counts are declared. -/
theorem count_declared (set : InstructionSet) {what : String}
    (counted : some what ∈ countedSymbols) : constants (Naming.count what) ⊆ declared set := by
  rw [Naming.count_eq_member]
  exact member_declared List.mem_cons_self (List.mem_filterMap.mpr ⟨_, counted, rfl⟩)

/-- The constant of a size. -/
def sizeLetters (size : Nat) : List Char := (Naming.operandSize (toString size)).toList

/-- Words do not start with two leaders unless one is a start of the other. -/
theorem not_prefix_of_apart {leader other rest : List Char}
    (apart : ¬leader <+: other ∧ ¬other <+: leader) : ¬leader <+: other ++ rest := by
  intro leads
  rcases List.prefix_or_prefix_of_prefix leads (List.prefix_append other rest) with one | two
  · exact apart.1 one
  · exact apart.2 two

/-- The constant of a size has its digits behind the leader of the sizes. -/
theorem sizeLetters_eq (size : Nat) :
    sizeLetters size = groupLeader "operand_size" ++ Nat.toDigits 10 size := by
  rw [sizeLetters, Naming.operandSize, Naming.toList_member, Text.upperLetters_number]

/-- The constant of a size mentions itself. -/
theorem constants_size (size : Nat) :
    constants (Naming.operandSize (toString size)) = [sizeLetters size] := by
  have letters := sizeLetters_eq size
  refine constants_of_parts ?_ ?_
  · change (sizeLetters size).all _ = true
    rw [letters, List.all_append, Bool.and_eq_true]
    refine ⟨by decide, List.all_eq_true.mpr fun c member => ?_⟩
    exact (Text.upperChar_digit (Text.isDigit_of_mem_digits member)).2
  · change constantLeader.isPrefixOf (sizeLetters size) = true
    rw [letters, List.isPrefixOf_iff_prefix, groupLeader, List.append_assoc]
    exact List.prefix_append _ _

/-- The sizes with an id are one of the groups. -/
theorem sizes_grouped (set : InstructionSet) :
    ("operand_size", Arch.operandSizes.map toString) ∈ allGroups set := by
  simp [mem_allGroups, fixedGroups]

/-- Only the sizes have their leader, and no other group has one that goes with it. -/
theorem leaders_apart {set : InstructionSet} {group : String × List String}
    (grouped : group ∈ allGroups set) :
    group = ("operand_size", Arch.operandSizes.map toString) ∨
      ¬groupLeader "operand_size" <+: groupLeader group.1 ∧
        ¬groupLeader group.1 <+: groupLeader "operand_size" := by
  have instructions : ¬groupLeader "operand_size" <+: groupLeader "inst" ∧
      ¬groupLeader "inst" <+: groupLeader "operand_size" := by
    decide
  have masks : ¬groupLeader "operand_size" <+: groupLeader "bit_mask" ∧
      ¬groupLeader "bit_mask" <+: groupLeader "operand_size" := by
    decide
  rcases mem_allGroups.mp grouped with rfl | fixed | rfl
  · exact Or.inr instructions
  · have each : ∀ group ∈ ("n", countedSymbols.filterMap id) :: fixedGroups,
        group = ("operand_size", Arch.operandSizes.map toString) ∨
          ¬groupLeader "operand_size" <+: groupLeader group.1 ∧
            ¬groupLeader group.1 <+: groupLeader "operand_size" := by
      decide
    exact each group fixed
  · exact Or.inr masks

/-- A size is declared exactly when it is one of the sizes with an id. -/
theorem sizeLetters_declared_iff {set : InstructionSet} (filled : set.Filled) (size : Nat) :
    sizeLetters size ∈ declared set ↔ size ∈ Arch.operandSizes := by
  constructor
  · intro member
    obtain ⟨name, listed, mentioned⟩ := List.mem_flatMap.mp member
    obtain ⟨group, grouped, symbol, known, rfl⟩ := mem_enumeratorNames_iff.mp listed
    obtain ⟨rest, word, plain⟩ := words_member filled grouped known
    rw [constants, word] at mentioned
    have letters := List.mem_singleton.mp (List.mem_filter.mp mentioned).1
    rw [sizeLetters_eq] at letters
    rcases leaders_apart grouped with rfl | apart
    · obtain ⟨other, declared, rfl⟩ := List.mem_map.mp known
      rw [plain (by decide), Text.upperLetters_number, List.append_cancel_left_eq] at letters
      exact digits_injective letters ▸ declared
    · exact absurd (letters ▸ List.prefix_append _ _) (not_prefix_of_apart apart)
  · intro known
    refine member_declared (sizes_grouped set) (List.mem_map_of_mem known) ?_
    exact (constants_size size).symm ▸ List.mem_singleton_self _

/-- The widths that the row of an operand mentions. -/
def HasWidth (operand : Operand) (size : Nat) : Prop :=
  operand.valueSize = some size ∨ operand.memorySize = some size

/-- Texts without the first letter of the leader mention nothing that is not declared. -/
theorem subset_declared_of_plain (set : InstructionSet) {text : String}
    (without : 'E' ∉ text.toList) : constants text ⊆ declared set := by
  rw [constants_eq_nil without]
  exact List.nil_subset _

/-- The digits of a number are no letters. -/
theorem not_mem_toString (value : Nat) : 'E' ∉ (toString value).toList := by
  have digits : (toString value).toList = Nat.toDigits 10 value := by simp
  rw [digits]
  exact not_mem_digits (by decide) value

/-- The number or the register that an operand is fixed to mentions what is declared. -/
theorem fixedValue_declared {set : InstructionSet} {operand : Operand}
    (identified : operand.Identified) : constants (fixedValue operand) ⊆ declared set := by
  have registers : ("reg", Arch.registerNames ++ ["none"]) ∈ allGroups set := by
    simp [mem_allGroups, fixedGroups]
  have register (kind : operand.shape.kind = .reg ∨ operand.shape.kind = .rm) :
      constants (Naming.register (operand.shape.register.getD "none")) ⊆ declared set := by
    refine member_declared registers ?_
    cases found : operand.shape.register with
    | none => simp
    | some name => simp [identified kind name found]
  unfold fixedValue
  split
  · next kind => exact register (Or.inl kind)
  · next kind => exact register (Or.inr kind)
  · split
    · exact subset_declared_of_plain set (not_mem_toString _)
    · exact subset_declared_of_plain set (by decide)
  all_goals exact subset_declared_of_plain set (by decide)

/-- Putting a range at its place adds it. -/
theorem mem_insertRange {range other : Operand.BitRange} {ranges : List Operand.BitRange} :
    other ∈ InstructionSet.insertRange range ranges ↔ other = range ∨ other ∈ ranges := by
  induction ranges with
  | nil => simp [InstructionSet.insertRange]
  | cons first rest inductionHypothesis =>
    unfold InstructionSet.insertRange
    split
    · next same => simp [same]
    · split
      · simp
      · rw [List.mem_cons, inductionHypothesis, List.mem_cons]
        exact or_left_comm

/-- The ranges of a set are those that its operands write. -/
theorem mem_writtenRanges {set : InstructionSet} {range : Operand.BitRange} :
    range ∈ set.writtenRanges ↔ ∃ instruction ∈ set.instructions,
      ∃ operand ∈ instruction.operands, operand.entry.range? .written = some range := by
  have gathered (ranges : List Operand.BitRange) :
      range ∈ ranges.foldr InstructionSet.insertRange [] ↔ range ∈ ranges := by
    induction ranges with
    | nil => rfl
    | cons first rest inductionHypothesis =>
      rw [List.foldr_cons, mem_insertRange, inductionHypothesis, List.mem_cons]
  rw [InstructionSet.writtenRanges, gathered]
  simp only [List.mem_flatMap, List.mem_filterMap]

/-- The range that an operand writes has a bit mask. -/
theorem bitMask_declared {set : InstructionSet} {instruction : Instruction}
    (member : instruction ∈ set.instructions) {operand : Operand}
    (inside : operand ∈ instruction.operands) :
    constants (Naming.bitMask ((operand.entry.range? .written).map boundsOf)) ⊆ declared set := by
  have masks : ("bit_mask", bitMaskNames set) ∈ allGroups set := by simp [mem_allGroups]
  cases written : operand.entry.range? .written with
  | none => exact member_declared masks (List.mem_append_right _ (List.mem_singleton_self _))
  | some range =>
    have listed := mem_writtenRanges.mpr ⟨instruction, member, operand, inside, written⟩
    exact member_declared masks (List.mem_append_left _ (List.mem_map_of_mem listed))

/-- The constant of a width, if there is one, or a count that is declared. -/
theorem sizeConstant_declared (set : InstructionSet) (size : Option Nat) :
    ∀ constant ∈ constants (sizeConstant size), constant ∈ declared set ∨
      ∃ width, size = some width ∧ constant = sizeLetters width := by
  intro constant mentioned
  cases size with
  | none => exact Or.inl (count_declared set (by decide) mentioned)
  | some width =>
    rw [sizeConstant, constants_size] at mentioned
    exact Or.inr ⟨width, rfl, List.mem_singleton.mp mentioned⟩

/-- The row of an operand mentions the constants of its widths and otherwise what is declared. -/
theorem operandRow_constants {set : InstructionSet} (filled : set.Filled)
    {instruction : Instruction} (member : instruction ∈ set.instructions) {operand : Operand}
    (inside : operand ∈ instruction.operands) (index : Nat) :
    (∀ constant ∈ constants (rowText (operandFields operand index)), constant ∈ declared set ∨
      ∃ size, HasWidth operand size ∧ constant = sizeLetters size) ∧
    ∀ size, HasWidth operand size →
      sizeLetters size ∈ constants (rowText (operandFields operand index)) := by
  have types : ("reg_type", Arch.RegisterType.all.map (·.name)) ∈ allGroups set := by
    simp [mem_allGroups, fixedGroups]
  have kinds : ("operand_type", Operand.Kind.all.map (·.name)) ∈ allGroups set := by
    simp [mem_allGroups, fixedGroups]
  have flag (value : Bool) : constants (flagText value) ⊆ declared set :=
    subset_declared_of_plain set (by cases value <;> decide)
  have kind : constants (Naming.operandType operand.shape.kind.name) ⊆ declared set :=
    member_declared kinds (List.mem_map_of_mem (by cases operand.shape.kind <;> decide))
  have type : constants (registerTypeConstant operand.shape.registerType) ⊆ declared set := by
    cases operand.shape.registerType with
    | none => exact count_declared set (by decide)
    | some type =>
      exact member_declared types (List.mem_map_of_mem (by cases type <;> decide))
  have fixed : constants ("\x7b\n" ++ fixedValue operand ++ "\n\x7d") ⊆ declared set := by
    rw [constants_framed (by decide) (by decide)]
    exact fixedValue_declared ((filled.contents member).2 operand inside)
  have mask := bitMask_declared member inside
  have position := subset_declared_of_plain set (not_mem_toString index)
  have each : ∀ field ∈ operandFields operand index, constants field ⊆ declared set ∨
      field = sizeConstant operand.valueSize ∨ field = sizeConstant operand.memorySize := by
    simp only [operandFields, List.forall_mem_cons, flag, kind, type, fixed, mask, position,
      true_or, or_true, true_and, List.not_mem_nil, false_imp_iff, implies_true]
  rw [constants_rowText]
  constructor
  · intro constant mentioned
    obtain ⟨field, listed, own⟩ := List.mem_flatMap.mp mentioned
    rcases each field listed with subset | rfl | rfl
    · exact Or.inl (subset own)
    · rcases sizeConstant_declared set _ constant own with plain | ⟨size, found, same⟩
      · exact Or.inl plain
      · exact Or.inr ⟨size, Or.inl found, same⟩
    · rcases sizeConstant_declared set _ constant own with plain | ⟨size, found, same⟩
      · exact Or.inl plain
      · exact Or.inr ⟨size, Or.inr found, same⟩
  · intro size width
    have own : sizeLetters size ∈ constants (sizeConstant (some size)) :=
      (constants_size size).symm ▸ List.mem_singleton_self _
    refine List.mem_flatMap.mpr ⟨sizeConstant (some size), ?_, own⟩
    rcases width with value | memory
    · simp [operandFields, value]
    · simp [operandFields, memory]

/-- Several texts mention what is declared when each of them does. -/
theorem flatMap_subset_declared {set : InstructionSet} {texts : List String}
    (each : ∀ text ∈ texts, constants text ⊆ declared set) :
    texts.flatMap constants ⊆ declared set := by
  intro constant mentioned
  obtain ⟨text, member, own⟩ := List.mem_flatMap.mp mentioned
  exact each text member own

/-- Names of instructions have no upper-case letters. -/
theorem not_mem_name {leader name : String} (plain : 'E' ∉ leader.toList)
    (valid : Instruction.isValidName name = true) : 'E' ∉ (leader ++ name).toList := by
  rw [String.toList_append, List.mem_append, not_or]
  exact ⟨plain, fun member => (Instruction.isPlain_of_isValidName valid _ member).2 (by decide)⟩

/-- The row of an instruction mentions what is declared. -/
theorem instructionRow_declared {set : InstructionSet} (filled : set.Filled)
    {instruction : Instruction} (member : instruction ∈ set.instructions)
    (parameters : List String) :
    constants (instructionRow instruction parameters) ⊆ declared set := by
  have valid := (filled.sound member).1
  have plain {text : String} := @subset_declared_of_plain set text
  have named : constants (Naming.instruction instruction.name) ⊆ declared set :=
    member_declared (mem_allGroups.mpr (Or.inl rfl)) (List.mem_map_of_mem member)
  have flagGroup : ("inst_flag", Arch.instructionFlags) ∈ allGroups set := by
    simp [mem_allGroups, fixedGroups]
  have flags : constants (if (instruction.flags.map Naming.instructionFlag).isEmpty then "0"
      else " | ".intercalate (instruction.flags.map Naming.instructionFlag)) ⊆ declared set := by
    split
    · exact plain (by decide)
    · rw [constants_intercalate (by decide) (by decide)]
      refine flatMap_subset_declared fun text listed => ?_
      obtain ⟨flag, known, rfl⟩ := List.mem_map.mp listed
      exact member_declared flagGroup ((filled.contents member).1 flag known)
  have reference (present : Bool) {type leader : String} (typed : 'E' ∉ type.toList)
      (led : 'E' ∉ leader.toList) :
      constants (referenceText present type (leader ++ instruction.name)) ⊆ declared set := by
    unfold referenceText
    split
    · rw [← String.append_assoc]
      refine plain (not_mem_name ?_ valid)
      simp [typed, led]
    · exact plain (by decide)
  have parametersText := @reference (!parameters.isEmpty) "evoasm_x64_param_t" "params_"
    (by decide) (by decide)
  have operandsText := @reference (!instruction.operands.isEmpty) "evoasm_x64_operand_t"
    "operands_" (by decide) (by decide)
  have features : constants (toString (Arch.bitSet Arch.features instruction.features) ++ "ull") ⊆
      declared set := by
    refine plain ?_
    rw [String.toList_append, List.mem_append, not_or]
    exact ⟨not_mem_toString _, by decide⟩
  have function : constants ("(evoasm_x64_inst_enc_func_t) " ++ Naming.encoder instruction.name) ⊆
      declared set := by
    have split : "(evoasm_x64_inst_enc_func_t) " ++ Naming.encoder instruction.name =
        "(evoasm_x64_inst_enc_func_t) " ++ "evoasm_x64_" ++ instruction.name := by
      rw [String.append_assoc]
      rfl
    rw [split]
    exact plain (not_mem_name (by decide) valid)
  have mnemonic : constants ("(char *) " ++ Naming.mnemonic instruction.name) ⊆ declared set := by
    rw [Naming.mnemonic, ← String.append_assoc]
    exact plain (not_mem_name (by decide) valid)
  rw [instructionRow, constants_rowText]
  refine flatMap_subset_declared ?_
  simp only [instructionFields, List.forall_mem_cons, List.not_mem_nil, false_imp_iff, implies_true,
    and_true]
  exact ⟨plain (not_mem_toString _), named, plain (not_mem_toString _),
    plain (not_mem_toString _), flags, features, parametersText, function, operandsText, mnemonic⟩

/-- The text of a number has no letters. -/
theorem not_mem_int (value : Int) : 'E' ∉ (toString value).toList := by
  have letters : (toString value).toList = value.repr.toList := rfl
  rw [letters, toList_repr_int]
  have digits := @not_mem_digits 'E' (by decide) value.natAbs
  split
  · exact List.not_mem_cons_of_ne_of_not_mem (by decide) digits
  · exact digits

/-- The name of a domain has no such letter. -/
theorem not_mem_domain (domain : Domain) : 'E' ∉ domain.name.toList := by
  have bound (value : Int) : 'E' ∉ (Domain.boundText value).toList := by
    rw [Domain.toList_boundText]
    have digits := @not_mem_digits 'E' (by decide) value.natAbs
    split
    · exact List.not_mem_cons_of_ne_of_not_mem (by decide) digits
    · exact digits
  have part (member : EncoderTables.Member) : 'E' ∉ member.text.toList := by
    cases member with
    | number value => exact not_mem_int value
    | register id =>
      have letters : ∀ id : Arch.Register, 'E' ∉ (Arch.registerName id).toList := by
        decide
      exact letters id
  cases domain with
  | interval least greatest =>
    change 'E' ∉ ("param_domain__" ++ Domain.boundText least ++ "_" ++
      Domain.boundText greatest).toList
    simp only [String.toList_append, List.mem_append, not_or]
    exact ⟨⟨⟨by decide, bound least⟩, by decide⟩, bound greatest⟩
  | enumeration members =>
    change 'E' ∉ ("param_domain_enum__" ++ "_".intercalate (members.map EncoderTables.Member.text)).toList
    simp only [String.toList_append, List.mem_append, not_or]
    refine ⟨by decide, fun inside => ?_⟩
    rcases Text.mem_intercalate inside with between | ⟨text, listed, own⟩
    · exact absurd between (by decide)
    · obtain ⟨member, -, rfl⟩ := List.mem_map.mp listed
      exact part member own
  | integers width signed =>
    cases signed with
    | true =>
      change 'E' ∉ ("param_domain_int" ++ toString width.bits).toList
      rw [String.toList_append, List.mem_append, not_or]
      exact ⟨by decide, not_mem_toString _⟩
    | false =>
      change 'E' ∉ ("param_domain_uint" ++ toString width.bits).toList
      rw [String.toList_append, List.mem_append, not_or]
      exact ⟨by decide, not_mem_toString _⟩

/-- The row of a parameter mentions what is declared. -/
theorem parameterFields_declared (set : InstructionSet) {parameter : String}
    (known : parameter ∈ Arch.parameters) (domain : Domain) :
    constants (rowText (parameterFields (parameter, domain))) ⊆ declared set := by
  have listed : ("param", Arch.parameters) ∈ allGroups set := by
    simp [mem_allGroups, fixedGroups]
  have reference : constants ("(evoasm_domain_t *) &" ++ domain.name) ⊆ declared set := by
    refine subset_declared_of_plain set ?_
    rw [String.toList_append, List.mem_append, not_or]
    exact ⟨by decide, not_mem_domain domain⟩
  rw [constants_rowText]
  refine flatMap_subset_declared ?_
  simp only [parameterFields, List.forall_mem_cons, List.not_mem_nil, false_imp_iff, implies_true,
    and_true]
  exact ⟨member_declared listed known, reference⟩

/-- The initializer of a domain mentions what is declared. -/
theorem domainConstant_declared (set : InstructionSet) (domain : Domain) :
    constants domain.constant.2 ⊆ declared set := by
  have registers : ("reg", Arch.registerNames ++ ["none"]) ∈ allGroups set := by
    simp [mem_allGroups, fixedGroups]
  have none {text : String} (empty : constants text = []) : constants text ⊆ declared set :=
    empty ▸ List.nil_subset _
  cases domain with
  | interval least greatest =>
    have split : (Domain.interval least greatest).constant.2 =
        "\x7bEVOASM_DOMAIN_TYPE_INTERVAL" ++ ", " ++
          (toString least ++ ", " ++ toString greatest ++ "\x7d") := by
      have joined : "\x7bEVOASM_DOMAIN_TYPE_INTERVAL" ++ ", " =
          "\x7bEVOASM_DOMAIN_TYPE_INTERVAL, " := by decide
      rw [joined]
      simp only [Domain.constant, String.append_assoc]
    rw [split, constants_append_append (by decide) (by decide)]
    refine List.append_subset.mpr ⟨none (by decide), subset_declared_of_plain set ?_⟩
    simp only [String.toList_append, List.mem_append, not_or]
    exact ⟨⟨⟨not_mem_int least, by decide⟩, not_mem_int greatest⟩, by decide⟩
  | enumeration members =>
    have split : (Domain.enumeration members).constant.2 =
        "\x7bEVOASM_DOMAIN_TYPE_ENUM" ++ ", " ++ (toString members.length ++ ", \x7b" ++
          ("" ++ ", ".intercalate (members.map EncoderTables.Member.constant) ++ "\x7d\x7d")) := by
      have joined : "\x7bEVOASM_DOMAIN_TYPE_ENUM" ++ ", " =
          "\x7bEVOASM_DOMAIN_TYPE_ENUM, " := by decide
      rw [joined, String.empty_append]
      simp only [Domain.constant, String.append_assoc]
    rw [split, constants_append_append (by decide) (by decide),
      constants_append_append (by decide) (by decide), constants_framed (by decide) (by decide),
      constants_intercalate (by decide) (by decide)]
    refine List.append_subset.mpr ⟨none (by decide), List.append_subset.mpr
      ⟨subset_declared_of_plain set (not_mem_toString _), flatMap_subset_declared ?_⟩⟩
    intro text listed
    obtain ⟨member, -, rfl⟩ := List.mem_map.mp listed
    cases member with
    | number value => exact subset_declared_of_plain set (not_mem_int value)
    | register id =>
      exact member_declared registers (List.mem_append_left _ (List.get_mem _ _))
  | integers width signed => exact none (by cases width <;> cases signed <;> decide)

/-- A complete run declares the constants of its set. -/
theorem declaredConstants_eq {set : InstructionSet} {settings : Settings} {final : Session}
    (ran : generate (.start set settings) = .ok () final) :
    final.declaredConstants = declared set := by
  rw [Session.declaredConstants, Session.elementsOf, generate_enumerations ran, Option.getD_some,
    declared, enumeratorNames, enumeratorLists, List.flatMap_map, ← List.flatMap_def]
  rfl

/-- What the rows of a table mention, the table mentions. -/
theorem mem_constants_table {constant : List Char} {type name : String}
    {rows : List (List String)} :
    constant ∈ constants (initializerOf (tableOf type name rows)) ↔
      ∃ fields ∈ rows, constant ∈ constants (rowText fields) := by
  have value : initializerOf (tableOf type name rows) = tableValue (rows.map rowText) := rfl
  rw [value, constants_tableValue, List.flatMap_map, List.mem_flatMap]

/-- The tables of a complete run mention what their elements mention, phase by phase. -/
theorem mem_mentionedConstants {session : Session} {constant : List Char} :
    constant ∈ session.mentionedConstants ↔ ∃ phase ∈ mentioningPhases,
      ∃ element ∈ session.elementsOf phase, constant ∈ constants (initializerOf element) := by
  simp only [Session.mentionedConstants, List.mem_flatMap, List.mem_map]
  constructor
  · rintro ⟨_, ⟨element, ⟨phase, listed, member⟩, rfl⟩, mentioned⟩
    exact ⟨phase, listed, element, member, mentioned⟩
  · rintro ⟨phase, listed, element, member, mentioned⟩
    exact ⟨_, ⟨element, ⟨phase, listed, member⟩, rfl⟩, mentioned⟩

section Run

variable {set : InstructionSet} {settings : Settings} {final : Session}

/-- The table of the instructions mentions what is declared. -/
theorem instructionTables_declared (filled : set.Filled)
    (ran : generate (.start set settings) = .ok () final) {element : Code.Element}
    (member : element ∈ final.elementsOf .instructions) :
    constants (initializerOf element) ⊆ declared set := by
  have instructions := (generate_encodes ran).1.map_fst_encoded
  rw [Session.elementsOf, (generate_outputs ran).1.rows, Option.getD_some, List.mem_cons,
    List.mem_singleton] at member
  rcases member with rfl | rfl
  · intro constant mentioned
    obtain ⟨fields, inside, own⟩ := mem_constants_table.mp mentioned
    obtain ⟨entry, encoded, rfl⟩ := List.mem_map.mp inside
    have known : entry.1 ∈ set.instructions := instructions ▸ List.mem_map_of_mem encoded
    exact instructionRow_declared filled known _ own
  · exact subset_declared_of_plain set (by decide)

/-- The tables of the parameters mention what is declared. -/
theorem parameterTables_declared (ran : generate (.start set settings) = .ok () final)
    {element : Code.Element} (member : element ∈ final.elementsOf .parameters) :
    constants (initializerOf element) ⊆ declared set := by
  obtain ⟨listed, found⟩ := generate_tables ran
  rw [Session.elementsOf, found, Option.getD_some] at member
  obtain ⟨entry, kept, rfl⟩ := List.mem_map.mp member
  replace kept := (List.mem_filter.mp kept).1
  obtain ⟨-, -, -, -, -, known⟩ := (generate_encodes ran).1.entry kept
  intro constant mentioned
  obtain ⟨fields, inside, own⟩ := mem_constants_table.mp mentioned
  obtain ⟨row, rowed, rfl⟩ := List.mem_map.mp inside
  have read : row.1 ∈ entry.2.parameters := listed entry kept ▸ List.mem_map_of_mem rowed
  exact parameterFields_declared set (mem_parameters_of_known (known _ read)) row.2 own

/-- The domains mention what is declared. -/
theorem domainConstants_declared (ran : generate (.start set settings) = .ok () final)
    {element : Code.Element} (member : element ∈ final.elementsOf .domains) :
    constants (initializerOf element) ⊆ declared set := by
  rw [Session.elementsOf, (generate_domains ran).2.1, Option.getD_some, domainConstants,
    List.mem_append, List.mem_singleton] at member
  rcases member with listed | rfl
  · obtain ⟨domain, -, rfl⟩ := List.mem_map.mp listed
    exact domainConstant_declared set domain
  · exact subset_declared_of_plain set (not_mem_toString _)

/-- The tables of the operands mention the sizes of operands, and otherwise what is declared. -/
theorem operandTables_declared (filled : set.Filled)
    (ran : generate (.start set settings) = .ok () final) {element : Code.Element}
    (member : element ∈ final.elementsOf .operands) {constant : List Char}
    (mentioned : constant ∈ constants (initializerOf element)) :
    constant ∈ declared set ∨ ∃ instruction ∈ set.instructions,
      ∃ operand ∈ instruction.operands, ∃ size, HasWidth operand size ∧
        constant = sizeLetters size := by
  have instructions := (generate_encodes ran).1.map_fst_encoded
  rw [Session.elementsOf, (generate_outputs ran).1.operandTables, Option.getD_some] at member
  obtain ⟨entry, kept, rfl⟩ := List.mem_map.mp member
  have known : entry.1 ∈ set.instructions :=
    instructions ▸ List.mem_map_of_mem (List.mem_filter.mp kept).1
  obtain ⟨row, listed, own⟩ := mem_constants_table.mp mentioned
  obtain ⟨operand, inside, rfl⟩ := List.mem_map.mp listed
  exact ((operandRow_constants filled known inside _).1 constant own).imp_right
    fun ⟨size, width, same⟩ => ⟨entry.1, known, operand, inside, size, width, same⟩

/-- The tables of the operands mention the sizes of all operands. -/
theorem sizes_mentioned (filled : set.Filled)
    (ran : generate (.start set settings) = .ok () final) {instruction : Instruction}
    (member : instruction ∈ set.instructions) {operand : Operand}
    (inside : operand ∈ instruction.operands) {size : Nat} (width : HasWidth operand size) :
    sizeLetters size ∈ final.mentionedConstants := by
  obtain ⟨entry, encoded, rfl⟩ :=
    List.mem_map.mp ((generate_encodes ran).1.map_fst_encoded ▸ member)
  have kept : entry ∈ final.encoded.filter fun entry => !entry.1.operands.isEmpty := by
    have some : entry.1.operands ≠ [] := List.ne_nil_of_mem inside
    simp [encoded, some]
  refine mem_mentionedConstants.mpr ⟨.operands, by decide, operandElement entry, ?_, ?_⟩
  · rw [Session.elementsOf, (generate_outputs ran).1.operandTables]
    exact List.mem_map_of_mem kept
  · exact mem_constants_table.mpr ⟨_, List.mem_map_of_mem inside,
      (operandRow_constants filled member inside _).2 size width⟩

/-- Behind a complete run the constants that the tables of instructions, operands and parameters
and the domains mention are declared, but for those of sizes: not declared are exactly the
sizes of operands, and of the memory that they refer to, that have no id. -/
theorem undeclared_constant_iff (filled : set.Filled)
    (ran : generate (.start set settings) = .ok () final) (constant : List Char) :
    (constant ∈ final.mentionedConstants ∧ constant ∉ final.declaredConstants) ↔
      ∃ instruction ∈ set.instructions, ∃ operand ∈ instruction.operands, ∃ size,
        HasWidth operand size ∧ size ∉ Arch.operandSizes ∧ constant = sizeLetters size := by
  rw [declaredConstants_eq ran]
  constructor
  · rintro ⟨mentioned, undeclared⟩
    obtain ⟨phase, listed, element, member, own⟩ := mem_mentionedConstants.mp mentioned
    simp only [mentioningPhases, List.mem_cons, List.not_mem_nil, or_false] at listed
    rcases listed with rfl | rfl | rfl | rfl
    · exact absurd (instructionTables_declared filled ran member own) undeclared
    · obtain ⟨instruction, known, operand, inside, size, width, same⟩ :=
        (operandTables_declared filled ran member own).resolve_left undeclared
      rw [same, sizeLetters_declared_iff filled] at undeclared
      exact ⟨instruction, known, operand, inside, size, width, undeclared, same⟩
    · exact absurd (parameterTables_declared ran member own) undeclared
    · exact absurd (domainConstants_declared ran member own) undeclared
  · rintro ⟨instruction, known, operand, inside, size, width, without, same⟩
    rw [same, sizeLetters_declared_iff filled]
    exact ⟨sizes_mentioned filled ran known inside width, without⟩

end Run

/-- An instruction that reads a floating-point number of 80 bits from memory. -/
def extendedLoad : Except Failure InstructionSet := do
  let instruction ← Instruction.make "fld_m80" "fld" "m80:r" [.write (.literal (.number 219)) 8]
    [] [] [] []
  InstructionSet.empty.addAll [instruction]

/-- The table of the operands mentions the size of the number, which is not declared. -/
theorem undeclared_of_extendedLoad : ∃ (set : InstructionSet) (final : Session),
    extendedLoad = .ok set ∧ set.Filled ∧ generate (.start set .default) = .ok () final ∧
    "EVOASM_X64_OPERAND_SIZE_80".toList ∈ final.mentionedConstants ∧
    "EVOASM_X64_OPERAND_SIZE_80".toList ∉ final.declaredConstants := by
  have evaluated : Results.passes (fun set => tablesSucceed set && set.instructions.any
      fun instruction => instruction.operands.any fun operand =>
        operand.memorySize == some 80) extendedLoad = true := by
    decide +kernel
  obtain ⟨set, made, checked⟩ := Results.exists_ok evaluated
  rw [Bool.and_eq_true, List.any_eq_true] at checked
  obtain ⟨succeed, instruction, known, sized⟩ := checked
  obtain ⟨operand, inside, size⟩ := List.any_eq_true.mp sized
  obtain ⟨final, ran⟩ := generate_succeeds succeed
  have filled : set.Filled := by
    have found := made
    simp only [extendedLoad, Results.bind_ok_iff] at found
    obtain ⟨first, one, added⟩ := found
    exact ⟨[first], by simpa using ⟨_, _, _, _, _, _, _, _, one⟩, added⟩
  have letters : sizeLetters 80 = "EVOASM_X64_OPERAND_SIZE_80".toList := by decide +kernel
  have undeclared := (undeclared_constant_iff filled ran (sizeLetters 80)).mpr
    ⟨instruction, known, operand, inside, 80, Or.inr (eq_of_beq size), by decide, rfl⟩
  exact ⟨set, final, made, filled, ran, letters ▸ undeclared.1, letters ▸ undeclared.2⟩

end EncoderTables.Generator
