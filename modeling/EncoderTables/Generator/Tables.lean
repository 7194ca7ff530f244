import EncoderTables.Bits
import EncoderTables.Code.Element
import EncoderTables.Domain.Registry
import EncoderTables.Generator.Emission
import EncoderTables.Instruction.Set

/-!
# Tables of the generated code

The tables that describe instructions, operands, parameters, domains and orders, and the
enumerations whose constants they mention. A row of an instruction refers to its tables
by name and counts their rows; a row of an operand refers to its parameter by the
position at which the instruction's parameter table lists it.
-/

namespace EncoderTables.Generator

/-- Rows between braces, one on each line. -/
def tableValue (rows : List String) : String := "\x7b\n" ++ "\n".intercalate rows ++ "\n\x7d"

/-- A row whose fields stand on lines of their own. -/
def rowText (fields : List String) : String := "\x7b\n" ++ ",\n".intercalate fields ++ "\n\x7d,"

/-- A private table without a written size. -/
def openTable (name : String) (type : Code.TypeRef) (value : String) : Code.Element :=
  .value ⟨.none, name, type.const, true, value, [.text ""]⟩

/-- A truth value in a row. -/
def flagText (value : Bool) : String := if value then "1" else "0"

/-- A reference to a table that may be missing. -/
def referenceText (present : Bool) (type name : String) : String :=
  if present then "(" ++ type ++ " *) " ++ name else "NULL"

/-- The fields of an instruction whose body reads the given parameters. -/
def instructionFields (instruction : Instruction) (parameters : List String) : List String :=
  let flags := instruction.flags.map Naming.instructionFlag
  [toString instruction.operands.length,
   Naming.instruction instruction.name,
   toString parameters.length,
   toString (Arch.bitSet Arch.exceptions instruction.exceptions),
   if flags.isEmpty then "0" else " | ".intercalate flags,
   toString (Arch.bitSet Arch.features instruction.features) ++ "ull",
   referenceText (!parameters.isEmpty) "evoasm_x64_param_t"
     (Naming.parameterTable instruction.name),
   "(evoasm_x64_inst_enc_func_t) " ++ Naming.encoder instruction.name,
   referenceText (!instruction.operands.isEmpty) "evoasm_x64_operand_t"
     (Naming.operandTable instruction.name),
   "(char *) " ++ Naming.mnemonic instruction.name]

/-- The row of an instruction whose body reads the given parameters. -/
def instructionRow (instruction : Instruction) (parameters : List String) : String :=
  rowText (instructionFields instruction parameters)

/-- The position of an operand's parameter in its instruction's parameter table. An
operand without parameter has the number of parameters in its place. -/
def parameterIndex (instruction : Instruction) (parameters : List String) (operand : Operand) :
    Except Failure Nat :=
  match operand.parameter with
  | none => .ok parameters.length
  | some parameter => match parameters.idxOf? parameter with
    | some index => .ok index
    | none =>
      .error ⟨.parameterNotFound parameter operand.entry.name parameters, some instruction.name⟩

/-- The constant of an operand width, or the number of widths if there is none. -/
def sizeConstant : Option Nat → String
  | some size => Naming.operandSize (toString size)
  | none => Naming.count "operand_sizes"

/-- The constant of an operand's register type, or the number of types. -/
def registerTypeConstant : Option Arch.RegisterType → String
  | some type => Naming.registerType type.name
  | none => Naming.count "reg_types"

/-- A bit range as its two bounds. -/
def boundsOf (range : Operand.BitRange) : Int × Int := (range.low, range.high)

/-- The fixed value of an operand: the register of a register operand, or the constant
of an immediate. -/
def fixedValue (operand : Operand) : String :=
  match operand.shape.kind with
  | .reg | .rm => Naming.register (operand.shape.register.getD "none")
  | .imm => match operand.shape.constant with
    | some value => toString value
    | none => "255"
  | .mem | .vsib | .flags => "255"

/-- The fields of an operand whose parameter has the given position. -/
def operandFields (operand : Operand) (index : Nat) : List String :=
  [flagText (operand.has .read), flagText (operand.has .written),
   flagText (operand.has .undefined), flagText (operand.has .conditional),
   flagText operand.implicit, flagText (operand.has .mnemonic), toString index,
   Naming.operandType operand.shape.kind.name, sizeConstant operand.valueSize,
   sizeConstant operand.memorySize, registerTypeConstant operand.shape.registerType,
   Naming.bitMask ((operand.entry.range? .written).map boundsOf),
   "\x7b\n" ++ fixedValue operand ++ "\n\x7d"]

/-- The row of an operand of an instruction whose body reads the given parameters. -/
def operandRow (instruction : Instruction) (parameters : List String) (operand : Operand) :
    Except Failure String := do
  let index ← parameterIndex instruction parameters operand
  return rowText (operandFields operand index)

/-- The operand table of an instruction that has operands. -/
def operandTable (instruction : Instruction) (parameters : List String) :
    Except Failure (List Code.Element) := do
  if instruction.operands.isEmpty then return []
  let rows ← instruction.operands.mapM (operandRow instruction parameters)
  return [openTable (Naming.operandTable instruction.name) (.named "evoasm_x64_operand_t")
    (tableValue rows)]

/-- The mnemonic of an instruction as a table of characters. -/
def mnemonicTable (instruction : Instruction) : Code.Element :=
  openTable (Naming.mnemonic instruction.name) .char ("\"" ++ instruction.mnemonic ++ "\"")

/-- The instruction table and the public reference to it. -/
def instructionTables (rows : List String) : List Code.Element :=
  let type := Code.TypeRef.named "evoasm_x64_inst_t"
  [openTable Naming.staticInstructionTable type (tableValue rows),
   .value ⟨.none, Naming.instructionTable, type.const.pointer, false,
     Naming.staticInstructionTable, []⟩]

/-- The domain of a parameter in an instruction's table: the one that its encoding
imposed, else the one that the instruction itself gives it. -/
def rowDomain (instruction : Instruction) (imposed : List (String × Domain))
    (parameter : String) : Except Failure Domain :=
  match imposed.lookup parameter with
  | some domain => .ok domain
  | none => instruction.domain parameter

/-- The row of a parameter with a domain. -/
def parameterRow (parameter : String) (domain : Domain) : String :=
  "\x7b\n" ++ Naming.parameter parameter false ++ ",\n(evoasm_domain_t *) &" ++ domain.name ++
    "\n\x7d,"

/-- The parameter table of an instruction. -/
def parameterTable (instruction : Instruction) (rows : List String) : Code.Element :=
  openTable (Naming.parameterTable instruction.name) (.named "evoasm_x64_param_t")
    (tableValue rows)

/-- The constant of a domain. -/
def domainConstant (domain : Domain) : Code.Element :=
  let (type, value) := domain.constant
  .value ⟨.none, domain.name, (Code.TypeRef.named type).const, true, value, []⟩

/-- The constants of the registered domains, and their number. -/
def domainConstants (registry : Registry) : List Code.Element :=
  registry.domains.map domainConstant ++
    [.value ⟨.none, "evoasm_n_domains", (Code.TypeRef.integer 16 false).const, false,
      toString registry.domains.length, []⟩]

/-- The row of an order in a permutation table. -/
def orderRow (order : List Nat) : String :=
  "\x7b" ++ ", ".intercalate (order.map toString) ++ "\x7d,"

/-- The table of all orders of a number of items. -/
def permutationTable (items : Nat) : Code.Element :=
  .value ⟨.none, Naming.permutationTable (toString items), (Code.TypeRef.integer 8 false).const,
    true, tableValue ((Permutation.orders items).map orderRow),
    [.number (Permutation.count items), .number items]⟩

/-- The enumerators of symbols with the values given for them, if any. Each symbol needs
a value when values are given. -/
def enumerators (group : Option String) :
    List String → Option (List Scalar) → Except Failure (List (String × Scalar))
  | [], _ => .ok []
  | symbol :: rest, none => do
    let others ← enumerators group rest none
    return (Naming.constant (Naming.archPath group) symbol, .text "") :: others
  | symbol :: rest, some (value :: values) => do
    let others ← enumerators group rest (some values)
    return (Naming.constant (Naming.archPath group) symbol, value) :: others
  | _ :: _, some [] => refuse .outOfRange

/-- The enumeration of a list of symbols, with a last enumerator that counts them if it
is given a name. -/
def symbolEnumeration (what : String) (symbols : List String) (group counted : Option String)
    (values : Option (List Scalar)) : Except Failure Code.Element := do
  let listed ← enumerators group symbols values
  let total := counted.toList.map fun name => (Naming.count name, Scalar.text "")
  return .enumeration (.ofValues .none (Naming.enumType what) (listed ++ total) true)

/-- The names of the written bit ranges of a set, and of all bits. -/
def bitMaskNames (set : InstructionSet) : List String :=
  set.writtenRanges.map (fun range => Naming.rangeName (boundsOf range)) ++ ["all"]

/-- The values of the instruction flags, one bit for each. -/
def flagValues : List Scalar :=
  (List.range Arch.instructionFlags.length).map fun index => .number (Bits.capacity index)

/-- The enumerations of the generated code. -/
def enumerations (set : InstructionSet) : Except Failure (List Code.Element) := do
  let counted (what group : String) (symbols : List String) (total : String) :=
    symbolEnumeration what symbols (some group) (some total) none
  return [
    ← counted "inst_id" "inst" (set.instructions.map (·.name)) "insts",
    ← counted "reg_id" "reg" (Arch.registerNames ++ ["none"]) "regs",
    ← counted "reg_type" "reg_type" (Arch.RegisterType.all.map (·.name)) "reg_types",
    ← counted "operand_type" "operand_type" (Operand.Kind.all.map (·.name)) "operand_types",
    ← counted "operand_size" "operand_size" (Arch.operandSizes.map toString) "operand_sizes",
    ← symbolEnumeration "inst_flag" Arch.instructionFlags (some "inst_flag") none
      (some flagValues),
    ← counted "feature" "feature" Arch.features "features",
    ← counted "exception" "exception" Arch.exceptions "exceptions",
    ← counted "param_id" "param" Arch.parameters "params",
    ← counted "basic_param_id" "basic_param" (Arch.basicParameters ++ ["none"]) "basic_params",
    ← counted "param_type" "param_type" Arch.valueTypes "param_types",
    ← counted "bit_mask" "bit_mask" (bitMaskNames set) "bit_masks"]

end EncoderTables.Generator
