import EncoderTables.Text.Upper

/-!
# Names of the generated code

Every identifier of the generated code starts with the library's name, most of them
followed by the architecture's and a group. Constants are in upper case and types end
in `_t`. Tables that are private to one file have short names without a leader.
-/

namespace EncoderTables.Naming

/-- The name that starts every public identifier. -/
def library : String := "evoasm"

/-- The name of the architecture inside identifiers. -/
def architecture : String := "x64"

/-- An identifier: the library's name, a path of groups and a last name. -/
def symbol (path : List String) (name : String) : String :=
  "_".intercalate (library :: path ++ [name])

/-- A constant is an identifier in upper case. -/
def constant (path : List String) (name : String) : String := Text.upper (symbol path name)

/-- A type is an identifier with the type ending. -/
def typeSymbol (path : List String) (name : String) : String := symbol path name ++ "_t"

/-- The groups of an identifier of the architecture. -/
def archPath : Option String → List String
  | none => [architecture]
  | some group => [architecture, group]

/-- The constant of a member of a group of the architecture. -/
def member (group name : String) : String := constant (archPath (some group)) name

/-- The constant of a register. -/
def register (name : String) : String := member "reg" name

/-- The constant of a register type. -/
def registerType (name : String) : String := member "reg_type" name

/-- The constant of an operand type. -/
def operandType (name : String) : String := member "operand_type" name

/-- The constant of an operand size. -/
def operandSize (size : String) : String := member "operand_size" size

/-- The constant of an instruction. -/
def instruction (name : String) : String := member "inst" name

/-- The constant of an instruction flag. -/
def instructionFlag (name : String) : String := member "inst_flag" name

/-- The constant of a parameter, in the full or in the basic set. -/
def parameter (name : String) (basic : Bool) : String :=
  member (if basic then "basic_param" else "param") name

/-- The constant of a value type. -/
def valueType (name : String) : String := member "param_type" name

/-- The text that names a bit range inside a constant. -/
def rangeName (range : Int × Int) : String := toString range.1 ++ "_" ++ toString range.2

/-- The constant of a written bit range; no range means all bits. -/
def bitMask : Option (Int × Int) → String
  | none => member "bit_mask" "all"
  | some range => member "bit_mask" (rangeName range)

/-- The constant that counts the members of a group. -/
def count (what : String) : String := constant (archPath none) ("n_" ++ what)

/-- The type of an enumeration of the architecture. -/
def enumType (what : String) : String := typeSymbol (archPath none) what

/-- The parameter table of an instruction. -/
def parameterTable (instruction : String) : String := "params_" ++ instruction

/-- The mnemonic of an instruction. -/
def mnemonic (instruction : String) : String := "name_" ++ instruction

/-- The operand table of an instruction. -/
def operandTable (instruction : String) : String := "operands_" ++ instruction

/-- The public reference to the instruction table. -/
def instructionTable : String := "_" ++ library ++ "_" ++ architecture ++ "_insts"

/-- The instruction table itself. -/
def staticInstructionTable : String := "_" ++ instructionTable

/-- The encoding function of an instruction. -/
def encoder (instruction : String) : String := symbol (archPath none) instruction

/-- The shared function that performs unordered writes, by id. -/
def orderingFunction (id : String) : String := symbol (archPath none) ("prefs_" ++ id)

/-- The shared function of a routine, by id. -/
def routineFunction (id : String) : String := symbol (archPath none) ("func_" ++ id)

/-- The table of the orders of a number of items. -/
def permutationTable (items : String) : String := "permutations" ++ items

/-- The parameter structure of the full or of the basic set. -/
def parametersType (basic : Bool) : String :=
  enumType (if basic then "basic_params" else "params")

/-- The parameter ids of the full or of the basic set. -/
def parameterIdType (basic : Bool) : String :=
  enumType (if basic then "basic_param_id" else "param_id")

end EncoderTables.Naming
