import EncoderTables.Generator.Schedule

/-!
# Output phases

The generated code is produced in phases, each of which may need what others have left
behind.
-/

namespace EncoderTables.Generator

/-- The output phases. -/
inductive Phase where
  | instructionFunctions
  | orderingFunctions
  | permutationTables
  | routineFunctions
  | instructions
  | operands
  | mnemonics
  | parameters
  | parameterStructures
  | accessorStubs
  | domains
  | enumerations
  | accessors
  deriving DecidableEq, Repr

namespace Phase

/-- The phases in the preferred order of their emission. -/
def all : List Phase :=
  [instructionFunctions, orderingFunctions, permutationTables, routineFunctions, instructions,
   operands, mnemonics, parameters, parameterStructures, accessorStubs, domains, enumerations,
   accessors]

/-- The name of a phase. -/
def name : Phase → String
  | instructionFunctions => "inst_funcs"
  | orderingFunctions => "pref_funcs"
  | permutationTables => "permutation_tables"
  | routineFunctions => "called_funcs"
  | instructions => "insts"
  | operands => "inst_operands"
  | mnemonics => "inst_mnems"
  | parameters => "inst_params"
  | parameterStructures => "params_type_decl"
  | accessorStubs => "params_funcs"
  | domains => "param_domains"
  | enumerations => "enums"
  | accessors => "params_funcs_header"

/-- The phases that must have run before a phase. -/
def needs : Phase → List Phase
  | instructionFunctions | parameterStructures | accessorStubs | enumerations | accessors => []
  | orderingFunctions | permutationTables | mnemonics => [instructionFunctions]
  | routineFunctions => [instructionFunctions, orderingFunctions]
  | instructions | operands | parameters => [routineFunctions, orderingFunctions]
  | domains => [parameters]

/-- The phase of a name. -/
def ofName? (name : String) : Option Phase := all.find? fun phase => phase.name == name

/-- The phases whose blocks hold declarations, for headers. -/
def forHeader : Phase → Bool
  | enumerations | parameterStructures | accessors => true
  | _ => false

/-- The name of a phase in words. -/
def title (phase : Phase) : String :=
  String.ofList (phase.name.toList.map fun c => if c = '_' then ' ' else c)

/-- The declarations of the phases. -/
def declared : List Declared := all.map fun phase => (phase.name, phase.needs.map name)

end Phase

end EncoderTables.Generator
