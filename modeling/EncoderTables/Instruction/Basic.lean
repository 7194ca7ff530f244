import EncoderTables.Arch.Category
import EncoderTables.Domain.Default
import EncoderTables.Encoding.Node

/-!
# Instructions

An instruction has a name that ends its generated identifiers, a mnemonic, operands
given as a specification, an encoding and categorical data: flags, needed features and
possible exceptions. It may override the domains of single parameters. Its position in
an instruction set is known only once it has been added to one.
-/

namespace EncoderTables

/-- An instruction of the architecture. -/
structure Instruction where
  name : String
  mnemonic : String
  specification : String
  operands : List Operand
  encoding : List Node
  flags : List String
  features : List String
  exceptions : List String
  overrides : List (String × Domain)
  position : Option Nat

namespace Instruction

/-- A lower-case ASCII letter or an underscore. -/
def isNameStart (c : Char) : Bool := ('a' ≤ c && c ≤ 'z') || c = '_'

/-- A character of an instruction name behind its first. -/
def isNamePart (c : Char) : Bool := isNameStart c || ('0' ≤ c && c ≤ '9')

/-- A name that can end an identifier, with at most one line feed behind it. -/
def isValidName (name : String) : Bool :=
  match name.toList with
  | [] => false
  | c :: rest =>
    isNameStart c &&
      (rest.all isNamePart || (rest.getLast? = some '\n' && rest.dropLast.all isNamePart))

/-- Refuse the first value that does not belong to a category. -/
def checkMembers (what name : String) (valid : List String) :
    (values : List String) → Except Failure Unit
  | [] => .ok ()
  | value :: rest =>
    if valid.contains value then checkMembers what name valid rest
    else .error ⟨.invalidMember what value valid, some name⟩

/-- An instruction of no set yet. The name is checked first, then the categories, and
the operands last. -/
def make (name mnemonic specification : String) (encoding : List Node)
    (flags features exceptions : List String) (overrides : List (String × Domain)) :
    Except Failure Instruction := do
  if !isValidName name then refuse (.invalidInstructionName name)
  checkMembers "instruction flag" name Arch.instructionFlags flags
  checkMembers "feature" name Arch.features features
  checkMembers "exception" name Arch.exceptions exceptions
  let operands ← Operand.ofText specification (some name)
  return ⟨name, mnemonic, specification, operands, encoding, flags, features, exceptions,
    overrides, none⟩

/-- The domain that the operands imply for a parameter, if one does. The index register
of a vector-indexed operand is restricted by the width of the index vector. -/
def impliedDomain? (parameter : String) : List Operand → Except Failure (Option Domain)
  | [] => .ok none
  | operand :: rest => do
    let bound ←
      if operand.parameter = some parameter then operand.domain? else pure none
    match bound with
    | some domain => return some domain
    | none =>
      if parameter = "reg_index" && operand.shape.kind = .vsib then
        return some (← Domain.ofIndexSize ((operand.shape.indexSize.getD 0 : Nat) : Int))
      else impliedDomain? parameter rest

/-- The domain of a parameter: the override, else the one implied by an operand, else
the default of the parameter's kind. -/
def domain (instruction : Instruction) (parameter : String) : Except Failure Domain :=
  match instruction.overrides.lookup parameter with
  | some domain => .ok domain
  | none => do
    match ← impliedDomain? parameter instruction.operands with
    | some domain => return domain
    | none => Domain.default parameter

/-- The parameters of the operands, in order. -/
def parameters (instruction : Instruction) : List String :=
  Operand.parameters instruction.operands

end Instruction

end EncoderTables
