import EncoderTables.Text.Quoted

/-!
# Failures

Every way in which a description, a request or a piece of generated code can be
refused, as a cause with the values that its message names. A failure met while an
instruction is processed also carries that instruction's name, which its message
repeats in parentheses.
-/

namespace EncoderTables

/-- Why a step was refused. -/
inductive Cause where
  /-- An access letter outside the known modes. -/
  | invalidAccessFlag (flag : Char) (segment : String)
  /-- An access letter given twice for one operand. -/
  | repeatedAccessFlag (flag : Char) (segment : String)
  /-- A bit range whose first bit lies above its last. -/
  | invalidBitRange (low high : Nat) (segment : String)
  /-- An operand segment without a colon. -/
  | missingSeparator (segment : String)
  /-- An operand segment with nothing before its colon. -/
  | missingOperandName (segment : String)
  /-- An explicit operand of none of the known forms. -/
  | unexpectedOperand (name : String)
  /-- A general purpose register of a width that does not exist. -/
  | invalidRegisterSize (size : Nat) (operand : String)
  /-- An implicit operand that names no modelled register. -/
  | unknownImplicitRegister (name : String)
  /-- An operand width without a word type. -/
  | noWordType (size : String)
  /-- An interval whose minimum exceeds its maximum. -/
  | emptyInterval (least greatest : Int)
  /-- An enumeration member that is no register. -/
  | unknownRegister (name : String)
  /-- An enumeration without members. -/
  | emptyEnumeration
  /-- An enumeration with too many members. -/
  | enumerationTooLong (count limit : Nat)
  /-- An integer domain of an unsupported width. -/
  | invalidWidth (bits : String)
  /-- A register type whose members no parameter can select. -/
  | unselectableClass (registerType : String)
  /-- A parameter without a default domain. -/
  | noDefaultDomain (parameter : String)
  /-- A value that is no domain, where a domain constant is needed. -/
  | unexpectedDomain (shown : String)
  /-- A packed write whose values and widths differ in number. -/
  | unpairedWidths
  /-- A write of a total width that no write routine has. -/
  | invalidWriteSize (size : String)
  /-- Unordered writes without a member. -/
  | emptyUnorderedWrites
  /-- An architecture other than the supported one. -/
  | invalidArchitecture (name : String)
  /-- An instruction name used twice in a set. -/
  | duplicateInstruction (name : String)
  /-- An instruction name that cannot end a generated identifier. -/
  | invalidInstructionName (name : String)
  /-- A flag, feature or exception outside its category. -/
  | invalidMember (what value : String) (valid : List String)
  /-- A parameter without a field width. -/
  | missingBitSize (parameter : String)
  /-- A parameter without a value type. -/
  | missingType (parameter : String)
  /-- A parameter structure wider than its budget. -/
  | fieldSetTooWide (needed : Nat) (available : String)
  /-- An accessor of no known kind. -/
  | unknownAccessor (kind : String)
  /-- A phase that depends on one that is not declared. -/
  | unknownDependency (phase dependency : String)
  /-- Phases that wait for each other. -/
  | circularPhases
  /-- A request for a phase that does not exist. -/
  | unknownPhase (name : String)
  /-- A phase that has already run. -/
  | repeatedPhase (name : String)
  /-- A phase requested before one that it depends on. -/
  | prematurePhase (name dependency : String)
  /-- An indentation width that is no positive number. -/
  | invalidIndent (value : String)
  /-- A line width below the least supported one. -/
  | invalidLineWidth (value : String)
  /-- A word budget that is no positive number. -/
  | invalidBudget (value : String)
  /-- An encoding that reads an undeclared parameter. -/
  | unknownParameter (name : String)
  /-- A presence test of a parameter that is always present. -/
  | noPresenceFlag (name : String)
  /-- A node that is no expression, where one is needed. -/
  | notExpression (shown : String)
  /-- A node that is no action, where one is needed. -/
  | notAction (shown : String)
  /-- Unordered writes in a shared function. -/
  | nestedUnorderedWrites
  /-- More orders than the order parameter can select. -/
  | tooManyOrders (parameter : String) (orders : Nat)
  /-- An operand whose parameter its instruction does not read. -/
  | parameterNotFound (parameter operand : String) (parameters : List String)
  /-- A width that no integer type of the generated code has. -/
  | noIntegerType (bits : String)
  /-- Two local variables of one name. -/
  | duplicateVariable (name : String)
  /-- An enumeration declaration without enumerators. -/
  | emptyEnumDeclaration (name : String)
  /-- A union without members. -/
  | emptyUnion
  /-- A bit field structure without members. -/
  | emptyRecord (name : String)
  /-- A line width that leaves no room for wrapped code. -/
  | lineTooShort
  /-- A mask of a negative number of bits. -/
  | negativeWidth
  /-- A key that a table does not hold. -/
  | missingKey
  /-- A position outside a list. -/
  | outOfRange
  /-- A text where a number is needed. -/
  | notANumber
  /-- A list inside something that is looked up by its content. -/
  | noFixedContent
  /-- A called value that is no routine, or an element without the requested form. -/
  | formMissing
  deriving DecidableEq, Repr

/-- The message of a cause, without the instruction it was met in. -/
def Cause.message : Cause → String
  | invalidAccessFlag flag segment =>
    "Invalid access flag " ++ flag.toString ++ " in operand " ++ segment
  | repeatedAccessFlag flag segment =>
    "Access flag " ++ flag.toString ++ " repeated in operand " ++ segment
  | invalidBitRange low high segment =>
    "Invalid bit range " ++ toString low ++ ".." ++ toString high ++ " in operand " ++ segment
  | missingSeparator segment => "Missing separator : in operand " ++ segment
  | missingOperandName segment => "Missing operand name in operand " ++ segment
  | unexpectedOperand name => "Unexpected operand " ++ name
  | invalidRegisterSize size operand =>
    "Invalid general purpose register size " ++ toString size ++ " in operand " ++ operand
  | unknownImplicitRegister name => "Unexpected register " ++ name
  | noWordType size => "No word type for operand size " ++ size
  | emptyInterval least greatest =>
    "Invalid interval " ++ toString least ++ ".." ++ toString greatest ++
      ", minimum greater than maximum."
  | unknownRegister name => "Unknown register " ++ name ++ " in enumeration."
  | emptyEnumeration => "Enumeration domains need at least one member."
  | enumerationTooLong count limit =>
    "Enumeration of " ++ toString count ++
      " values exceeds the maximal enumeration length of " ++ toString limit ++ "."
  | invalidWidth bits =>
    "Invalid integer width " ++ bits ++ ", expected 8, 16, 32 or 64."
  | unselectableClass registerType =>
    "Register type " ++ registerType ++ " cannot be selected by a parameter."
  | noDefaultDomain parameter => "No domain for parameter " ++ parameter
  | unexpectedDomain shown => "Unexpected domain " ++ shown
  | unpairedWidths => "Packed write needs one width for each value."
  | invalidWriteSize size =>
    "Invalid write size " ++ size ++ ", expected one of (8, 16, 32, 64)."
  | emptyUnorderedWrites => "Unordered writes need at least one action."
  | invalidArchitecture name => "Invalid architecture " ++ name ++ ", only x64 is supported."
  | duplicateInstruction name => "Instruction " ++ name ++ " already exists in the ISA."
  | invalidInstructionName name =>
    "Invalid instruction name " ++ name ++ ", expected a C identifier suffix."
  | invalidMember what value valid =>
    "Invalid " ++ what ++ " " ++ value ++ ", expected one of " ++ Text.quotedList valid ++ "."
  | missingBitSize parameter => "Missing bit size for parameter " ++ parameter
  | missingType parameter => "Missing type for parameter " ++ parameter
  | fieldSetTooWide needed available =>
    "Parameter fields need " ++ toString needed ++ " bits, " ++ available ++
      " available."
  | unknownAccessor kind => "Unknown parameters function " ++ kind
  | unknownDependency phase dependency =>
    "Phase " ++ phase ++ " depends on unknown phase " ++ dependency ++ "."
  | circularPhases => "Detected circular dependence between output phases."
  | unknownPhase name => "Unknown output phase " ++ name ++ "."
  | repeatedPhase name => "Phase " ++ name ++ " already translated."
  | prematurePhase name dependency =>
    "Phase " ++ name ++ " needs phase " ++ dependency ++ " to be translated first."
  | invalidIndent value =>
    "Invalid indent size " ++ value ++ ", expected positive integer."
  | invalidLineWidth value =>
    "Invalid line width " ++ value ++ ", expected at least 20 characters."
  | invalidBudget value => "Invalid word budget " ++ value ++ ", expected positive integer."
  | unknownParameter name => "Unknown parameter " ++ name
  | noPresenceFlag name => "Parameter " ++ name ++ " has no presence flag"
  | notExpression shown => "Cannot translate expression " ++ shown
  | notAction shown => "Cannot translate action " ++ shown
  | nestedUnorderedWrites => "Unordered writes are only supported in instruction bodies"
  | tooManyOrders parameter orders =>
    "Parameter " ++ parameter ++ " cannot select one of " ++ toString orders ++ " orders"
  | parameterNotFound parameter operand parameters =>
    "Parameter " ++ parameter ++ " of operand " ++ operand ++ " not found in " ++
      Text.quotedList parameters
  | noIntegerType bits => "No integer type can hold " ++ bits ++ " bits."
  | duplicateVariable name => "Variable " ++ name ++ " already declared in code."
  | emptyEnumDeclaration name => "Cannot print empty enum " ++ name ++ "."
  | emptyUnion => "Cannot print empty union."
  | emptyRecord name => "Cannot print empty bitfield " ++ name ++ "."
  | lineTooShort => "Specify a minimum line length of at least 20 characters."
  | negativeWidth => "negative shift count"
  | missingKey => "no such key"
  | outOfRange => "no such position"
  | notANumber => "not a number"
  | noFixedContent => "no fixed content"
  | formMissing => "no such form"

/-- A cause together with the instruction in whose processing it was met, if any. -/
structure Failure where
  cause : Cause
  instruction : Option String
  deriving DecidableEq, Repr

namespace Failure

/-- A failure outside any instruction. -/
def of (cause : Cause) : Failure := ⟨cause, none⟩

/-- The message of a failure; an instruction is named at its end. -/
def message (failure : Failure) : String :=
  match failure.instruction with
  | none => failure.cause.message
  | some name => failure.cause.message ++ " (instruction " ++ name ++ ")"

end Failure

/-- Refuse with a cause that no instruction is to blame for. -/
def refuse {α : Type} (cause : Cause) : Except Failure α := .error (.of cause)

end EncoderTables
