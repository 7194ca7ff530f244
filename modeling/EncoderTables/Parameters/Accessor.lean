import EncoderTables.Bits
import EncoderTables.Code.Element
import EncoderTables.Naming
import EncoderTables.Parameters.Kind
import EncoderTables.Text.Number

/-!
# Accessors of the parameter structure

Functions that set, read, clear and describe parameters given by their id. Each switches
over all parameters of its set. The full function is an inline one for the header; an
exported stub of the same name without its final underscore calls it.
-/

namespace EncoderTables.Parameters

/-- What an accessor does. -/
inductive Access where
  | set | get | unset | getType | getName | toBasic
  deriving DecidableEq, Repr

namespace Access

/-- The kinds of accessors that exist for the full and for the basic parameters. -/
def common : List Access := [set, get, unset, getType, getName]

/-- All kinds of accessors. -/
def all : List Access := common ++ [toBasic]

/-- The name of a kind of accessor. -/
def name : Access → String
  | set => "set"
  | get => "get"
  | unset => "unset"
  | getType => "get_type"
  | getName => "get_name"
  | toBasic => "to_basic"

/-- The kind of accessor of a name. -/
def ofName (name : String) : Except Failure Access :=
  match all.find? fun access => access.name == name with
  | some access => .ok access
  | none => refuse (.unknownAccessor name)

/-- Accessors that touch the structure are named after it, the others after one
parameter. -/
def group : Access → String
  | set | get | unset => "params"
  | getType | getName | toBasic => "param"

end Access

/-- An accessor for a set of parameters, in full or as a stub. -/
structure Accessor where
  access : Access
  basic : Bool
  stub : Bool
  deriving DecidableEq, Repr

namespace Accessor

/-- The name of the accessor, or that of its other variant. -/
def identifier (accessor : Accessor) (stub : Bool) : String :=
  Naming.symbol
    (Naming.archPath (if accessor.basic then some "basic" else none) ++ [accessor.access.group])
    accessor.access.name ++ (if stub then "" else "_")

/-- What the accessor returns. -/
def result (accessor : Accessor) : Code.TypeRef :=
  match accessor.access with
  | .get => .integer 64 true
  | .set | .unset => .void
  | .getType => .named (Naming.enumType "param_type")
  | .getName => .string
  | .toBasic => .named (Naming.parameterIdType true)

/-- What the accessor is given. -/
def parameters (accessor : Accessor) : List Code.Parameter :=
  let target : Code.Parameter :=
    ⟨"params", (Code.TypeRef.named (Naming.parametersType accessor.basic)).pointer⟩
  let id : Code.Parameter := ⟨"param", .named (Naming.parameterIdType accessor.basic)⟩
  match accessor.access with
  | .set => [target, id, ⟨"param_val", .integer 64 true⟩]
  | .get | .unset => [target, id]
  | .getType | .getName | .toBasic => [id]

/-- The statement that marks a parameter as present or absent, if it can be absent. -/
def presence (name : String) (basic present : Bool) : String :=
  if isOptionalIn name basic then
    "params->" ++ presenceFlag name ++ " = " ++ (if present then "true" else "false") ++ ";\n"
  else ""

/-- The case of one parameter. Its kind must be known, whether the case needs it or not. -/
def caseOf (accessor : Accessor) (name : String) : Except Failure String := do
  let label := "case " ++ Naming.parameter name accessor.basic ++ ":"
  let width ← fieldWidth name accessor.basic
  match accessor.access with
  | .get => return label ++ " return (int64_t) params->" ++ name ++ ";\n"
  | .set =>
    return label ++ " \x7b\n" ++ "params->" ++ name ++ " = (" ++
      (storageType width (holdsSigned name)).text ++ ") (((uint64_t) param_val) & " ++
      Text.hexadecimal (Bits.mask width) ++ "ull);\n" ++
      presence name accessor.basic true ++ "break;\n\x7d\n"
  | .unset =>
    return label ++ " \x7b\n" ++ "params->" ++ name ++ " = 0;\n" ++
      presence name accessor.basic false ++ "break;\n\x7d\n"
  | .getType =>
    return label ++ " return " ++ Naming.valueType (← valueType name accessor.basic) ++ ";\n"
  | .getName => return label ++ " return \"" ++ name ++ "\";\n"
  | .toBasic =>
    let target := if Arch.basicParameters.contains name then name else "none"
    return label ++ " return " ++ Naming.parameter target true ++ ";\n"

/-- The cases of several parameters. -/
def casesOf (accessor : Accessor) : List String → Except Failure String
  | [] => .ok ""
  | name :: rest => do
    let first ← accessor.caseOf name
    return first ++ (← accessor.casesOf rest)

/-- The call of the full accessor inside its stub. -/
def forward (accessor : Accessor) : String :=
  let call := accessor.identifier false ++ "(" ++
    ", ".intercalate (accessor.parameters.map (·.name)) ++ ");"
  match accessor.access with
  | .set | .unset => call
  | .get | .getType | .getName | .toBasic => "return " ++ call

/-- The body of the accessor. -/
def body (accessor : Accessor) : Except Failure Code.Element := do
  if accessor.stub then return .plain accessor.forward
  let cases ← accessor.casesOf (Arch.parametersOf accessor.basic)
  return .code ("switch(param) \x7b\n" ++ cases ++ "default:\nevoasm_assert_not_reached();\n\x7d")
    ["stdbool.h", "stdint.h"] []

/-- The accessor as a function. -/
def function (accessor : Accessor) : Except Failure Code.Element := do
  return .function .none (accessor.identifier accessor.stub) accessor.result
    (accessor.parameters.map .parameter) (← accessor.body) (!accessor.stub) (!accessor.stub)

/-- All accessors in the order of their emission. -/
def all (stub : Bool) : List Accessor :=
  (Access.common.flatMap fun access => [⟨access, false, stub⟩, ⟨access, true, stub⟩]) ++
    [⟨.toBasic, false, stub⟩]

/-- The functions of all accessors. -/
def functions (stub : Bool) : Except Failure (List Code.Element) := (all stub).mapM function

end Accessor

end EncoderTables.Parameters
