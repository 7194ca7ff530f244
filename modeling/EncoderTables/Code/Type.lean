import EncoderTables.Failure
import EncoderTables.Scalar

/-!
# Types of the generated code

A type has a name, the files that declare it, and may be constant or a pointer.
-/

namespace EncoderTables.Code

/-- A type of the generated code. -/
structure TypeRef where
  name : String
  includes : List String
  constant : Bool
  pointers : Nat
  deriving DecidableEq, Repr

namespace TypeRef

/-- A type that needs no file. -/
def named (name : String) : TypeRef := ⟨name, [], false, 0⟩

/-- The type of pointers to a type. -/
def pointer (type : TypeRef) : TypeRef := { type with pointers := type.pointers + 1 }

/-- A type with constant values. -/
def const (type : TypeRef) : TypeRef := { type with constant := true }

/-- The text of a type. -/
def text (type : TypeRef) : String :=
  (if type.constant then "const " else "") ++ type.name ++
    (if type.pointers = 0 then "" else " " ++ String.ofList (List.replicate type.pointers '*'))

/-- A declared name behind its type; no blank follows the asterisk of a pointer. -/
def declare (type : TypeRef) (name : String) : String :=
  if type.text.toList.getLast? = some '*' then type.text ++ name else type.text ++ " " ++ name

/-- No value. -/
def void : TypeRef := named "void"

/-- Truth values. -/
def bool : TypeRef := ⟨"bool", ["stdbool.h"], false, 0⟩

/-- Characters. -/
def char : TypeRef := named "char"

/-- Machine integers. -/
def int : TypeRef := named "int"

/-- Machine integers without sign. -/
def unsigned : TypeRef := named "unsigned"

/-- Integers of an exact width. -/
def integer (bits : Nat) (signed : Bool) : TypeRef :=
  ⟨(if signed then "int" else "uint") ++ toString bits ++ "_t", ["stdint.h"], false, 0⟩

/-- Constant texts. -/
def string : TypeRef := char.const.pointer

/-- The types that need no description, by their short names. -/
def predefined : List (String × TypeRef) :=
  [("void", void), ("bool", bool), ("char", char), ("int", int), ("uint", unsigned),
   ("charPtr", string), ("int8", integer 8 true), ("int16", integer 16 true),
   ("int32", integer 32 true), ("int64", integer 64 true), ("uint8", integer 8 false),
   ("uint16", integer 16 false), ("uint32", integer 32 false), ("uint64", integer 64 false)]

/-- The widths of exact integer types. -/
def integerWidths : List Nat := [8, 16, 32, 64]

/-- The smallest integer type that holds a number of bits. -/
def holding (bits : Scalar) (signed : Bool) : Except Failure TypeRef :=
  if bits.ratio?.isNone then refuse .notANumber
  else match integerWidths.find? fun (width : Nat) => bits.atMost? (.number width) == some true with
    | some width => .ok (integer width signed)
    | none => refuse (.noIntegerType bits.plain)

end TypeRef

end EncoderTables.Code
