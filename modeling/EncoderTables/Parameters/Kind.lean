import EncoderTables.Arch.Parameter
import EncoderTables.Code.Type

/-!
# Kinds of parameter fields

What the kind of a parameter says about its field: the width, the value type, whether
its values are signed and whether it may be left unspecified. Basic parameters have the
kind of the full set unless they have a narrower one of their own.
-/

namespace EncoderTables.Parameters

/-- The width of a parameter's field. -/
def fieldWidth (name : String) (basic : Bool) : Except Failure Nat :=
  match if basic then Arch.basicFieldWidths.lookup name else none with
  | some width => .ok width
  | none => match Arch.fieldWidths.lookup name with
    | some width => .ok width
    | none => refuse (.missingBitSize name)

/-- The value type of a parameter. -/
def valueType (name : String) (basic : Bool) : Except Failure String :=
  match if basic then Arch.basicParameterTypes.lookup name else none with
  | some type => .ok type
  | none => match Arch.parameterTypes.lookup name with
    | some type => .ok type
    | none => refuse (.missingType name)

/-- A parameter with a field width of the full set. -/
def isKnown (name : String) : Bool := (Arch.fieldWidths.lookup name).isSome

/-- A parameter with signed values. -/
def holdsSigned (name : String) : Bool := Arch.signedParameters.contains name

/-- A parameter that may be left unspecified; it has a presence flag. -/
def isOptional (name : String) : Bool := Arch.optionalParameters.contains name

/-- A member of a set of parameters that may be left unspecified. -/
def isOptionalIn (name : String) (basic : Bool) : Bool :=
  isOptional name && (Arch.parametersOf basic).contains name

/-- The field that tells whether a parameter has been specified. -/
def presenceFlag (name : String) : String := name ++ "_set"

/-- The widths whose fields have a type of exactly that width. -/
def exactWidths : List Int := [8, 16, 32]

/-- The storage type of a field: of its own width if there is such a type, else the
widest. -/
def storageType (bits : Int) (signed : Bool) : Code.TypeRef :=
  .integer (if exactWidths.contains bits then bits.toNat else 64) signed

end EncoderTables.Parameters
