import EncoderTables.Code.Element
import EncoderTables.Naming
import EncoderTables.Parameters.Kind

/-!
# Layout of the parameter structure

A structure of bit fields holds the parameters: one field each, and a presence flag of
one bit for each parameter that may be left unspecified. Fields are ordered by width and
name and collected in groups: fields that one union lists share a group, every other
field has one of its own. A group is as wide as its widest field, and all groups together
must fit a number of words.
-/

namespace EncoderTables.Parameters

/-- A bit field of the structure. -/
structure Slot where
  name : String
  width : Nat
  signed : Bool
  deriving DecidableEq, Repr

namespace Slot

/-- The order of fields: by width, then by name. -/
def precedes (a b : Slot) : Bool :=
  a.width < b.width || (a.width == b.width && decide (a.name ≤ b.name))

/-- The field of a parameter, with its presence flag if it has one. -/
def ofParameter (basic : Bool) (name : String) : Except Failure (List Slot) := do
  let width ← fieldWidth name basic
  return ⟨name, width, holdsSigned name⟩ ::
    (if isOptional name then [⟨presenceFlag name, 1, false⟩] else [])

/-- The fields of several parameters. -/
def ofParameters (basic : Bool) : List String → Except Failure (List Slot)
  | [] => .ok []
  | name :: rest => do
    let fields ← ofParameter basic name
    return fields ++ (← ofParameters basic rest)

end Slot

/-- What distinguishes groups: the position of a union, or the name of a single field. -/
inductive GroupKey where
  | shared (union : Nat)
  | single (name : String)
  deriving DecidableEq, Repr

namespace GroupKey

/-- The group of a field is that of the first union that lists it. -/
def ofField (unions : List (List String)) (name : String) : GroupKey :=
  match unions.findIdx? (·.contains name) with
  | some union => shared union
  | none => single name

end GroupKey

/-- The packing of a set of parameters. -/
structure Layout where
  basic : Bool
  groups : List (List Slot)
  deriving DecidableEq, Repr

namespace Layout

/-- Add a field to its group, which is new unless it is in the list. -/
def place (key : GroupKey) (field : Slot) :
    List (GroupKey × List Slot) → List (GroupKey × List Slot)
  | [] => [(key, [field])]
  | (first, fields) :: rest =>
    if first = key then (first, fields ++ [field]) :: rest
    else (first, fields) :: place key field rest

/-- The groups of a list of fields, in the order of their first fields. -/
def group (unions : List (List String)) (fields : List Slot) : List (List Slot) :=
  (fields.foldl (fun groups field => place (.ofField unions field.name) field groups) []).map
    (·.2)

/-- The fields in their order. -/
def ordered (fields : List Slot) : List Slot := fields.mergeSort Slot.precedes

/-- The width of a group is that of its widest field. -/
def groupWidth (fields : List Slot) : Nat := (fields.map (·.width)).foldl max 0

/-- The width of the whole structure. -/
def width (layout : Layout) : Nat := (layout.groups.map groupWidth).foldr (· + ·) 0

/-- The number of bits in a word. -/
def wordBits : Nat := 64

/-- The unions of the full or of the basic structure. -/
def unionsOf (basic : Bool) : List (List String) :=
  if basic then Arch.basicSharedFields else Arch.sharedFields

/-- The layout of a set of parameters inside a number of words. -/
def make (names : List String) (basic : Bool) (unions : List (List String))
    (budget : Scalar) : Except Failure Layout := do
  let fields ← Slot.ofParameters basic names
  let layout : Layout := ⟨basic, group unions (ordered fields)⟩
  match budget.times? wordBits with
  | none => refuse .notANumber
  | some available =>
    if Scalar.atMost? (.number layout.width) available = some true then return layout
    else refuse (.fieldSetTooWide layout.width available.plain)

/-- The number of words in use, as an exact decimal number. -/
def words (layout : Layout) : String := Text.sixtyFourths layout.width

/-- The names of all fields, in order. -/
def names (layout : Layout) : List String := layout.groups.flatten.map (·.name)

/-- The declaration of a field. -/
def fieldElement (field : Slot) : Code.Element :=
  .field ⟨field.name, storageType field.width field.signed, .number field.width⟩

/-- The macro that packs the fields of a union. -/
def packing : String := "evoasm_packed"

/-- The declaration of a group: a field, or a union of several. -/
def groupElement : List Slot → Code.Element
  | [field] => fieldElement field
  | fields => .union .none "" (fields.map fieldElement) packing

/-- The declaration of the structure. -/
def declaration (layout : Layout) : Code.Element :=
  .record .none (Naming.parametersType layout.basic) (layout.groups.map groupElement) true

end Layout

end EncoderTables.Parameters
