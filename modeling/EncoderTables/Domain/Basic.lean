import EncoderTables.Arch.Register
import EncoderTables.Failure
import EncoderTables.Naming
import EncoderTables.Scalar

/-!
# Parameter domains

A domain is the set of legal values of a parameter: a closed interval of integers, an
enumeration of integers and registers, or all integers of a machine width. Members of
an enumeration are kept in one order, integers by value before registers by id, and
without repetition, so that equal sets are equal domains. Each domain has a name, which
becomes the name of its constant in the generated code.
-/

namespace EncoderTables

/-- A member of an enumeration. -/
inductive Member where
  | number (value : Int)
  | register (id : Arch.Register)
  deriving DecidableEq, Repr

namespace Member

/-- Integers stand before registers; integers are ordered by value, registers by id. -/
def precedes : Member → Member → Bool
  | number a, number b => a < b
  | number _, register _ => true
  | register _, number _ => false
  | register a, register b => a < b

/-- The text of a member inside a domain name. -/
def text : Member → String
  | number value => toString value
  | register id => Arch.registerName id

/-- The text of a member inside an initializer. -/
def constant : Member → String
  | number value => toString value
  | register id => Naming.register (Arch.registerName id)

/-- The plain value that a member stands for. -/
def scalar : Member → Scalar
  | number value => .number value
  | register id => .text (Arch.registerName id)

/-- Put a member at its place in an ordered list, unless it is there already. -/
def insert (member : Member) : List Member → List Member
  | [] => [member]
  | first :: rest =>
    if member = first then first :: rest
    else if member.precedes first then member :: first :: rest
    else first :: insert member rest

/-- The distinct members of a list in their order. -/
def canonical (members : List Member) : List Member := members.foldr insert []

/-- A member as it is given: an integer, or a register by its name. -/
inductive Given where
  | number (value : Int)
  | register (name : String)
  deriving DecidableEq, Repr

/-- The member that is given, if a register has the name. -/
def ofGiven? : Given → Except Failure Member
  | .number value => .ok (number value)
  | .register name => match Arch.register? name with
    | some id => .ok (register id)
    | none => refuse (.unknownRegister name)

end Member

/-- The widths of machine integers. -/
inductive Width where
  | bits8 | bits16 | bits32 | bits64
  deriving DecidableEq, Repr

namespace Width

/-- The machine widths in increasing order. -/
def all : List Width := [bits8, bits16, bits32, bits64]

/-- The number of bits of a machine width. -/
def bits : Width → Nat
  | bits8 => 8
  | bits16 => 16
  | bits32 => 32
  | bits64 => 64

end Width

/-- The legal values of a parameter. -/
inductive Domain where
  | interval (least greatest : Int)
  | enumeration (members : List Member)
  | integers (width : Width) (signed : Bool)
  deriving DecidableEq, Repr

namespace Domain

/-- The greatest number of members of an enumeration. -/
def enumerationLimit : Nat := 32

/-- An interval that is not empty. -/
def interval? (least greatest : Int) : Except Failure Domain :=
  if least > greatest then refuse (.emptyInterval least greatest)
  else .ok (interval least greatest)

/-- An enumeration of one to thirty-two distinct members. -/
def ofMembers? (members : List Member) : Except Failure Domain :=
  let distinct := Member.canonical members
  if distinct.isEmpty then refuse .emptyEnumeration
  else if distinct.length > enumerationLimit then
    refuse (.enumerationTooLong distinct.length enumerationLimit)
  else .ok (enumeration distinct)

/-- An enumeration of integers and registers by their names. -/
def enumeration? (values : List Member.Given) : Except Failure Domain := do
  ofMembers? (← values.mapM Member.ofGiven?)

/-- The integers of a width that machines have. -/
def integers? (bits : Scalar) (signed : Bool) : Except Failure Domain :=
  match Width.all.find? fun width => bits.same (.number width.bits) with
  | some width => .ok (integers width signed)
  | none => refuse (.invalidWidth bits.plain)

/-- A bound inside a name; a minus sign becomes a letter. -/
def boundText (bound : Int) : String :=
  if bound < 0 then "m" ++ toString bound.natAbs else toString bound

/-- The name of a domain. -/
def name : Domain → String
  | interval least greatest => "param_domain__" ++ boundText least ++ "_" ++ boundText greatest
  | enumeration members => "param_domain_enum__" ++ "_".intercalate (members.map Member.text)
  | integers width true => "param_domain_int" ++ toString width.bits
  | integers width false => "param_domain_uint" ++ toString width.bits

/-- Whether a plain value belongs to a domain. Only enumerations are asked about names,
and the integers of a machine width are not asked at all. -/
def contains : Domain → Scalar → Except Failure Bool
  | interval least greatest, value =>
    match Scalar.atMost? (.number least) value, value.atMost? (.number greatest) with
    | some first, some second => .ok (first && second)
    | _, _ => refuse .notANumber
  | enumeration members, value => .ok (members.any (·.scalar.same value))
  | integers .., _ => refuse .notANumber

/-- The type and the initializer of the constant that describes a domain. -/
def constant : Domain → String × String
  | integers width signed =>
    let kind :=
      if width = .bits64 then "EVOASM_DOMAIN_TYPE_INT64" else "EVOASM_DOMAIN_TYPE_INTERVAL"
    let bits := toString width.bits
    let bounds :=
      if signed then "INT" ++ bits ++ "_MIN, INT" ++ bits ++ "_MAX" else "0, UINT" ++ bits ++ "_MAX"
    ("evoasm_interval_t", "\x7b" ++ kind ++ ", " ++ bounds ++ "\x7d")
  | interval least greatest =>
    ("evoasm_interval_t",
      "\x7bEVOASM_DOMAIN_TYPE_INTERVAL, " ++ toString least ++ ", " ++ toString greatest ++ "\x7d")
  | enumeration members =>
    let count := toString members.length
    ("evoasm_enum" ++ count ++ "_t",
      "\x7bEVOASM_DOMAIN_TYPE_ENUM, " ++ count ++ ", \x7b" ++
        ", ".intercalate (members.map Member.constant) ++ "\x7d\x7d")

/-- The constant of a domain, if there is a domain. -/
def constant? : Option Domain → Except Failure (String × String)
  | some domain => .ok domain.constant
  | none => refuse (.unexpectedDomain Scalar.absent.plain)

end Domain

end EncoderTables
