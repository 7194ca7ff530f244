import EncoderTables.Bits
import EncoderTables.Arch.Parameter
import EncoderTables.Domain.Basic
import EncoderTables.Operand.Basic

/-!
# Domains of parameters

A parameter bound to an operand has the domain that the operand implies: the registers
of its class or the integers of its width. Other parameters have a domain by their kind.
-/

namespace EncoderTables

namespace Domain

/-- The registers that an operand of a register type can select. -/
def ofRegisterType (type : String) : Except Failure Domain :=
  match Arch.selectableBanks.lookup type with
  | some names => enumeration? (names.map Member.Given.register)
  | none => refuse (.unselectableClass type)

/-- The registers that hold the indices of a vector-indexed operand. -/
def ofIndexSize (size : Int) : Except Failure Domain :=
  ofRegisterType (if size = 512 then "zmm" else "xmm")

/-- The parameters whose default is every number that fits the field. -/
def fieldParameters : List String :=
  ["addr_size", "scale", "modrm_reg", "vex_v", "legacy_prefix_order"]

/-- The domain of a parameter that no operand restricts. -/
def default (parameter : String) : Except Failure Domain :=
  if Arch.flagParameters.contains parameter then enumeration? [.number 0, .number 1]
  else if Arch.registerParameters.contains parameter then ofRegisterType "gp"
  else if fieldParameters.contains parameter then
    interval? 0 (Bits.mask ((Arch.fieldWidths.lookup parameter).getD 0))
  else if ["imm0", "disp", "rel"].contains parameter then integers? (.number 32) true
  else if parameter = "imm1" then integers? (.number 8) true
  else if parameter = "moffs" then integers? (.number 64) true
  else refuse (.noDefaultDomain parameter)

end Domain

/-- The domain that an operand implies for its parameter, if it restricts it. -/
def Operand.domain? (operand : Operand) : Except Failure (Option Domain) :=
  match operand.shape.kind with
  | .reg | .rm => match operand.shape.registerType with
    | some type => (Domain.ofRegisterType type.name).map some
    | none => .ok none
  | .imm => match operand.shape.immediateSize with
    | some width => (Domain.integers? (.number width) true).map some
    | none => .ok none
  | .mem =>
    if operand.parameter = some "moffs" then
      match operand.shape.memorySize with
      | some width => (Domain.integers? (.number width) true).map some
      | none => .ok none
    else .ok none
  | .vsib | .flags => .ok none

end EncoderTables
