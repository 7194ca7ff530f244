/-!
# Status register bits

The bits of the two status registers, by name, and those of them that no operand of
an instruction tracks.
-/

namespace EncoderTables.Arch

/-- The bits of the flags register. -/
def flagsBits : List String :=
  ["OF", "SF", "ZF", "AF", "CF", "PF", "DF", "IF", "TF", "NT", "RF", "AC", "ID", "IOPL",
   "VM", "VIF", "VIP"]

/-- The bits of the flags register that are not tracked. -/
def ignoredFlagsBits : List String :=
  ["IF", "TF", "NT", "RF", "AC", "ID", "IOPL", "VM", "VIF", "VIP"]

/-- The bits of the vector status register. -/
def vectorStatusBits : List String :=
  ["IE", "DE", "ZE", "OE", "UE", "PE", "DAZ", "IM", "DM", "ZM", "OM", "UM", "PM", "RC", "FZ"]

/-- The bits of the vector status register that are not tracked. -/
def ignoredVectorStatusBits : List String :=
  ["IM", "DM", "ZM", "OM", "UM", "PM", "RC", "DAZ", "FZ"]

/-- A bit that no operand stands for. -/
def isIgnoredBit (name : String) : Bool :=
  ignoredFlagsBits.contains name || ignoredVectorStatusBits.contains name

end EncoderTables.Arch
