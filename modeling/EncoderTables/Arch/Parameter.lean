import EncoderTables.Arch.Register

/-!
# Encoding parameters

The parameters that an encoding can read: their order, field widths, value types and
the sets that accessors and layouts distinguish. Basic parameters are the small subset
that a caller without encoding knowledge sets; some of their fields are narrower.
-/

namespace EncoderTables.Arch

/-- All parameters, in the order of their emitted ids. -/
def parameters : List String :=
  ["reg0", "reg1", "reg2", "reg3", "reg4", "imm0", "imm1", "rel", "moffs", "disp",
   "reg_base", "reg_index", "scale", "addr_size", "modrm_reg", "vex_v", "vex_l",
   "rex_b", "rex_r", "rex_x", "rex_w", "force_rex", "lock", "force_sib", "force_disp32",
   "force_long_vex", "reg0_high_byte", "reg1_high_byte", "legacy_prefix_order"]

/-- The basic parameters, in the order of their emitted ids. -/
def basicParameters : List String :=
  ["reg0", "reg1", "reg2", "reg3", "imm0", "rel", "moffs", "reg0_high_byte", "reg1_high_byte"]

/-- The parameters of the full or of the basic set. -/
def parametersOf (basic : Bool) : List String := if basic then basicParameters else parameters

/-- The parameters that hold a single bit without further meaning. -/
def flagParameters : List String :=
  ["rex_b", "rex_r", "rex_x", "rex_w", "vex_l", "force_rex", "lock", "force_sib",
   "force_disp32", "force_long_vex", "reg0_high_byte", "reg1_high_byte"]

/-- The parameters that hold a register id. -/
def registerParameters : List String :=
  ["reg0", "reg1", "reg2", "reg3", "reg4", "reg_base", "reg_index"]

/-- The field width of each parameter. -/
def fieldWidths : List (String × Nat) :=
  [("addr_size", 1), ("scale", 2), ("modrm_reg", 3), ("legacy_prefix_order", 3), ("vex_v", 4),
   ("imm1", 8), ("disp", 32), ("imm0", 64), ("moffs", 64), ("rel", 64)] ++
    flagParameters.map (·, 1) ++ registerParameters.map (·, registerIdWidth)

/-- The basic parameters whose fields are narrower than those of the full set. -/
def basicFieldWidths : List (String × Nat) := [("imm0", 32), ("moffs", 32), ("rel", 32)]

/-- The value types, in the order of their emitted ids. -/
def valueTypes : List String :=
  ["bool", "uint1", "addr_size", "scale", "int3", "int4", "reg", "int8", "int32", "int64"]

/-- The value type of each parameter. -/
def parameterTypes : List (String × String) :=
  [("force_rex", "bool"), ("lock", "bool"), ("force_sib", "bool"), ("force_disp32", "bool"),
   ("force_long_vex", "bool"), ("reg0_high_byte", "bool"), ("reg1_high_byte", "bool"),
   ("rex_b", "uint1"), ("rex_r", "uint1"), ("rex_x", "uint1"), ("rex_w", "uint1"),
   ("vex_l", "uint1"), ("addr_size", "addr_size"), ("scale", "scale"), ("modrm_reg", "int3"),
   ("legacy_prefix_order", "int3"), ("vex_v", "int4"), ("imm1", "int8"), ("disp", "int32"),
   ("imm0", "int64"), ("moffs", "int64"), ("rel", "int64")] ++
    registerParameters.map (·, "reg")

/-- The value types of the basic parameters with narrower fields. -/
def basicParameterTypes : List (String × String) :=
  [("imm0", "int32"), ("moffs", "int32"), ("rel", "int32")]

/-- The parameters whose fields hold signed numbers. -/
def signedParameters : List String := ["disp", "rel", "imm0", "imm1", "moffs"]

/-- The parameters that may be left unspecified; each has a presence flag. -/
def optionalParameters : List String :=
  ["addr_size", "disp", "legacy_prefix_order", "reg_base", "reg_index", "rex_b", "rex_r",
   "rex_w", "rex_x", "scale", "vex_l", "vex_v"]

/-- The sets of fields that share storage. -/
def sharedFields : List (List String) := [["imm0", "moffs", "rel"], ["imm1", "disp"]]

/-- The sets of basic fields that share storage. -/
def basicSharedFields : List (List String) := [["imm0", "moffs", "rel"]]

end EncoderTables.Arch
