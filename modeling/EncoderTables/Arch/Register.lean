import EncoderTables.Bits

/-!
# Registers

The registers of the architecture in the order of their emitted ids, the sets that an
operand of each class can select from, and the registers that an implicit operand can
name. A vector operand of the widest class also reaches the lower sixteen registers.
-/

namespace EncoderTables.Arch

/-- The register classes with their members, in id order. -/
def registerBanks : List (String × List String) :=
  [("gp", ["A", "C", "D", "B", "SP", "BP", "SI", "DI",
           "R8", "R9", "R10", "R11", "R12", "R13", "R14", "R15"]),
   ("ip", ["IP"]),
   ("mm", ["MM0", "MM1", "MM2", "MM3", "MM4", "MM5", "MM6", "MM7"]),
   ("xmm", ["XMM0", "XMM1", "XMM2", "XMM3", "XMM4", "XMM5", "XMM6", "XMM7",
            "XMM8", "XMM9", "XMM10", "XMM11", "XMM12", "XMM13", "XMM14", "XMM15"]),
   ("zmm", ["ZMM16", "ZMM17", "ZMM18", "ZMM19", "ZMM20", "ZMM21", "ZMM22", "ZMM23",
            "ZMM24", "ZMM25", "ZMM26", "ZMM27", "ZMM28", "ZMM29", "ZMM30", "ZMM31"])]

/-- All register names; the position of a name is the register's emitted id. -/
def registerNames : List String := registerBanks.flatMap (·.2)

/-- The number of registers. -/
abbrev registerCount : Nat := 57

/-- The register names fill exactly the declared number of ids. -/
theorem registerNames_length : registerNames.length = registerCount := by decide

/-- A register, by its emitted id. -/
abbrev Register := Fin registerCount

/-- The name of a register. -/
def registerName (register : Register) : String :=
  registerNames.get (register.cast registerNames_length.symm)

/-- The register of a name. -/
def register? (name : String) : Option Register :=
  (List.finRange registerCount).find? fun register => registerName register == name

/-- The types that a register operand can have. -/
inductive RegisterType where
  | gp | rflags | ip | mxcsr | mm | xmm | zmm
  deriving DecidableEq, Repr

namespace RegisterType

/-- The register types in the order of their emitted ids. -/
def all : List RegisterType := [gp, rflags, ip, mxcsr, mm, xmm, zmm]

/-- The name of a register type. -/
def name : RegisterType → String
  | gp => "gp"
  | rflags => "rflags"
  | ip => "ip"
  | mxcsr => "mxcsr"
  | mm => "mm"
  | xmm => "xmm"
  | zmm => "zmm"

end RegisterType

/-- The members of a bank; an unknown bank has none. -/
def bank (name : String) : List String := (registerBanks.lookup name).getD []

/-- The register types that a parameter can select from, with the selectable names. -/
def selectableBanks : List (String × List String) :=
  [("gp", bank "gp"), ("mm", bank "mm"), ("xmm", bank "xmm"), ("zmm", bank "xmm" ++ bank "zmm")]

/-- How much of its canonical register an operand covers. -/
inductive WordType where
  | lowByte | highByte | word | doubleWord | quadWord | vectorHalf | vector
  deriving DecidableEq, Repr

/-- The short name of a word type. -/
def WordType.name : WordType → String
  | .lowByte => "lb"
  | .highByte => "hb"
  | .word => "w"
  | .doubleWord => "dw"
  | .quadWord => "lqw"
  | .vectorHalf => "dqw"
  | .vector => "vw"

/-- What an implicit register name stands for: the canonical register, the width that
is accessed, and the part when the width does not determine it. -/
structure ImplicitRegister where
  type : RegisterType
  canonical : String
  width : Nat
  part : Option WordType
  deriving DecidableEq, Repr

/-- The registers that implicit operands can name. -/
def implicitRegisters : List (String × ImplicitRegister) :=
  [("RAX", ⟨.gp, "A", 64, none⟩),
   ("EAX", ⟨.gp, "A", 32, none⟩),
   ("AX", ⟨.gp, "A", 16, none⟩),
   ("AL", ⟨.gp, "A", 8, some .lowByte⟩),
   ("AH", ⟨.gp, "A", 8, some .highByte⟩),
   ("RCX", ⟨.gp, "C", 64, none⟩),
   ("ECX", ⟨.gp, "C", 32, none⟩),
   ("CX", ⟨.gp, "C", 16, none⟩),
   ("CL", ⟨.gp, "C", 8, none⟩),
   ("RDX", ⟨.gp, "D", 64, none⟩),
   ("EDX", ⟨.gp, "D", 32, none⟩),
   ("DX", ⟨.gp, "D", 16, none⟩),
   ("RBX", ⟨.gp, "B", 64, none⟩),
   ("EBX", ⟨.gp, "B", 32, none⟩),
   ("RSP", ⟨.gp, "SP", 64, none⟩),
   ("SP", ⟨.gp, "SP", 16, none⟩),
   ("RBP", ⟨.gp, "BP", 64, none⟩),
   ("BP", ⟨.gp, "BP", 16, none⟩),
   ("RSI", ⟨.gp, "SI", 64, none⟩),
   ("ESI", ⟨.gp, "SI", 32, none⟩),
   ("SI", ⟨.gp, "SI", 16, none⟩),
   ("SIL", ⟨.gp, "SI", 8, none⟩),
   ("RDI", ⟨.gp, "DI", 64, none⟩),
   ("EDI", ⟨.gp, "DI", 32, none⟩),
   ("DI", ⟨.gp, "DI", 16, none⟩),
   ("DIL", ⟨.gp, "DI", 8, none⟩),
   ("RIP", ⟨.ip, "IP", 64, none⟩),
   ("XMM0", ⟨.xmm, "XMM0", 128, none⟩),
   ("RFLAGS", ⟨.rflags, "RFLAGS", 64, none⟩),
   ("MXCSR", ⟨.mxcsr, "MXCSR", 32, none⟩)]

/-- The number of bits that tell apart a number of values; never less than one. A
negative count is measured by its magnitude. -/
def selectorWidth (values : Int) : Nat := max 1 (Bits.length (values - 1).natAbs)

/-- The width of a register id field, with room for one id that means no register. -/
def registerIdWidth : Nat := selectorWidth (registerCount + 1)

end EncoderTables.Arch
