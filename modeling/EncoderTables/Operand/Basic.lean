import EncoderTables.Arch.Register
import EncoderTables.Operand.Form
import EncoderTables.Operand.StatusRegister
import EncoderTables.Scalar
import EncoderTables.Text.Upper

/-!
# Operands

An operand is what a specification segment stands for. Names in upper case are implicit:
fixed registers, memory addressed by a fixed register, or a constant digit. All others
are explicit and have one of the operand forms. Explicit registers and immediates are
bound to parameters numbered in order, each kind on its own; distances and offsets have
parameters of their own name; no other operand has one.
-/

namespace EncoderTables.Operand

/-- The types of operands. -/
inductive Kind where
  | reg | rm | mem | imm | vsib | flags
  deriving DecidableEq, Repr

namespace Kind

/-- The operand types in the order of their emitted ids. -/
def all : List Kind := [reg, rm, mem, imm, vsib, flags]

/-- The name of an operand type. -/
def name : Kind → String
  | reg => "reg"
  | rm => "rm"
  | mem => "mem"
  | imm => "imm"
  | vsib => "vsib"
  | flags => "flags"

end Kind

/-- How many immediates and registers of an instruction have been numbered. -/
structure Numbering where
  immediates : Nat
  registers : Nat
  deriving DecidableEq, Repr

namespace Numbering

/-- Nothing has been numbered. -/
def start : Numbering := ⟨0, 0⟩

/-- The index of the next immediate. -/
def nextImmediate (n : Numbering) : Nat × Numbering :=
  (n.immediates, { n with immediates := n.immediates + 1 })

/-- The index of the next register. -/
def nextRegister (n : Numbering) : Nat × Numbering :=
  (n.registers, { n with registers := n.registers + 1 })

end Numbering

/-- What an operand's name determines, apart from its parameter. -/
structure Shape where
  kind : Kind
  registerType : Option Arch.RegisterType
  register : Option String
  registerSize : Option Nat
  part : Option Arch.WordType
  memorySize : Option Nat
  immediateSize : Option Nat
  indexSize : Option Nat
  constant : Option Nat
  deriving DecidableEq, Repr

/-- A shape about which only the type is known. -/
def Shape.ofKind (kind : Kind) : Shape :=
  ⟨kind, none, none, none, none, none, none, none, none⟩

/-- The widths of general purpose registers. -/
def generalWidths : List Nat := [8, 16, 32, 64]

/-- The register type and width of a vector register family. -/
def VectorName.register : VectorName → Arch.RegisterType × Nat
  | .xmm => (.xmm, 128)
  | .ymm => (.xmm, 256)
  | .zmm => (.zmm, 512)
  | .mm => (.mm, 64)

/-- A shape with a vector register. -/
def Shape.withVector (shape : Shape) (family : VectorName) : Shape :=
  { shape with
    registerType := some family.register.1
    registerSize := some family.register.2 }

/-- A shape with a general purpose register of a width that exists. -/
def Shape.withGeneral (shape : Shape) (width : Nat) (name : String) : Except Cause Shape :=
  if generalWidths.contains width then
    .ok { shape with registerType := some .gp, registerSize := some width }
  else .error (.invalidRegisterSize width name)

/-- The shape of an explicit operand. -/
def Form.shape (name : String) : Form → Except Cause Shape
  | .immediate width | .relative width =>
    .ok { Shape.ofKind .imm with immediateSize := width }
  | .vectorOrMemory family accessed =>
    .ok ({ Shape.ofKind .rm with memorySize := some accessed }.withVector family)
  | .generalOrMemory width accessed =>
    { Shape.ofKind .rm with memorySize := some accessed }.withGeneral (width.getD accessed) name
  | .vectorRegister family => .ok ((Shape.ofKind .reg).withVector family)
  | .generalRegister width => (Shape.ofKind .reg).withGeneral width name
  | .memory width => .ok { Shape.ofKind .mem with memorySize := width }
  | .offset width => .ok { Shape.ofKind .mem with memorySize := some width }
  | .vectorIndexed index accessed =>
    .ok { Shape.ofKind .vsib with memorySize := some accessed, indexSize := some index }

/-- The parameter that an explicit operand is bound to, and the numbering behind it. -/
def Form.parameter (numbering : Numbering) : Form → Option String × Numbering
  | .immediate _ =>
    let (index, next) := numbering.nextImmediate
    (some ("imm" ++ toString index), next)
  | .vectorOrMemory .. | .generalOrMemory .. | .vectorRegister _ | .generalRegister _ =>
    let (index, next) := numbering.nextRegister
    (some ("reg" ++ toString index), next)
  | .relative _ => (some "rel", numbering)
  | .offset _ => (some "moffs", numbering)
  | .memory _ | .vectorIndexed .. => (none, numbering)

/-- The register that an implicit operand names: brackets do not count, and of a sum
only the first term does. -/
def implicitName (name : List Char) : List Char :=
  let plain := Text.trim (name.filter fun c => c != '[' && c != ']')
  if plain.contains '+' then Text.trim (plain.takeWhile (· != '+')) else plain

/-- The shape of an implicit operand. -/
def implicitShape (name : String) : Except Cause Shape :=
  match name.toList.map Text.digitValue? with
  | [some value] => .ok { Shape.ofKind .imm with constant := some value }
  | _ =>
    let register := String.ofList (implicitName name.toList)
    match Arch.implicitRegisters.lookup register with
    | none => .error (.unknownImplicitRegister register)
    | some found =>
      let kind : Kind :=
        if name.toList.head? = some '[' then .mem
        else if found.type = .rflags || found.type = .mxcsr then .flags
        else .reg
      .ok { Shape.ofKind kind with
        registerType := some found.type
        register := some found.canonical
        registerSize := some found.width
        part := found.part }

/-- An operand name that its upper-case form does not change. -/
def isImplicit (name : String) : Bool := Text.upper name == name

end Operand

/-- An operand of an instruction: its segment, its shape and its parameter. -/
structure Operand where
  entry : Operand.Entry
  shape : Operand.Shape
  parameter : Option String
  deriving DecidableEq, Repr

namespace Operand

/-- The operand of a segment, and the numbering behind it. -/
def ofEntry (numbering : Numbering) (entry : Entry) : Except Cause (Operand × Numbering) :=
  if isImplicit entry.name then do
    return (⟨entry, ← implicitShape entry.name, none⟩, numbering)
  else
    match Form.ofName? entry.name with
    | none => .error (.unexpectedOperand entry.name)
    | some form => do
      let shape ← form.shape entry.name
      let (parameter, next) := form.parameter numbering
      return (⟨entry, shape, parameter⟩, next)

/-- The operands of a list of segments, numbered from the given state on. -/
def ofEntries (numbering : Numbering) : List Entry → Except Cause (List Operand)
  | [] => .ok []
  | entry :: entries => do
    let (operand, next) ← ofEntry numbering entry
    return operand :: (← ofEntries next entries)

/-- The operands of a specification; a failure names the instruction, if given. -/
def ofText (specification : String) (instruction : Option String) :
    Except Failure (List Operand) := do
  let entries ← parseGathered specification instruction
  (ofEntries .start entries).mapError (⟨·, instruction⟩)

/-- The parameters of a list of operands, in order. -/
def parameters (operands : List Operand) : List String := operands.filterMap (·.parameter)

/-- An implicit operand is fixed by its name. -/
def implicit (operand : Operand) : Bool := isImplicit operand.entry.name

/-- True when an operand has an access mode. -/
def has (operand : Operand) (mode : Access) : Bool := operand.entry.flags.contains mode

/-- The modes in which the operand's value is accessed, in canonical order. -/
def access (operand : Operand) : List Access :=
  [Access.read, .written, .conditional, .undefined].filter operand.has

/-- The width of the register or immediate, else of the index vector. A width of zero
counts as missing. -/
def valueSize (operand : Operand) : Option Nat :=
  match operand.shape.registerSize, operand.shape.immediateSize with
  | some (width + 1), _ => some (width + 1)
  | _, some (width + 1) => some (width + 1)
  | _, _ => operand.shape.indexSize

/-- The width of the memory accessed. -/
def memorySize (operand : Operand) : Option Nat := operand.shape.memorySize

/-- The widths that are words, with their word types. -/
def wordTypes : List (Nat × Arch.WordType) :=
  [(8, .lowByte), (16, .word), (32, .doubleWord), (64, .quadWord), (128, .vectorHalf),
   (256, .vector), (512, .vector)]

/-- The word type of a width, if there is a width. -/
def wordType : Scalar → Except Failure (Option Arch.WordType)
  | .absent => .ok none
  | size => match wordTypes.find? fun entry => size.same (.number entry.1) with
    | none => refuse (.noWordType size.plain)
    | some entry => .ok (some entry.2)

/-- The word type of the register or immediate; a named part decides it. -/
def valueWord (operand : Operand) : Except Failure (Option Arch.WordType) :=
  match operand.shape.part with
  | some part => .ok (some part)
  | none => wordType (.ofNat? operand.valueSize)

/-- The word type of the memory accessed. -/
def memoryWord (operand : Operand) : Except Failure (Option Arch.WordType) :=
  wordType (.ofNat? operand.memorySize)

end Operand

end EncoderTables
