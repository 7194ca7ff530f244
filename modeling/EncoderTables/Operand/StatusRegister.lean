import EncoderTables.Arch.StatusBit
import EncoderTables.Operand.Entry

/-!
# Status registers in operand lists

Specifications name the bits of the status registers as if they were operands. An
operand list has one operand for each register instead: the tracked bits of a register
are gathered into the first operand of the register's name or, when there is none,
into a new one behind the other operands. Untracked bits are dropped.
-/

namespace EncoderTables.Operand

/-- The access modes that some of the given bits have, in canonical order. -/
def gatheredFlags (bits : List Entry) : List Access :=
  Access.all.filter fun mode => bits.any fun bit => bit.flags.contains mode

/-- The names of the bits that are read, written or conditionally written, and left
undefined. -/
def statusUse (bits : List Entry) : StatusUse where
  read := (bits.filter (·.flags.contains .read)).map (·.name)
  written := (bits.filter fun bit =>
    bit.flags.contains .written || bit.flags.contains .conditional).map (·.name)
  undefined := (bits.filter (·.flags.contains .undefined)).map (·.name)

/-- The operand that stands for a register whose bits are given. -/
def composite (register : String) (bits : List Entry) : Entry :=
  ⟨register, gatheredFlags bits, [], some (statusUse bits)⟩

/-- An operand of the register's own name takes the bits over: its access modes become
the union, in canonical order. -/
def Entry.absorb (entry : Entry) (bits : List Entry) : Entry :=
  { entry with
    flags := Access.all.filter fun mode =>
      entry.flags.contains mode || (gatheredFlags bits).contains mode
    status := some (statusUse bits) }

/-- Apply a change to the first operand of a name. -/
def changeFirst (name : String) (change : Entry → Entry) : List Entry → List Entry
  | [] => []
  | entry :: rest =>
    if entry.name = name then change entry :: rest else entry :: changeFirst name change rest

/-- Put the bits of a register into an operand list; without bits nothing changes. -/
def gather (register : String) (bits operands : List Entry) : List Entry :=
  if bits.isEmpty then operands
  else if operands.any (·.name == register) then
    changeFirst register (·.absorb bits) operands
  else operands ++ [composite register bits]

/-- A bit of the flags register that is tracked. -/
def Entry.isFlagsBit (entry : Entry) : Bool :=
  !Arch.isIgnoredBit entry.name && Arch.flagsBits.contains entry.name

/-- A bit of the vector status register that is tracked. -/
def Entry.isVectorStatusBit (entry : Entry) : Bool :=
  !Arch.isIgnoredBit entry.name && !Arch.flagsBits.contains entry.name &&
    Arch.vectorStatusBits.contains entry.name

/-- An operand that is no status bit. -/
def Entry.isOrdinary (entry : Entry) : Bool :=
  !Arch.isIgnoredBit entry.name && !Arch.flagsBits.contains entry.name &&
    !Arch.vectorStatusBits.contains entry.name

/-- Replace the status bits of an operand list by status registers. -/
def gatherStatus (entries : List Entry) : List Entry :=
  gather "MXCSR" (entries.filter Entry.isVectorStatusBit)
    (gather "RFLAGS" (entries.filter Entry.isFlagsBit) (entries.filter Entry.isOrdinary))

/-- Read a specification and gather its status bits. -/
def parseGathered (specification : String) (instruction : Option String) :
    Except Failure (List Entry) :=
  (parseEntries specification instruction).map gatherStatus

end EncoderTables.Operand
