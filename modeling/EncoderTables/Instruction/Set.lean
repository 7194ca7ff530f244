import EncoderTables.Digest.Md5
import EncoderTables.Instruction.Basic

/-!
# Instruction sets

An instruction set is an ordered collection of instructions with distinct names; the
position of an instruction is its emitted id. The signature is the digest of a text
that lists every instruction with its id, specification and encoding.
-/

namespace EncoderTables

/-- The instructions of the architecture that are to be encoded. -/
structure InstructionSet where
  instructions : List Instruction

namespace InstructionSet

/-- The only supported architecture. -/
def architecture : String := Naming.architecture

/-- A set without instructions. -/
def empty : InstructionSet := ⟨[]⟩

/-- A set without instructions for a named architecture. -/
def forArchitecture (name : String) : Except Failure InstructionSet :=
  if name = architecture then .ok empty else refuse (.invalidArchitecture name)

/-- The instruction of a name. -/
def find? (set : InstructionSet) (name : String) : Option Instruction :=
  set.instructions.find? (·.name == name)

/-- The instruction of a name, which must be in the set. -/
def get (set : InstructionSet) (name : String) : Except Failure Instruction :=
  match set.find? name with
  | some instruction => .ok instruction
  | none => refuse .missingKey

/-- Add an instruction behind the others; its name must be new. -/
def add (set : InstructionSet) (instruction : Instruction) : Except Failure InstructionSet :=
  if (set.find? instruction.name).isSome then
    refuse (.duplicateInstruction instruction.name)
  else .ok ⟨set.instructions ++ [{ instruction with position := some set.instructions.length }]⟩

/-- Add instructions one after the other. -/
def addAll (set : InstructionSet) : List Instruction → Except Failure InstructionSet
  | [] => .ok set
  | instruction :: rest => do (← set.add instruction).addAll rest

/-- The order of bit ranges: by first bit, then by last. -/
def rangePrecedes (a b : Operand.BitRange) : Bool :=
  a.low < b.low || (a.low == b.low && a.high < b.high)

/-- Put a bit range at its place in an ordered list, unless it is there already. -/
def insertRange (range : Operand.BitRange) : List Operand.BitRange → List Operand.BitRange
  | [] => [range]
  | first :: rest =>
    if range = first then first :: rest
    else if rangePrecedes range first then range :: first :: rest
    else first :: insertRange range rest

/-- The bit ranges that operands write, each once, in order. -/
def writtenRanges (set : InstructionSet) : List Operand.BitRange :=
  (set.instructions.flatMap fun instruction =>
    instruction.operands.filterMap fun operand => operand.entry.range? .written).foldr
      insertRange []

/-- The text of one instruction inside the signed text. -/
def signedEntry (instruction : Instruction) : String :=
  instruction.name ++ "_" ++ toString (instruction.position.getD 0) ++ ":" ++
    instruction.specification ++ ":" ++ Node.shownEncoding instruction.encoding ++ ";"

/-- The text that identifies the encodings of all instructions. -/
def signedText (set : InstructionSet) : String :=
  String.join (set.instructions.map signedEntry)

/-- The digest of the signed text. -/
def signature (set : InstructionSet) : String :=
  Digest.md5 set.signedText.toUTF8.toList

end InstructionSet

end EncoderTables
