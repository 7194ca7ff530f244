import EncoderTables.Instruction.Set
import EncoderTables.X64.Form

/-!
# The described instruction set

The subset of the architecture's instructions that is described here, in the order of
their ids.
-/

namespace EncoderTables.X64

open Node

/-- The exceptions of an instruction that accesses memory. -/
def memoryExceptions : List String := ["gp", "ss", "pf", "ac"]

/-- The exceptions of a vector instruction. -/
def vectorExceptions : List String := ["gp", "ss", "pf", "ud", "nm", "xm"]

/-- The status bits that arithmetic writes. -/
def arithmeticFlags : String := "OF:w; SF:w; ZF:w; AF:w; CF:w; PF:w"

/-- The description of an instruction without overrides. -/
structure Description where
  name : String
  mnemonic : String
  operands : String
  encoding : List Node
  flags : List String
  features : List String
  exceptions : List String

/-- The instruction of a description. -/
def Description.instruction (description : Description) : Except Failure Instruction :=
  Instruction.make description.name description.mnemonic description.operands
    description.encoding description.flags description.features description.exceptions []

/-- An encoding of the usual form with numeric codes. -/
def standard (prefixes : List Node) (wide : Int) (codes : List Int) (field : Field)
    (target : Option String) (immediates : List Node) : List Node :=
  standardEncoding prefixes (bare (.number wide)) (bytes codes) field target immediates

/-- An extension of the opcode in the place of a register. -/
def extension (value : Int) : Field := .fixed (number value)

/-- An opcode byte whose low bits select the register. -/
def opcodeRegister (code : Int) (parameter : String) : Node :=
  write (binary "+" (number code) (lowBits parameter)) 8

/-- The legacy prefixes of a 16 bit instruction that can be locked, in any order. -/
def wordPrefixes : Node := unordered [optionalLock, sizeByte] (.text Node.defaultOrder)

/-- The descriptions of all instructions. -/
def descriptions : List Description :=
  [⟨"add_r32_rm32", "add", "r32:rw; rm32:r; " ++ arithmeticFlags,
      standard [] 0 [0x03] (.register "reg0") (some "reg1") [],
      [], [], memoryExceptions⟩,
   ⟨"add_rm64_imm32", "add", "rm64:rw; imm32:r; " ++ arithmeticFlags,
      standard [optionalLock] 1 [0x81] (extension 0) (some "reg0") [write (param "imm0") 32],
      ["rex", "lock"], [], memoryExceptions⟩,
   ⟨"adc_rm16_r16", "adc", "rm16:rw; r16:r; OF:w; SF:w; ZF:w; AF:w; CF:rw; PF:w",
      standard [wordPrefixes] 0 [0x11] (.register "reg1") (some "reg0") [],
      ["lock"], [], memoryExceptions⟩,
   ⟨"sub_rm16_imm16", "sub", "rm16:rw; imm16:r; " ++ arithmeticFlags,
      standard [wordPrefixes] 0 [0x81] (extension 5) (some "reg0") [write (param "imm0") 16],
      ["lock"], [], memoryExceptions⟩,
   ⟨"cmpxchg_rm32_r32", "cmpxchg", "rm32:rc; r32:r; EAX:rc; " ++ arithmeticFlags,
      standard [optionalLock] 0 [0x0f, 0xb1] (.register "reg1") (some "reg0") [],
      ["lock"], [], memoryExceptions⟩,
   ⟨"popcnt_r64_rm64", "popcnt", "r64:w; rm64:r; OF:w; SF:w; ZF:w; AF:w; CF:w; PF:w",
      standard [write (number 0xf3) 8] 1 [0x0f, 0xb8] (.register "reg0") (some "reg1") [],
      ["rex"], ["popcnt"], memoryExceptions ++ ["ud"]⟩,
   ⟨"cmovz_r32_rm32", "cmovz", "r32:c; rm32:r; ZF:r",
      standard [] 0 [0x0f, 0x44] (.register "reg0") (some "reg1") [],
      [], ["cmov"], memoryExceptions⟩,
   ⟨"mov_r64_imm64", "mov", "r64:w; imm64:r",
      [call (opcodeExtensionRoutine (bare (.number 1)) "reg0"), opcodeRegister 0xb8 "reg0",
       write (param "imm0") 64],
      ["rex"], [], []⟩,
   ⟨"mov_rax_moffs64", "mov", "RAX:w; moffs64:r",
      bytes [0x48, 0xa1] ++ [write (param "moffs") 64],
      ["rex"], [], memoryExceptions⟩,
   ⟨"mov_r8_imm8", "mov", "r8:w; imm8:r",
      [branch (param "reg0_high_byte")
        [branch (binary ">" (registerNumber "reg0") (number 3))
          [abort "only the first four general purpose registers have a high byte"] [],
         opcodeRegister 0xb4 "reg0"]
        [call (opcodeExtensionRoutine (bare (.number 0)) "reg0"), opcodeRegister 0xb0 "reg0"],
       write (param "imm0") 8],
      [], [], []⟩,
   ⟨"push_r64", "push", "r64:r; RSP:rw; [RSP]:w",
      [call (opcodeExtensionRoutine (bare (.number 0)) "reg0"), opcodeRegister 0x50 "reg0"],
      ["sp"], [], ["ss", "pf", "ac"]⟩,
   ⟨"pushfq", "pushfq", "RFLAGS:r; RSP:rw; [RSP]:w", bytes [0x9c],
      ["sp"], [], ["ss", "pf", "ac"]⟩,
   ⟨"enter_imm16_imm8", "enter", "imm16:r; imm8:r; RSP:rw; RBP:rw",
      bytes [0xc8] ++ [write (param "imm0") 16, write (param "imm1") 8],
      ["sp"], [], ["ss", "pf", "ac"]⟩,
   ⟨"shl_rm32_cl", "shl", "rm32:rw; CL:r; OF:u; SF:w; ZF:w; AF:u; CF:w; PF:w",
      standard [] 0 [0xd3] (extension 4) (some "reg0") [],
      [], [], memoryExceptions⟩,
   ⟨"shl_rm32_1", "shl", "rm32:rw; 1:r; OF:w; SF:w; ZF:w; AF:u; CF:w; PF:w",
      standard [] 0 [0xd1] (extension 4) (some "reg0") [],
      [], [], memoryExceptions⟩,
   ⟨"xlat", "xlatb", "AL:rw; [RBX + AL]:r", bytes [0x48, 0xd7],
      ["rex"], [], memoryExceptions⟩,
   ⟨"jmp_rel32", "jmp", "rel32:r; RIP:rw", bytes [0xe9] ++ [write (param "rel") 32],
      ["branch"], [], ["gp"]⟩,
   ⟨"ldmxcsr_m32", "ldmxcsr", "m32:r; MXCSR:w",
      standard [] 0 [0x0f, 0xae] (extension 2) none [],
      [], ["sse"], memoryExceptions ++ ["ud", "nm"]⟩,
   ⟨"addps_xmm_xmmm128", "addps", "xmm:rw; xmm/m128:r; IE:w; DE:w; OE:w; UE:w; PE:w",
      standard [] 0 [0x0f, 0x58] (.register "reg0") (some "reg1") [],
      [], ["sse"], vectorExceptions⟩,
   ⟨"vpgatherdd_xmm_vm32x_xmm", "vpgatherdd", "xmm:rc; vm32x32:r; xmm:rw",
      [call (vectorPrefixRoutine "reg0" "reg1" (number 2) (number 1) (number 0) (number 0))] ++
        bytes [0x90] ++ [call (formRoutine (.register "reg0") none true)],
      ["vex"], ["avx2"], ["gp", "ss", "pf", "ud", "nm"]⟩,
   ⟨"movss_xmm_xmmm32", "movss", "xmm:w[0..31]; xmm/m32:r",
      standard [write (number 0xf3) 8] 0 [0x0f, 0x10] (.register "reg0") (some "reg1") [],
      [], ["sse"], vectorExceptions⟩]

/-- The described instruction set. -/
def instructionSet : Except Failure InstructionSet := do
  let instructions ← descriptions.mapM Description.instruction
  InstructionSet.empty.addAll instructions

end EncoderTables.X64
