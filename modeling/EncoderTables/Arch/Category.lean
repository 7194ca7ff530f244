/-!
# Instruction categories

The closed lists that instruction tables are indexed by: operand sizes, instruction
flags, processor features and exceptions. The position in a list is the emitted number
or bit.
-/

namespace EncoderTables.Arch

/-- The operand widths with an emitted id. -/
def operandSizes : List Nat := [1, 8, 16, 32, 64, 128, 256, 512]

/-- The flags of an instruction. -/
def instructionFlags : List String := ["sp", "rex", "vex", "lock", "branch"]

/-- The processor features that an instruction may need. -/
def features : List String :=
  ["cmov", "sse", "sse2", "sse3", "ssse3", "sse4_1", "sse4_2", "avx", "avx2", "fma",
   "popcnt", "lzcnt", "bmi1", "bmi2", "adx", "rdrand"]

/-- The exceptions that an instruction may raise. -/
def exceptions : List String :=
  ["de", "db", "bp", "of", "br", "ud", "nm", "df", "ts", "np", "ss", "gp", "pf", "mf",
   "ac", "mc", "xm", "ve"]

/-- The number whose set bits are the positions of the selected symbols. -/
def bitSet {α : Type} [BEq α] (symbols selected : List α) : Nat :=
  (symbols.zipIdx.filter fun entry => selected.contains entry.1).foldl
    (fun value entry => value ||| 1 <<< entry.2) 0

end EncoderTables.Arch
