import EncoderTables.Encoding.Node

/-!
# Encoding forms

The building blocks of the architecture's encodings: prefixes, the byte that selects
registers or a memory form, and the routines that instructions share. A register number
has four bits; its low three go into a field of the form, its high bit into a prefix.
-/

namespace EncoderTables.X64

open Node

/-- A constant number. -/
def number (value : Int) : Node := literal (.number value)

/-- A write of values that are packed with constant widths. -/
def fields (values : List Node) (widths : List Int) : Node :=
  packed values (widths.map Scalar.number)

/-- The number of the register that a parameter selects. -/
def registerNumber (parameter : String) : Node := unary "evoasm_x64_reg_num" (param parameter)

/-- The low three bits of a register number. -/
def lowBits (parameter : String) : Node := binary "&" (registerNumber parameter) (number 7)

/-- The high bit of a register number. -/
def highBit (parameter : String) : Node := binary ">>" (registerNumber parameter) (number 3)

/-- A chain of an operator over one or more conditions, from the left. -/
def chain? (symbol : String) : List Node → Except Failure Node
  | [] => refuse .outOfRange
  | first :: rest =>
    .ok (rest.foldl (fun joined condition => binary symbol joined.operand condition.operand) first)

/-- At least one of one or more conditions. -/
def disjunction (first : Node) (rest : List Node) : Node := rest.foldl (binary "||") first

/-- A memory operand has an index register that needs the prefix. -/
def indexBit : Node := binary "&&" (isSet "reg_index") (highBit "reg_index")

/-- What the middle field of the form byte holds: a register or a fixed value, such as
an extension of the opcode. -/
inductive Field where
  | register (parameter : String)
  | fixed (value : Node)
  deriving Inhabited

namespace Field

/-- The field of a plain value: a text names a register parameter. -/
def ofNode : Node → Field
  | bare (.text parameter) => register parameter
  | node => fixed node

/-- The value of the field. -/
def value : Field → Node
  | register parameter => lowBits parameter
  | fixed node => node

/-- The bit that the prefix adds to the field. -/
def prefixBit : Field → Node
  | register parameter => highBit parameter
  | fixed _ => number 0

/-- The condition under which the prefix is needed for the field, if there is one. -/
def condition : Field → List Node
  | register parameter => [highBit parameter]
  | fixed _ => []

end Field

/-- Bytes of an opcode; a list of values is no byte. -/
def opcode? (values : List Node) : Except Failure (List Node) :=
  values.mapM fun value => write? value (bare (.number 8))

/-- Bytes of an opcode given as numbers. -/
def bytes (values : List Int) : List Node := values.map fun value => write (number value) 8

/-- The lock prefix, when it is asked for. -/
def optionalLock : Node := branch (param "lock") [write (number 0xf0) 8] []

/-- The prefix that selects the other operand size. -/
def sizeByte : Node := write (number 0x66) 8

/-- Whether a width bit given as a plain value is set. Anything that is computed counts
as set. -/
def isWide : Node → Bool
  | bare value => value.isTrue
  | group items => !items.isEmpty
  | _ => true

/-- The bits of a register extension prefix. -/
def extensionByte (wide field index base : Node) : Node :=
  fields [number 4, wide.operand, field, index, base] [4, 1, 1, 1, 1]

/-- A prefix that is always written when it is wide, else only under a condition. -/
def unlessNeedless (wide : Node) (condition byte : Node) : Node :=
  if isWide wide then byte else branch condition [byte] []

/-- The extension prefix of an instruction with a form byte. Unless it is wide, it is
only written when an extension bit is needed or it is forced. In the register form the
index bit has no meaning. -/
def extensionRoutine (wide : Node) (field : Field) (target : Option String) : Node :=
  let memory := unlessNeedless wide
    (disjunction (param "force_rex") (field.condition ++ [indexBit, highBit "reg_base"]))
    (extensionByte wide field.prefixBit indexBit (highBit "reg_base"))
  let direct := target.toList.map fun parameter => unlessNeedless wide
    (disjunction (param "force_rex") (field.condition ++ [highBit parameter]))
    (extensionByte wide field.prefixBit (param "rex_x") (highBit parameter))
  routine "rex" [branch (isSet "reg_base") [memory] direct]

/-- The extension prefix of an instruction whose opcode holds the register. -/
def opcodeExtensionRoutine (wide : Node) (parameter : String) : Node :=
  routine "rex_opcode_reg"
    [unlessNeedless wide (disjunction (param "force_rex") [highBit parameter])
      (extensionByte wide (number 0) (number 0) (highBit parameter))]

/-- The form byte with its three fields. -/
def formByte (mode field memory : Node) : Node :=
  fields [mode.operand, field.operand, memory.operand] [2, 3, 3]

/-- The bytes that select a base and an index register of a memory operand. Without an
index register a base that could be taken for the mark of the second byte needs it too,
as does any base when it is forced; vector-indexed operands always have one. -/
def memoryForms (mode : Int) (field : Node) (vectorIndexed : Bool) (displacement : List Node) :
    List Node :=
  let mark := formByte (number mode) field (number 4)
  let indexed := [mark, formByte (param "scale") (lowBits "reg_index") (lowBits "reg_base")]
  if vectorIndexed then indexed ++ displacement
  else
    let based := [mark, formByte (number 0) (number 4) (lowBits "reg_base")]
    let direct := [formByte (number mode) field (lowBits "reg_base")]
    let marked := disjunction (binary "==" (lowBits "reg_base") (number 4)) [param "force_sib"]
    branch (isSet "reg_index") indexed [branch marked based direct] :: displacement

/-- The form of a memory operand, with or without displacement. A base whose low bits
mark the absence of a base needs one. -/
def memoryForm (field : Node) (vectorIndexed : Bool) : List Node :=
  [branch (isSet "disp")
    (memoryForms 2 field vectorIndexed [write (param "disp") 32])
    (branch (binary "==" (lowBits "reg_base") (number 5))
      [abort "base register BP or R13 needs a displacement"] [] ::
        memoryForms 0 field vectorIndexed [])]

/-- The form of an operand in a register or in memory. -/
def formRoutine (field : Field) (target : Option String) (vectorIndexed : Bool) : Node :=
  let direct := match target with
    | none => abort "memory operand needs a base register"
    | some parameter => formByte (number 3) field.value (lowBits parameter)
  routine "modrm" [branch (isSet "reg_base") (memoryForm field.value vectorIndexed) [direct]]

/-- The three byte vector prefix of an instruction with a memory operand. The register
bits are stored inverted. -/
def vectorPrefixRoutine (register source : String) (opcodeMap operandPrefix wide length : Node) :
    Node :=
  routine "vex"
    [write (number 0xc4) 8,
     fields
      [unary "!" (highBit register), unary "!" indexBit, unary "!" (highBit "reg_base"),
       opcodeMap.operand] [1, 1, 1, 5],
     fields
      [wide.operand, binary "^" (registerNumber source) (number 0xf), length.operand,
       operandPrefix.operand] [1, 4, 1, 2]]

/-- The encoding of the usual form: legacy prefixes, extension prefix, opcode, form byte
and immediates. -/
def standardEncoding (prefixes : List Node) (wide : Node) (opcode : List Node) (field : Field)
    (target : Option String) (immediates : List Node) : List Node :=
  prefixes ++ [call (extensionRoutine wide field target)] ++ opcode ++
    [call (formRoutine field target false)] ++ immediates

end EncoderTables.X64
