import EncoderTables.Text.Digit

/-!
# Forms of explicit operands

An explicit operand name belongs to one of six families: immediates, register-or-memory
operands, registers, memory, memory offsets and vector-indexed memory. Each family has
a recognizer on the whole name; numbers are decimal digits of any script. The first
family that recognizes a name decides its form.
-/

namespace EncoderTables.Operand

/-- The vector register families of operand names. -/
inductive VectorName where
  | xmm | ymm | zmm | mm
  deriving DecidableEq, Repr

namespace VectorName

/-- The vector register families in the order in which they are tried. -/
def all : List VectorName := [xmm, ymm, zmm, mm]

/-- The spelling of a vector register family. -/
def spelling : VectorName → List Char
  | xmm => ['x', 'm', 'm']
  | ymm => ['y', 'm', 'm']
  | zmm => ['z', 'm', 'm']
  | mm => ['m', 'm']

end VectorName

/-- What an explicit operand name says. -/
inductive Form where
  /-- A numbered immediate, with its width if given. -/
  | immediate (width : Option Nat)
  /-- A branch distance, with its width if given. -/
  | relative (width : Option Nat)
  /-- A vector register or memory of the given width. -/
  | vectorOrMemory (family : VectorName) (memory : Nat)
  /-- A general purpose register or memory; the register is as wide as the memory
  unless its width is given. -/
  | generalOrMemory (register : Option Nat) (memory : Nat)
  /-- A vector register. -/
  | vectorRegister (family : VectorName)
  /-- A general purpose register. -/
  | generalRegister (width : Nat)
  /-- Memory, with its width if given. -/
  | memory (width : Option Nat)
  /-- Memory at an absolute offset. -/
  | offset (width : Nat)
  /-- Memory addressed by a vector of indices; the letter gives the index width. -/
  | vectorIndexed (index : Nat) (memory : Nat)
  deriving DecidableEq, Repr

/-- What follows a leader at the start of a text. -/
def after? : (leader text : List Char) → Option (List Char)
  | [], text => some text
  | _ :: _, [] => none
  | l :: leader, c :: text => if l = c then after? leader text else none

/-- A text of one or more digits, as a number. -/
def number? (text : List Char) : Option Nat :=
  if !text.isEmpty && text.all Text.isDigit then some (Text.numeralValue text) else none

/-- A text of digits, as a number if there are any. -/
def optionalNumber? (text : List Char) : Option (Option Nat) :=
  if text.isEmpty then some none else (number? text).map some

/-- `imm` or `rel` with optional digits. -/
def immediateForm? (name : List Char) : Option Form :=
  match after? ['i', 'm', 'm'] name with
  | some rest => (optionalNumber? rest).map .immediate
  | none => match after? ['r', 'e', 'l'] name with
    | some rest => (optionalNumber? rest).map .relative
    | none => none

/-- The vector register family at the start of a name, and what follows it. -/
def vectorName? (name : List Char) : Option (VectorName × List Char) :=
  VectorName.all.findSome? fun family => (after? family.spelling name).map (family, ·)

/-- A register with `/m` and digits, or `rm` with digits. -/
def registerOrMemoryForm? (name : List Char) : Option Form :=
  match vectorName? name with
  | some (family, rest) =>
    ((after? ['/', 'm'] rest).bind number?).map (.vectorOrMemory family)
  | none => match name with
    | 'r' :: 'm' :: rest => (number? rest).map (.generalOrMemory none)
    | 'r' :: rest => do
      let width ← optionalNumber? (rest.takeWhile Text.isDigit)
      let memory ← (after? ['/', 'm'] (rest.dropWhile Text.isDigit)).bind number?
      return .generalOrMemory width memory
    | _ => none

/-- A bracketed pair of numbers joined by two points, alone. -/
def isBracketedRange : List Char → Bool
  | '[' :: text =>
    !(text.takeWhile Text.isDigit).isEmpty &&
      match text.dropWhile Text.isDigit with
      | '.' :: '.' :: text =>
        !(text.takeWhile Text.isDigit).isEmpty && text.dropWhile Text.isDigit == [']']
      | _ => false
  | _ => false

/-- A vector register, perhaps with a bracketed range, or `r` with digits. -/
def registerForm? (name : List Char) : Option Form :=
  match vectorName? name with
  | some (family, rest) =>
    if rest.isEmpty || isBracketedRange rest then some (.vectorRegister family) else none
  | none => match name with
    | 'r' :: rest => (number? rest).map .generalRegister
    | _ => none

/-- `m` with optional digits. -/
def memoryForm? : List Char → Option Form
  | 'm' :: rest => (optionalNumber? rest).map .memory
  | _ => none

/-- `moffs` with digits. -/
def offsetForm? (name : List Char) : Option Form :=
  ((after? ['m', 'o', 'f', 'f', 's'] name).bind number?).map .offset

/-- The width of the index vector of an index letter. -/
def indexWidth? : Char → Option Nat
  | 'x' => some 128
  | 'y' => some 256
  | 'z' => some 512
  | _ => none

/-- `vm`, digits, an index letter and digits. -/
def vectorIndexedForm? (name : List Char) : Option Form := do
  let rest ← after? ['v', 'm'] name
  let _ ← number? (rest.takeWhile Text.isDigit)
  match rest.dropWhile Text.isDigit with
  | letter :: memory => return .vectorIndexed (← indexWidth? letter) (← number? memory)
  | [] => none

/-- The recognizers in the order in which they are tried. -/
def recognizers : List (List Char → Option Form) :=
  [immediateForm?, registerOrMemoryForm?, registerForm?, memoryForm?, offsetForm?,
   vectorIndexedForm?]

/-- The form of an explicit operand name. -/
def Form.ofName? (name : String) : Option Form := recognizers.findSome? (· name.toList)

end EncoderTables.Operand
