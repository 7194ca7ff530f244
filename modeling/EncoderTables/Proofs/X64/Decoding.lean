import EncoderTables.Proofs.Domain.Values
import EncoderTables.Proofs.Encoding.Meaning

/-!
# Reading encoded operands

How a processor reads the operands of an instruction in 64 bit mode. An extension prefix holds a
width bit and the high bits of three register numbers; without it all four are zero. The form
byte has a mode, a register field and a memory field. In the last mode the memory field is a
register, too. Otherwise two of its values are escapes: four means that a second byte selects
base and index, and five, without displacement, that memory is found relative to the next
instruction. In the second byte the index four stands for no index, and the base five, without
displacement, for no base.
-/

namespace EncoderTables.X64

/-- Where an operand is found. -/
inductive Place where
  | register (number : Nat)
  /-- Memory at the sum of a base register, a scaled index register and a displacement. The scale
  is given by the exponent of its power of two. -/
  | memory (base : Option Nat) (index : Option (Nat × Nat)) (displacement : Option Int)
  /-- Memory at a distance from the next instruction. -/
  | relative (distance : Int)
  deriving DecidableEq, Repr

/-- What an extension prefix, a form byte and what belongs to it select. -/
structure Selection where
  wide : Nat
  field : Nat
  place : Place
  deriving DecidableEq, Repr

/-- The bits of an extension prefix: the width bit and the high bits of the register field, of
the index and of the base or the register in the place of memory. -/
structure Extension where
  wide : Nat
  field : Nat
  index : Nat
  base : Nat
  deriving DecidableEq, Repr

namespace Extension

/-- Without a prefix all bits are zero. -/
def none : Extension := ⟨0, 0, 0, 0⟩

/-- The prefix as a byte. -/
def byte (extension : Extension) : UInt8 :=
  .ofNat (64 + extension.wide * 8 + extension.field * 4 + extension.index * 2 + extension.base)

/-- The parts of a prefix are bits. -/
structure Valid (extension : Extension) : Prop where
  wide : extension.wide < 2
  field : extension.field < 2
  index : extension.index < 2
  base : extension.base < 2

end Extension

/-- Read the extension prefix, if there is one. -/
def readExtension : List UInt8 → Extension × List UInt8
  | [] => (.none, [])
  | first :: rest =>
    let bits := first.toNat
    if bits / 16 = 4 then (⟨bits / 8 % 2, bits / 4 % 2, bits / 2 % 2, bits % 2⟩, rest)
    else (.none, first :: rest)

/-- The number whose bytes are given, the lowest first. -/
def bytesNumber (bytes : List UInt8) : Nat :=
  bytes.foldr (fun byte number => byte.toNat + 256 * number) 0

/-- Read a signed number of some bytes. -/
def readSigned (count : Nat) (bytes : List UInt8) : Option (Int × List UInt8) :=
  if count ≤ bytes.length then
    some (Int.bmod (bytesNumber (bytes.take count)) (256 ^ count), bytes.drop count)
  else none

/-- Read the displacement of a mode: none, one of a byte or one of four bytes. -/
def readDisplacement (mode : Nat) (bytes : List UInt8) : Option (Option Int × List UInt8) :=
  if mode = 0 then some (none, bytes)
  else
    (readSigned (if mode = 1 then 1 else 4) bytes).map fun (displacement, rest) =>
      (some displacement, rest)

/-- Read the base and the index that the second byte selects, and the displacement. -/
def readIndexed (extension : Extension) (mode : Nat) :
    List UInt8 → Option (Place × List UInt8)
  | [] => none
  | second :: rest =>
    let base := second.toNat % 8
    let index := second.toNat / 8 % 8 + extension.index * 8
    let scaled := if index = 4 then none else some (index, second.toNat / 64)
    if base = 5 ∧ mode = 0 then
      (readSigned 4 rest).map fun (displacement, rest) =>
        (.memory none scaled (some displacement), rest)
    else
      (readDisplacement mode rest).map fun (displacement, rest) =>
        (.memory (some (base + extension.base * 8)) scaled displacement, rest)

/-- Read where the operand of a mode and a memory field is found. -/
def readPlace (extension : Extension) (mode memory : Nat) (bytes : List UInt8) :
    Option (Place × List UInt8) :=
  if mode = 3 then some (.register (memory + extension.base * 8), bytes)
  else if memory = 4 then readIndexed extension mode bytes
  else if memory = 5 ∧ mode = 0 then
    (readSigned 4 bytes).map fun (distance, rest) => (.relative distance, rest)
  else
    (readDisplacement mode bytes).map fun (displacement, rest) =>
      (.memory (some (memory + extension.base * 8)) none displacement, rest)

/-- Read the form byte and what belongs to it. -/
def readForm (extension : Extension) : List UInt8 → Option (Selection × List UInt8)
  | [] => none
  | form :: rest =>
    let bits := form.toNat
    (readPlace extension (bits / 64) (bits % 8) rest).map fun (place, rest) =>
      (⟨extension.wide, bits / 8 % 8 + extension.field * 8, place⟩, rest)

/-- What the bytes in front of a text of bytes select, and the bytes behind them. -/
def decode (bytes : List UInt8) : Option (Selection × List UInt8) :=
  readForm (readExtension bytes).1 (readExtension bytes).2

/-- A byte of three fields, of two, three and three bits. -/
def fieldsByte (high middle low : Nat) : UInt8 := .ofNat (high * 64 + middle * 8 + low)

/-- The number of a byte of three fields. -/
theorem toNat_fieldsByte {high middle low : Nat} (top : high < 4) (inner : middle < 8)
    (bottom : low < 8) :
    (fieldsByte high middle low).toNat = high * 64 + middle * 8 + low := by
  rw [fieldsByte, UInt8.toNat_ofNat']
  omega

/-- An extension prefix is read back. -/
theorem readExtension_byte {extension : Extension} (valid : extension.Valid)
    (rest : List UInt8) : readExtension (extension.byte :: rest) = (extension, rest) := by
  obtain ⟨wide, field, index, base⟩ := extension
  obtain ⟨one, two, three, four⟩ := valid
  have bits : (Extension.byte ⟨wide, field, index, base⟩).toNat =
      64 + wide * 8 + field * 4 + index * 2 + base := by
    rw [Extension.byte, UInt8.toNat_ofNat']
    simp only at one two three four ⊢
    omega
  simp only at one two three four
  have marked : (64 + wide * 8 + field * 4 + index * 2 + base) / 16 = 4 := by omega
  simp only [readExtension, bits, if_pos marked, Prod.mk.injEq, Extension.mk.injEq, and_true]
  omega

/-- A byte of the three modes that encodings use is no extension prefix. -/
theorem readExtension_fields {mode field memory : Nat} (known : mode = 0 ∨ mode = 2 ∨ mode = 3)
    (inner : field < 8) (bottom : memory < 8) (rest : List UInt8) :
    readExtension (fieldsByte mode field memory :: rest) =
      (.none, fieldsByte mode field memory :: rest) := by
  have bits := toNat_fieldsByte (by omega : mode < 4) inner bottom
  have unmarked : (mode * 64 + field * 8 + memory) / 16 ≠ 4 := by omega
  simp only [readExtension, bits, if_neg unmarked]

/-- A form byte is read back. -/
theorem readForm_fields (extension : Extension) {mode field memory : Nat} (top : mode < 4)
    (inner : field < 8) (bottom : memory < 8) (rest : List UInt8) :
    readForm extension (fieldsByte mode field memory :: rest) =
      (readPlace extension mode memory rest).map fun (place, rest) =>
        (⟨extension.wide, field + extension.field * 8, place⟩, rest) := by
  have high : (mode * 64 + field * 8 + memory) / 64 = mode := by omega
  have middle : (mode * 64 + field * 8 + memory) / 8 % 8 = field := by omega
  have low : (mode * 64 + field * 8 + memory) % 8 = memory := by omega
  simp only [readForm, toNat_fieldsByte top inner bottom, high, middle, low]

/-- The second byte is read back. -/
theorem readIndexed_fields (extension : Extension) (mode : Nat) {scale index base : Nat}
    (top : scale < 4) (inner : index < 8) (bottom : base < 8) (based : ¬(base = 5 ∧ mode = 0))
    (rest : List UInt8) :
    readIndexed extension mode (fieldsByte scale index base :: rest) =
      (readDisplacement mode rest).map fun (displacement, rest) =>
        (.memory (some (base + extension.base * 8))
          (if index + extension.index * 8 = 4 then none
            else some (index + extension.index * 8, scale)) displacement, rest) := by
  have high : (scale * 64 + index * 8 + base) / 64 = scale := by omega
  have middle : (scale * 64 + index * 8 + base) / 8 % 8 = index := by omega
  have low : (scale * 64 + index * 8 + base) % 8 = base := by omega
  simp only [readIndexed, toNat_fieldsByte top inner bottom, high, middle, low, if_neg based]

/-- The lowest bytes of a number are its remainder. -/
theorem bytesNumber_littleEndian (count : Nat) (value : Int) :
    (bytesNumber (Node.littleEndian count value) : Int) = value % (256 ^ count : Nat) := by
  induction count generalizing value with
  | zero => simp [Node.littleEndian, bytesNumber]
  | succ count induction =>
    have byte : ((UInt8.ofNat (value % 256).toNat).toNat : Int) = value % 256 := by
      rw [UInt8.toNat_ofNat']
      omega
    have number : (bytesNumber (Node.littleEndian (count + 1) value) : Int) =
        value % 256 + 256 * (value / 256 % (256 ^ count : Nat)) := by
      rw [← induction, ← byte]
      simp [Node.littleEndian, bytesNumber]
    have positive : (0 : Int) < (256 ^ count : Nat) := by exact_mod_cast Nat.pow_pos (by decide)
    have parts := Int.emod_add_mul_ediv (value / 256) (256 ^ count : Nat)
    have low := Int.emod_nonneg (value / 256) positive.ne'
    have high := Int.emod_lt_of_pos (value / 256) positive
    have whole : ((256 ^ (count + 1) : Nat) : Int) = 256 * (256 ^ count : Nat) := by
      rw [Nat.pow_succ, Nat.mul_comm, Nat.cast_mul]
      rfl
    rw [number, whole]
    refine (((Int.ediv_emod_unique (q := value / 256 / (256 ^ count : Nat)) (by omega)).mpr
      ⟨?_, by omega, by omega⟩).2).symm
    rw [mul_assoc]
    omega

/-- A signed number of four bytes is read back. -/
theorem readSigned_written {value : Int} (held : Bits.Holds 32 true value)
    (rest : List UInt8) : readSigned 4 (Node.written 32 value ++ rest) = some (value, rest) := by
  change readSigned 4 (Node.littleEndian 4 value ++ rest) = some (value, rest)
  have length := Node.length_littleEndian 4 value
  have enough : 4 ≤ (Node.littleEndian 4 value ++ rest).length := by
    rw [List.length_append]
    omega
  simp only [Bits.Holds, if_true] at held
  have number : Int.bmod (bytesNumber (Node.littleEndian 4 value)) (256 ^ 4) = value := by
    rw [bytesNumber_littleEndian, Int.emod_bmod]
    exact Int.bmod_eq_of_le (by omega) (by omega)
  rw [readSigned, if_pos enough, List.take_left' length, List.drop_left' length, number]

/-- A form byte whose memory field selects the base is read with its displacement. -/
theorem readForm_direct (extension : Extension) {mode field memory : Nat} (top : mode < 3)
    (inner : field < 8) (bottom : memory < 8) (unmarked : memory ≠ 4)
    (based : ¬(memory = 5 ∧ mode = 0)) (rest : List UInt8) :
    readForm extension (fieldsByte mode field memory :: rest) =
      (readDisplacement mode rest).map fun (displacement, rest) =>
        (⟨extension.wide, field + extension.field * 8,
          .memory (some (memory + extension.base * 8)) none displacement⟩, rest) := by
  have indirect : mode ≠ 3 := by omega
  rw [readForm_fields extension (by omega) inner bottom, readPlace, if_neg indirect,
    if_neg unmarked, if_neg based, Option.map_map]
  rfl

/-- A form byte with a second byte is read with its displacement. -/
theorem readForm_indexed (extension : Extension) {mode field scale index base : Nat}
    (top : mode < 3) (inner : field < 8) (times : scale < 4) (middle : index < 8)
    (bottom : base < 8) (based : ¬(base = 5 ∧ mode = 0)) (rest : List UInt8) :
    readForm extension (fieldsByte mode field 4 :: fieldsByte scale index base :: rest) =
      (readDisplacement mode rest).map fun (displacement, rest) =>
        (⟨extension.wide, field + extension.field * 8,
          .memory (some (base + extension.base * 8))
            (if index + extension.index * 8 = 4 then none
              else some (index + extension.index * 8, scale)) displacement⟩, rest) := by
  have indirect : mode ≠ 3 := by omega
  rw [readForm_fields extension (by omega) inner (by decide), readPlace, if_neg indirect,
    if_pos rfl, readIndexed_fields extension mode times middle bottom based, Option.map_map]
  rfl

end EncoderTables.X64
