import EncoderTables.Domain.Default
import EncoderTables.Proofs.Results
import EncoderTables.Proofs.X64.Decoding
import EncoderTables.X64.Form

/-!
# What operand forms select

The extension prefix and the form of an operand are written by two routines that decide by
themselves what to write. What a processor reads from their bytes is what the parameters
select, with one exception: the second byte has no way to name the stack pointer as an index,
its number there stands for no index at all.
-/

namespace EncoderTables

open Node

/-- Parameters have values of their default domains. -/
def Assignment.Legal (given : Assignment) : Prop :=
  ∀ parameter domain, Domain.default parameter = .ok domain →
    domain.Admits (given.value parameter)

namespace X64

/-- The function that expressions apply to registers gives each general purpose register its
position in the bank. -/
def NumbersRegisters (functions : Functions) : Prop :=
  ∀ (position : Nat) (register : Arch.Register),
    (Arch.bank "gp")[position]? = some (Arch.registerName register) →
      functions "evoasm_x64_reg_num" register.val = position

/-- The number of the register that a parameter selects. -/
def selected (functions : Functions) (given : Assignment) (parameter : String) : Nat :=
  (functions "evoasm_x64_reg_num" (given.value parameter)).toNat

/-- The index register that parameters select, with the exponent of its scale. -/
def indexed (functions : Functions) (given : Assignment) : Option (Nat × Nat) :=
  if given.specified "reg_index" then
    some (selected functions given "reg_index", (given.value "scale").toNat)
  else none

/-- The displacement that parameters select. -/
def shifted (given : Assignment) : Option Int :=
  if given.specified "disp" then some (given.value "disp") else none

/-- The general purpose registers, which have the lowest ids. -/
def generalRegisters : List Arch.Register := (List.finRange Arch.registerCount).take 16

/-- Register parameters select general purpose registers. -/
theorem default_register : ∀ parameter ∈ Arch.registerParameters,
    Domain.default parameter = .ok (.enumeration (generalRegisters.map Member.register)) := by
  decide

/-- A general purpose register stands at the place of its id. -/
theorem bank_generalRegisters : ∀ register ∈ generalRegisters,
    register.val < 16 ∧ (Arch.bank "gp")[register.val]? = some (Arch.registerName register) := by
  decide

variable {functions : Functions} {given : Assignment}

/-- A disjunction holds when one of its conditions does. -/
theorem holds?_disjunction {first : Node} {rest : List Node} {holds : Bool} {others : List Bool}
    (one : first.holds? functions given = some holds)
    (more : rest.mapM (holds? functions given) = some others) :
    (disjunction first rest).holds? functions given = some (holds || others.any id) := by
  induction rest generalizing first holds others with
  | nil =>
    obtain rfl : [] = others := by simpa using more
    simpa [disjunction] using one
  | cons second rest induction =>
    rw [List.mapM_cons] at more
    obtain ⟨next, two, last⟩ := Option.bind_eq_some_iff.mp more
    obtain ⟨later, remaining, equal⟩ := Option.bind_eq_some_iff.mp last
    obtain rfl : next :: later = others := by simpa using equal
    simpa [disjunction, Bool.or_assoc] using induction (holds?_or one two) remaining

/-- The number of a register parameter has four bits. -/
theorem selected_register (numbered : NumbersRegisters functions) (legal : given.Legal)
    {parameter : String} (known : parameter ∈ Arch.registerParameters) :
    functions "evoasm_x64_reg_num" (given.value parameter) = selected functions given parameter ∧
      selected functions given parameter < 16 := by
  obtain ⟨member, listed, equal⟩ := legal parameter _ (default_register parameter known)
  obtain ⟨register, general, rfl⟩ := List.mem_map.mp listed
  obtain ⟨low, placed⟩ := bank_generalRegisters register general
  have found := numbered register.val register placed
  have number : functions "evoasm_x64_reg_num" (given.value parameter) = register.val := by
    rw [← equal]
    exact found
  simp [selected, number, low]

/-- The value of a register number. -/
theorem value?_registerNumber {parameter : String} {number : Nat}
    (known : functions "evoasm_x64_reg_num" (given.value parameter) = number) :
    (registerNumber parameter).value? functions given = some (number : Int) := by
  have applied : Generator.isFunctionName "evoasm_x64_reg_num" = true := by decide
  simp [registerNumber, value?, unaryValue, applied, known]

/-- The value of the low bits of a register number. -/
theorem value?_lowBits {parameter : String} {number : Nat}
    (known : functions "evoasm_x64_reg_num" (given.value parameter) = number) :
    (lowBits parameter).value? functions given = some ((number % 8 : Nat) : Int) := by
  have operator : binaryValue "&" number 7 = some (Int.land number 7) := rfl
  have masked : Int.land number 7 = ((number &&& 7 : Nat) : Int) := rfl
  have modulo : number &&& 7 = number % 8 := Nat.and_two_pow_sub_one_eq_mod number 3
  simp [lowBits, X64.number, value?, value?_registerNumber known, decided, operator, masked,
    modulo, Scalar.whole?]

/-- The value of the high bit of a register number. -/
theorem value?_highBit {parameter : String} {number : Nat}
    (known : functions "evoasm_x64_reg_num" (given.value parameter) = number) :
    (highBit parameter).value? functions given = some ((number / 8 : Nat) : Int) := by
  have operator : binaryValue ">>" number 3 = some ((number : Int) / 8) := rfl
  simp [highBit, X64.number, value?, value?_registerNumber known, decided, operator,
    Scalar.whole?]

/-- The value of the index bit: the high bit of the index register, if there is one. -/
theorem value?_indexBit {number : Nat} (low : number < 16)
    (known : functions "evoasm_x64_reg_num" (given.value "reg_index") = number) :
    indexBit.value? functions given =
      some ((if given.specified "reg_index" then number / 8 else 0 : Nat) : Int) := by
  have operator (a b : Int) : binaryValue "&&" a b = some (truth (a ≠ 0 && b ≠ 0)) := rfl
  cases set : given.specified "reg_index" with
  | false => simp [indexBit, value?, set, truth, decided, operator]
  | true =>
    have bit : number / 8 = 0 ∨ number / 8 = 1 := by omega
    rcases bit with bit | bit <;>
      simp [indexBit, value?, set, truth, decided, operator, value?_highBit known, bit]

/-- One byte of fields that have values. -/
theorem perform_fields {values : List Node} {widths : List Int} {numbers : List Int}
    (total : totalWidth (widths.map Scalar.number) = 8)
    (known : values.mapM (value? functions given) = some numbers) :
    (fields values widths).perform functions given =
      .ok [UInt8.ofNat (concatenated numbers (widths.map Int.toNat) % 256).toNat] := by
  have plain : (widths.map Scalar.number).map (fun size => (fieldWidth size).toNat) =
      widths.map Int.toNat := by
    simp [fieldWidth, Scalar.whole?]
  rw [fields, perform_packed known, total, plain]
  rfl

/-- Bytes of three fields are written as they are read. -/
theorem perform_formByte {mode field memory : Node} {a b c : Nat}
    (one : mode.operand.value? functions given = some (a : Int))
    (two : field.operand.value? functions given = some (b : Int))
    (three : memory.operand.value? functions given = some (c : Int))
    (top : a < 4) (inner : b < 8) (bottom : c < 8) :
    (formByte mode field memory).perform functions given = .ok [fieldsByte a b c] := by
  have known : [mode.operand, field.operand, memory.operand].mapM (value? functions given) =
      some [(a : Int), (b : Int), (c : Int)] := by
    simp [one, two, three]
  have number : concatenated [(a : Int), (b : Int), (c : Int)] ([2, 3, 3].map Int.toNat) % 256 =
      ((a * 64 + b * 8 + c : Nat) : Int) := by
    change concatenated [(a : Int), (b : Int), (c : Int)] [2, 3, 3] % 256 = _
    simp only [concatenated, List.sum_cons, List.sum_nil]
    omega
  rw [formByte, perform_fields rfl known, number, Int.toNat_natCast, fieldsByte]

/-- The extension prefix is written as it is read. -/
theorem perform_extensionByte (wide : Node) {field index base : Node} {extension : Extension}
    (valid : extension.Valid)
    (one : wide.operand.value? functions given = some (extension.wide : Int))
    (two : field.value? functions given = some (extension.field : Int))
    (three : index.value? functions given = some (extension.index : Int))
    (four : base.value? functions given = some (extension.base : Int)) :
    (extensionByte wide field index base).perform functions given = .ok [extension.byte] := by
  obtain ⟨w, f, i, b⟩ := extension
  obtain ⟨first, second, third, fourth⟩ := valid
  have known : [number 4, wide.operand, field, index, base].mapM (value? functions given) =
      some [4, (w : Int), (f : Int), (i : Int), (b : Int)] := by
    simp [one, two, three, four, number, value?, Scalar.whole?]
  have number : concatenated [4, (w : Int), (f : Int), (i : Int), (b : Int)]
      ([4, 1, 1, 1, 1].map Int.toNat) % 256 = ((64 + w * 8 + f * 4 + i * 2 + b : Nat) : Int) := by
    change concatenated [4, (w : Int), (f : Int), (i : Int), (b : Int)] [4, 1, 1, 1, 1] % 256 = _
    simp only [concatenated, List.sum_cons, List.sum_nil] at first second third fourth ⊢
    omega
  rw [extensionByte, perform_fields rfl known, number, Int.toNat_natCast, Extension.byte]

namespace Field

/-- What the middle field of the form byte selects: a register parameter its register, an
extension of the opcode itself. -/
inductive Selects (functions : Functions) (given : Assignment) : Field → Nat → Prop
  | register {parameter : String} (known : parameter ∈ Arch.registerParameters) :
    Selects functions given (register parameter) (selected functions given parameter)
  | extension {value : Nat} (low : value < 8) :
    Selects functions given (fixed (bare (.number value))) value

variable {field : Field} {number : Nat}

/-- What a field selects has four bits. -/
theorem Selects.low (numbered : NumbersRegisters functions) (legal : given.Legal)
    (chosen : Selects functions given field number) : number < 16 := by
  cases chosen with
  | register known => exact (selected_register numbered legal known).2
  | extension low => omega

/-- The field itself holds the low bits. -/
theorem Selects.value (numbered : NumbersRegisters functions) (legal : given.Legal)
    (chosen : Selects functions given field number) :
    field.value.operand.value? functions given = some ((number % 8 : Nat) : Int) := by
  cases chosen with
  | register known => exact value?_lowBits (selected_register numbered legal known).1
  | extension low =>
    rw [Nat.mod_eq_of_lt low]
    rfl

/-- The prefix adds the high bit. -/
theorem Selects.prefixBit (numbered : NumbersRegisters functions) (legal : given.Legal)
    (chosen : Selects functions given field number) :
    field.prefixBit.value? functions given = some ((number / 8 : Nat) : Int) := by
  cases chosen with
  | register known => exact value?_highBit (selected_register numbered legal known).1
  | extension low =>
    rw [Nat.div_eq_of_lt low]
    rfl

/-- The prefix is needed for a field whose high bit is set. -/
theorem Selects.condition (numbered : NumbersRegisters functions) (legal : given.Legal)
    (chosen : Selects functions given field number) :
    ∃ bits, field.condition.mapM (holds? functions given) = some bits ∧
      bits.any id = decide (number / 8 ≠ 0) := by
  cases chosen with
  | @register parameter known =>
    have bit := holds?_natural (value?_highBit (selected_register numbered legal known).1)
    exact ⟨[decide (selected functions given parameter / 8 ≠ 0)], by
      simp only [Field.condition, List.mapM_cons, List.mapM_nil, bit]
      rfl, by simp⟩
  | extension low => exact ⟨[], by simp [Field.condition], by simp [Nat.div_eq_of_lt low]⟩

end Field

/-- In front of a form byte, some bytes are read as an extension prefix. -/
def LeadsIn (bytes : List UInt8) (extension : Extension) : Prop :=
  ∀ {mode field memory : Nat} (rest : List UInt8), mode = 0 ∨ mode = 2 ∨ mode = 3 →
    field < 8 → memory < 8 →
      readExtension (bytes ++ fieldsByte mode field memory :: rest) =
        (extension, fieldsByte mode field memory :: rest)

/-- Bytes that start with the form byte of a mode that encodings use. -/
def StartsForm (bytes : List UInt8) : Prop :=
  ∃ mode field memory tail, bytes = fieldsByte mode field memory :: tail ∧
    (mode = 0 ∨ mode = 2 ∨ mode = 3) ∧ field < 8 ∧ memory < 8

/-- What stands behind a form byte does not matter. -/
theorem StartsForm.append {bytes : List UInt8} (starts : StartsForm bytes)
    (others : List UInt8) : StartsForm (bytes ++ others) := by
  obtain ⟨mode, field, memory, tail, rfl, known⟩ := starts
  exact ⟨mode, field, memory, tail ++ others, rfl, known⟩

/-- Some bytes that start with a form byte are read as a selection. -/
structure FormReads (bytes : List UInt8) (extension : Extension) (selection : Selection) :
    Prop where
  starts : StartsForm bytes
  reads : ∀ rest, readForm extension (bytes ++ rest) = some (selection, rest)

/-- The prefix and the form together are decoded. -/
theorem LeadsIn.decode {first bytes : List UInt8} {extension : Extension}
    {selection : Selection} (leads : LeadsIn first extension)
    (form : FormReads bytes extension selection) (rest : List UInt8) :
    decode (first ++ bytes ++ rest) = some (selection, rest) := by
  obtain ⟨mode, field, memory, tail, rfl, known, inner, bottom⟩ := form.starts
  have front : readExtension (first ++ fieldsByte mode field memory :: tail ++ rest) =
      (extension, fieldsByte mode field memory :: tail ++ rest) := by
    rw [List.append_assoc]
    exact leads (tail ++ rest) known inner bottom
  rw [X64.decode, front]
  exact form.reads rest

/-- A prefix that is only written when it is needed is read as it is, or all its bits are zero
and there is none. -/
theorem perform_unlessNeedless {condition byte : Node} {needed : Bool} {extension : Extension}
    (valid : extension.Valid) (known : condition.holds? functions given = some needed)
    (done : byte.perform functions given = .ok [extension.byte]) :
    ∃ bytes read, (unlessNeedless (bare (.number extension.wide)) condition byte).perform
        functions given = .ok bytes ∧ LeadsIn bytes read ∧
      (read = extension ∨ (read = .none ∧ extension.wide = 0 ∧ needed = false)) := by
  have present : LeadsIn [extension.byte] extension := fun rest _ _ _ =>
    readExtension_byte valid _
  have missing : LeadsIn [] .none := fun rest mode inner bottom =>
    readExtension_fields mode inner bottom rest
  by_cases zero : extension.wide = 0
  · have narrow : isWide (bare (.number extension.wide)) = false := by simp [isWide, Scalar.isTrue, zero]
    cases needed with
    | true =>
      refine ⟨_, _, ?_, present, .inl rfl⟩
      simp [unlessNeedless, narrow, perform_branch _ _ known, performAll_single, done]
    | false =>
      refine ⟨_, _, ?_, missing, .inr ⟨rfl, zero, rfl⟩⟩
      simp [unlessNeedless, narrow, perform_branch _ _ known, performAll_nil]
  · have widened : isWide (bare (.number extension.wide)) = true := by
      simp [isWide, Scalar.isTrue, zero]
    refine ⟨_, _, ?_, present, .inl rfl⟩
    simp [unlessNeedless, widened, done]

/-- The default domain of a flag. -/
theorem default_flag : ∀ parameter ∈ Arch.flagParameters,
    Domain.default parameter = .ok (.enumeration [.number 0, .number 1]) := by
  decide

/-- A flag has the values zero and one. -/
theorem value?_flag (functions : Functions) (legal : given.Legal) {parameter : String}
    (known : parameter ∈ Arch.flagParameters) :
    ∃ bit < 2, (param parameter).value? functions given = some ((bit : Nat) : Int) := by
  obtain ⟨member, listed, equal⟩ := legal parameter _ (default_flag parameter known)
  simp only [value?, ← equal]
  rcases List.mem_cons.mp listed with rfl | listed
  · exact ⟨0, by decide, rfl⟩
  · obtain rfl := List.mem_singleton.mp listed
    exact ⟨1, by decide, rfl⟩

/-- The condition under which a prefix is written: it is forced or one of some bits is set. -/
theorem holds?_needed (legal : given.Legal) {field : Field} {number : Nat} {bits : List Node}
    {set : List Bool} (numbered : NumbersRegisters functions)
    (chosen : field.Selects functions given number)
    (known : bits.mapM (holds? functions given) = some set) :
    ∃ needed, (disjunction (param "force_rex") (field.condition ++ bits)).holds? functions given =
        some needed ∧ (needed = false → number / 8 = 0 ∧ set.any id = false) := by
  obtain ⟨bit, -, forced⟩ := value?_flag functions legal
    (by decide : "force_rex" ∈ Arch.flagParameters)
  obtain ⟨high, first, equal⟩ := chosen.condition numbered legal
  have all : (field.condition ++ bits).mapM (holds? functions given) = some (high ++ set) := by
    rw [List.mapM_append, first, known]
    rfl
  refine ⟨_, holds?_disjunction (holds?_natural forced) all, ?_⟩
  intro needless
  rw [List.any_append, equal] at needless
  simpa using And.right (by simpa using needless)

/-- The default domain of a displacement. -/
theorem held_displacement (legal : given.Legal) :
    Bits.Holds 32 true (given.value "disp") :=
  legal "disp" (.integers .bits32 true) (by decide)

/-- The default domain of a scale. -/
theorem value?_scale (legal : given.Legal) :
    ∃ scale < 4, given.value "scale" = (scale : Nat) := by
  obtain ⟨least, greatest⟩ := legal "scale" (.interval 0 3) (by decide)
  exact ⟨(given.value "scale").toNat, by omega, by omega⟩

/-- The bytes that select base and index of a memory operand, without its displacement. -/
def address (mode : Int) (field : Node) : Node :=
  branch (isSet "reg_index")
    [formByte (X64.number mode) field (X64.number 4),
      formByte (param "scale") (lowBits "reg_index") (lowBits "reg_base")]
    [branch (disjunction (binary "==" (lowBits "reg_base") (X64.number 4)) [param "force_sib"])
      [formByte (X64.number mode) field (X64.number 4),
        formByte (X64.number 0) (X64.number 4) (lowBits "reg_base")]
      [formByte (X64.number mode) field (lowBits "reg_base")]]

/-- The displacement of a memory operand stands behind its address. -/
theorem memoryForms_eq (mode : Int) (field : Node) (displacement : List Node) :
    memoryForms mode field false displacement = address mode field :: displacement := rfl

/-- The low bits of a register number compared with a number. -/
theorem holds?_equal {parameter : String} {base : Nat}
    (known : functions "evoasm_x64_reg_num" (given.value parameter) = base) (other : Nat) :
    (binary "==" (lowBits parameter) (X64.number other)).holds? functions given =
      some (decide (base % 8 = other)) := by
  have operator (a b : Int) : binaryValue "==" a b = some (truth (a = b)) := rfl
  have equal : (base : Int) % 8 = other ↔ base % 8 = other := by omega
  by_cases same : base % 8 = other <;>
    simp [holds?, value?, value?_lowBits known, X64.number, Scalar.whole?, decided, operator,
      truth, equal, same]

/-- The condition under which a base needs a second byte. -/
theorem holds?_marked (legal : given.Legal) {base : Nat}
    (known : functions "evoasm_x64_reg_num" (given.value "reg_base") = base) :
    ∃ needed, (disjunction (binary "==" (lowBits "reg_base") (X64.number 4))
        [param "force_sib"]).holds? functions given = some needed ∧
      (needed = false → base % 8 ≠ 4) := by
  obtain ⟨bit, -, forced⟩ := value?_flag functions legal
    (by decide : "force_sib" ∈ Arch.flagParameters)
  have others : [param "force_sib"].mapM (holds? functions given) = some [decide (bit ≠ 0)] := by
    simp only [List.mapM_cons, List.mapM_nil, holds?_natural forced]
    rfl
  refine ⟨_, holds?_disjunction (holds?_equal known 4) others, ?_⟩
  intro needless same
  simp [same] at needless

/-- With a base register the form is that of a memory operand, without one it is that of a
register, if there is any. -/
theorem perform_formRoutine (field : Field) (target : Option String) :
    (call (formRoutine field target false)).perform functions given =
      if given.specified "reg_base" then performAll functions given (memoryForm field.value false)
      else match target with
        | none => .error (.aborted "memory operand needs a base register")
        | some parameter =>
          (formByte (X64.number 3) field.value (lowBits parameter)).perform functions given := by
  cases target with
  | none =>
    simp only [formRoutine, perform_routine, performAll_single, perform_isSet]
    rfl
  | some parameter =>
    simp only [formRoutine, perform_routine, performAll_single, perform_isSet]

/-- Without displacement the low bits five are no base. -/
theorem performAll_memoryForm (field : Node) {base : Nat}
    (known : functions "evoasm_x64_reg_num" (given.value "reg_base") = base) :
    performAll functions given (memoryForm field false) =
      if given.specified "disp" then
        performAll functions given [address 2 field, write (param "disp") 32]
      else if base % 8 = 5 then
        .error (.aborted "base register BP or R13 needs a displacement")
      else performAll functions given [address 0 field] := by
  rw [memoryForm, performAll_single, perform_isSet, memoryForms_eq, memoryForms_eq]
  congr 1
  have guard := perform_branch
    [abort "base register BP or R13 needs a displacement"] [] (holds?_equal known 5)
  by_cases five : base % 8 = 5
  · simp only [five, decide_true, if_true] at guard
    rw [if_pos five]
    exact performAll_stopped _ guard
  · simp only [five, decide_false, Bool.false_eq_true, if_false] at guard
    rw [if_neg five]
    exact performAll_silent _ guard

section

variable (numbered : NumbersRegisters functions) (legal : given.Legal) {wide : Nat} {field : Field}
  {number : Nat}

include numbered legal

/-- The extension prefix of a memory operand. -/
theorem perform_extensionRoutine_memory (bit : wide < 2)
    (chosen : field.Selects functions given number) (target : Option String)
    (based : given.specified "reg_base" = true) :
    ∃ bytes, (call (extensionRoutine (bare (.number wide)) field target)).perform functions given =
        .ok bytes ∧
      LeadsIn bytes ⟨wide, number / 8,
        if given.specified "reg_index" then selected functions given "reg_index" / 8 else 0,
        selected functions given "reg_base" / 8⟩ := by
  obtain ⟨base, low⟩ := selected_register numbered legal
    (by decide : "reg_base" ∈ Arch.registerParameters)
  obtain ⟨index, under⟩ := selected_register numbered legal
    (by decide : "reg_index" ∈ Arch.registerParameters)
  have lowest := chosen.low numbered legal
  have first := value?_indexBit under index
  have second := value?_highBit base
  have bits : [indexBit, highBit "reg_base"].mapM (holds? functions given) =
      some [decide ((if given.specified "reg_index" then
        selected functions given "reg_index" / 8 else 0) ≠ 0),
        decide (selected functions given "reg_base" / 8 ≠ 0)] := by
    simp only [List.mapM_cons, List.mapM_nil, holds?_natural first, holds?_natural second]
    rfl
  obtain ⟨needed, known, needless⟩ := holds?_needed legal numbered chosen bits
  have valid : Extension.Valid ⟨wide, number / 8,
      if given.specified "reg_index" then selected functions given "reg_index" / 8 else 0,
      selected functions given "reg_base" / 8⟩ :=
    ⟨bit, by simp only; omega, by simp only; split <;> omega, by simp only; omega⟩
  obtain ⟨bytes, read, done, leads, same⟩ := perform_unlessNeedless valid known
    (perform_extensionByte (bare (.number wide)) valid rfl
      (chosen.prefixBit numbered legal) first second)
  refine ⟨bytes, ?_, ?_⟩
  · rw [extensionRoutine, perform_routine, performAll_single, perform_isSet, if_pos based,
      performAll_single, done]
  · rcases same with rfl | ⟨rfl, narrow, idle⟩
    · exact leads
    · obtain ⟨none, others⟩ := needless idle
      simp only [List.any_cons, List.any_nil, id, Bool.or_eq_false_iff, decide_eq_false_iff_not,
        not_not] at others
      simp only at narrow
      rw [narrow, none, others.1, others.2.1]
      exact leads

/-- The extension prefix of an operand in a register. -/
theorem perform_extensionRoutine_register (bit : wide < 2)
    (chosen : field.Selects functions given number) {parameter : String}
    (selectable : parameter ∈ Arch.registerParameters)
    (direct : given.specified "reg_base" = false) :
    ∃ bytes index, (call (extensionRoutine (bare (.number wide)) field (some parameter))).perform
        functions given = .ok bytes ∧
      LeadsIn bytes ⟨wide, number / 8, index, selected functions given parameter / 8⟩ := by
  obtain ⟨register, low⟩ := selected_register numbered legal selectable
  obtain ⟨index, small, free⟩ := value?_flag functions legal
    (by decide : "rex_x" ∈ Arch.flagParameters)
  have lowest := chosen.low numbered legal
  have second := value?_highBit register
  have bits : [highBit parameter].mapM (holds? functions given) =
      some [decide (selected functions given parameter / 8 ≠ 0)] := by
    simp only [List.mapM_cons, List.mapM_nil, holds?_natural second]
    rfl
  obtain ⟨needed, known, needless⟩ := holds?_needed legal numbered chosen bits
  have valid : Extension.Valid
      ⟨wide, number / 8, index, selected functions given parameter / 8⟩ :=
    ⟨bit, by simp only; omega, small, by simp only; omega⟩
  obtain ⟨bytes, read, done, leads, same⟩ := perform_unlessNeedless valid known
    (perform_extensionByte (bare (.number wide)) valid rfl
      (chosen.prefixBit numbered legal) free second)
  refine ⟨bytes, read.index, ?_, ?_⟩
  · rw [extensionRoutine, perform_routine, performAll_single, perform_isSet, direct]
    simpa [performAll_single] using done
  · rcases same with rfl | ⟨rfl, narrow, idle⟩
    · exact leads
    · obtain ⟨none, others⟩ := needless idle
      simp only [List.any_cons, List.any_nil, id, Bool.or_eq_false_iff, decide_eq_false_iff_not,
        not_not] at others
      simp only at narrow
      rw [narrow, none, others.1]
      exact leads

/-- A base and an index are selected by two bytes. -/
theorem perform_address_indexed (chosen : field.Selects functions given number) {mode : Nat}
    (top : mode < 4) (set : given.specified "reg_index" = true) :
    ∃ scale < 4, given.value "scale" = (scale : Nat) ∧
      (address mode field.value).perform functions given = .ok [fieldsByte mode (number % 8) 4,
        fieldsByte scale (selected functions given "reg_index" % 8)
          (selected functions given "reg_base" % 8)] := by
  obtain ⟨base, -⟩ := selected_register numbered legal
    (by decide : "reg_base" ∈ Arch.registerParameters)
  obtain ⟨index, -⟩ := selected_register numbered legal
    (by decide : "reg_index" ∈ Arch.registerParameters)
  obtain ⟨scale, small, scaled⟩ := value?_scale legal
  have first : (formByte (X64.number mode) field.value (X64.number 4)).perform functions given =
      .ok [fieldsByte mode (number % 8) 4] :=
    perform_formByte rfl (chosen.value numbered legal) rfl top (by omega) (by decide)
  have second : (formByte (param "scale") (lowBits "reg_index") (lowBits "reg_base")).perform
      functions given = .ok [fieldsByte scale (selected functions given "reg_index" % 8)
        (selected functions given "reg_base" % 8)] :=
    perform_formByte (by simp [Node.operand, value?, scaled]) (value?_lowBits index)
      (value?_lowBits base) small (by omega) (by omega)
  refine ⟨scale, small, scaled, ?_⟩
  rw [address, perform_isSet, if_pos set]
  exact performAll_cons first ((performAll_single _).trans second)

/-- A base alone is selected by two bytes, or by one if its low bits do not ask for two. -/
theorem perform_address_alone (chosen : field.Selects functions given number) {mode : Nat}
    (top : mode < 4) (unset : given.specified "reg_index" = false) :
    (address mode field.value).perform functions given = .ok [fieldsByte mode (number % 8) 4,
        fieldsByte 0 4 (selected functions given "reg_base" % 8)] ∨
      selected functions given "reg_base" % 8 ≠ 4 ∧
        (address mode field.value).perform functions given =
          .ok [fieldsByte mode (number % 8) (selected functions given "reg_base" % 8)] := by
  obtain ⟨base, -⟩ := selected_register numbered legal
    (by decide : "reg_base" ∈ Arch.registerParameters)
  have middle := chosen.value numbered legal
  obtain ⟨needed, condition, direct⟩ := holds?_marked legal base
  rw [address, perform_isSet, unset, if_neg Bool.false_ne_true, performAll_single,
    perform_branch _ _ condition]
  cases needed with
  | true =>
    have first : (formByte (X64.number mode) field.value (X64.number 4)).perform functions given =
        .ok [fieldsByte mode (number % 8) 4] :=
      perform_formByte rfl middle rfl top (by omega) (by decide)
    have second : (formByte (X64.number 0) (X64.number 4) (lowBits "reg_base")).perform
        functions given = .ok [fieldsByte 0 4 (selected functions given "reg_base" % 8)] :=
      perform_formByte rfl rfl (value?_lowBits base) (by decide) (by decide) (by omega)
    rw [if_pos rfl]
    exact .inl (performAll_cons first ((performAll_single _).trans second))
  | false =>
    rw [if_neg Bool.false_ne_true, performAll_single]
    exact .inr ⟨direct rfl,
      perform_formByte rfl middle (value?_lowBits base) top (by omega) (by omega)⟩

/-- The bytes that select base and index of a memory operand. The index four in the second byte
is no index. -/
theorem perform_address (wide : Nat) (chosen : field.Selects functions given number) {mode : Nat}
    (known : mode = 0 ∨ mode = 2) (based : ¬(selected functions given "reg_base" % 8 = 5 ∧ mode = 0)) :
    ∃ bytes, (address mode field.value).perform functions given = .ok bytes ∧ StartsForm bytes ∧
      ∀ rest, readForm ⟨wide, number / 8,
          if given.specified "reg_index" then selected functions given "reg_index" / 8 else 0,
          selected functions given "reg_base" / 8⟩ (bytes ++ rest) =
        (readDisplacement mode rest).map fun (displacement, rest) =>
          (⟨wide, number, .memory (some (selected functions given "reg_base"))
            ((indexed functions given).filter fun index => index.1 ≠ 4) displacement⟩, rest) := by
  have wider : mode = 0 ∨ mode = 2 ∨ mode = 3 := by omega
  have top : mode < 3 := by omega
  have inner : number % 8 < 8 := by omega
  have bottom : selected functions given "reg_base" % 8 < 8 := by omega
  have rejoined : number % 8 + number / 8 * 8 = number := by omega
  have whole : selected functions given "reg_base" % 8 +
      selected functions given "reg_base" / 8 * 8 = selected functions given "reg_base" := by omega
  cases set : given.specified "reg_index" with
  | true =>
    obtain ⟨scale, small, scaled, done⟩ :=
      perform_address_indexed numbered legal chosen (Nat.lt_succ_of_lt top) set
    have joined : selected functions given "reg_index" % 8 +
        selected functions given "reg_index" / 8 * 8 = selected functions given "reg_index" := by
      omega
    have exponent : (given.value "scale").toNat = scale := by omega
    refine ⟨_, done, ⟨mode, number % 8, 4, _, rfl, wider, inner, by decide⟩, fun rest => ?_⟩
    refine (readForm_indexed _ top inner small (by omega) bottom based rest).trans ?_
    simp only [if_true, joined, whole, rejoined, indexed, set, exponent]
    by_cases hidden : selected functions given "reg_index" = 4 <;> simp [hidden, Option.filter]
  | false =>
    rcases perform_address_alone numbered legal chosen (Nat.lt_succ_of_lt top) set with
      done | ⟨direct, done⟩
    · refine ⟨_, done, ⟨mode, number % 8, 4, _, rfl, wider, inner, by decide⟩, fun rest => ?_⟩
      refine (readForm_indexed _ top inner (by decide) (by decide) bottom based rest).trans ?_
      simp [whole, rejoined, indexed, set]
    · refine ⟨_, done, ⟨mode, number % 8, _, _, rfl, wider, inner, bottom⟩, fun rest => ?_⟩
      refine (readForm_direct _ top inner bottom direct based rest).trans ?_
      simp [whole, rejoined, indexed, set]

/-- The form of a memory operand is read as far as its second byte can say it. -/
theorem memoryForm_reads (wide : Nat) (chosen : field.Selects functions given number)
    (based : ¬(given.specified "disp" = false ∧ selected functions given "reg_base" % 8 = 5)) :
    ∃ bytes, performAll functions given (memoryForm field.value false) = .ok bytes ∧
      FormReads bytes ⟨wide, number / 8,
          if given.specified "reg_index" then selected functions given "reg_index" / 8 else 0,
          selected functions given "reg_base" / 8⟩
        ⟨wide, number, .memory (some (selected functions given "reg_base"))
          ((indexed functions given).filter fun index => index.1 ≠ 4) (shifted given)⟩ := by
  obtain ⟨base, -⟩ := selected_register numbered legal
    (by decide : "reg_base" ∈ Arch.registerParameters)
  rw [performAll_memoryForm _ base]
  cases set : given.specified "disp" with
  | true =>
    obtain ⟨bytes, done, starts, reads⟩ :=
      perform_address numbered legal wide chosen (.inr rfl : 2 = 0 ∨ 2 = 2) (by omega)
    have shift : (write (param "disp") 32).perform functions given =
        .ok (written 32 (given.value "disp")) := rfl
    refine ⟨_, performAll_cons done ((performAll_single _).trans shift), starts.append _, ?_⟩
    intro rest
    rw [List.append_assoc, reads, readDisplacement, if_neg (by decide), if_neg (by decide),
      readSigned_written (held_displacement legal)]
    simp [shifted, set]
  | false =>
    have other : ¬selected functions given "reg_base" % 8 = 5 := fun five => based ⟨set, five⟩
    obtain ⟨bytes, done, starts, reads⟩ :=
      perform_address numbered legal wide chosen (.inl rfl : 0 = 0 ∨ 0 = 2)
        (fun both => other both.1)
    rw [if_neg Bool.false_ne_true, if_neg other, performAll_single]
    refine ⟨bytes, done, starts, ?_⟩
    intro rest
    rw [reads, readDisplacement, if_pos rfl]
    simp [shifted, set]

/-- The form of a register operand is read back. -/
theorem register_reads (chosen : field.Selects functions given number) {parameter : String}
    (selectable : parameter ∈ Arch.registerParameters) (index : Nat) :
    ∃ bytes, (formByte (X64.number 3) field.value (lowBits parameter)).perform functions given =
        .ok bytes ∧
      FormReads bytes ⟨wide, number / 8, index, selected functions given parameter / 8⟩
        ⟨wide, number, .register (selected functions given parameter)⟩ := by
  obtain ⟨register, low⟩ := selected_register numbered legal selectable
  have rejoined : number % 8 + number / 8 * 8 = number := by omega
  have whole : selected functions given parameter % 8 + selected functions given parameter / 8 * 8 =
      selected functions given parameter := by omega
  have bottom : selected functions given parameter % 8 < 8 := by omega
  refine ⟨_, perform_formByte rfl (chosen.value numbered legal) (value?_lowBits register)
    (by decide : 3 < 4) (by omega) bottom, ⟨3, _, _, _, rfl, by decide, by omega, bottom⟩, ?_⟩
  intro rest
  refine (readForm_fields _ (by decide) (by omega) bottom rest).trans ?_
  simp [readPlace, rejoined, whole]

end

/-- The extension prefix and the form of an operand, as they stand around an opcode. -/
def operandForm (wide : Nat) (field : Field) (target : Option String) : List Node :=
  [call (extensionRoutine (bare (.number wide)) field target), call (formRoutine field target false)]

/-- The place of the operand that parameters ask for: memory when there is a base register, else
the register of the target, if there is a target. -/
def asked? (functions : Functions) (given : Assignment) (target : Option String) : Option Place :=
  if given.specified "reg_base" then
    some (.memory (some (selected functions given "reg_base")) (indexed functions given)
      (shifted given))
  else target.map fun parameter => .register (selected functions given parameter)

/-- A base whose low bits are those of BP is no base without displacement. -/
def NeedsDisplacement (functions : Functions) (given : Assignment) : Prop :=
  given.specified "reg_base" = true ∧ given.specified "disp" = false ∧
    selected functions given "reg_base" % 8 = 5

/-- The number of the stack pointer, which no second byte can name as an index. -/
def stackPointer : Nat := 4

/-- A place as far as bytes can name it. -/
def Place.nameable : Place → Place
  | memory base index displacement =>
    memory base (index.filter fun index => index.1 ≠ stackPointer) displacement
  | place => place

section

variable (numbered : NumbersRegisters functions) (legal : given.Legal) {wide : Nat} {field : Field}
  {number : Nat} {target : Option String}

include numbered legal

/-- Operands that can be encoded are read as far as their bytes can name them. -/
theorem operandForm_reads (bit : wide < 2) (chosen : field.Selects functions given number)
    (selectable : ∀ parameter ∈ target, parameter ∈ Arch.registerParameters) {place : Place}
    (asked : asked? functions given target = some place)
    (based : ¬NeedsDisplacement functions given) :
    ∃ bytes, performAll functions given (operandForm wide field target) = .ok bytes ∧
      ∀ rest, decode (bytes ++ rest) = some (⟨wide, number, place.nameable⟩, rest) := by
  cases set : given.specified "reg_base" with
  | true =>
    rw [asked?, if_pos set, Option.some.injEq] at asked
    obtain ⟨first, extended, leads⟩ :=
      perform_extensionRoutine_memory numbered legal bit chosen target set
    obtain ⟨form, done, reads⟩ := memoryForm_reads numbered legal wide chosen
      (fun lacking => based ⟨set, lacking⟩)
    have formed := (perform_formRoutine field target).trans ((if_pos set).trans done)
    refine ⟨first ++ form, performAll_cons extended ((performAll_single _).trans formed), ?_⟩
    rw [← asked]
    exact leads.decode reads
  | false =>
    rw [asked?, set, if_neg Bool.false_ne_true] at asked
    obtain ⟨parameter, rfl, rfl⟩ := Option.map_eq_some_iff.mp asked
    have known := selectable parameter rfl
    obtain ⟨first, index, extended, leads⟩ :=
      perform_extensionRoutine_register numbered legal bit chosen known set
    obtain ⟨form, done, reads⟩ := register_reads numbered legal chosen known index
    have formed := (perform_formRoutine field (some parameter)).trans
      ((if_neg (set ▸ Bool.false_ne_true)).trans done)
    exact ⟨first ++ form, performAll_cons extended ((performAll_single _).trans formed),
      leads.decode reads⟩

/-- Operands that cannot be encoded abort. -/
theorem operandForm_aborts (bit : wide < 2) (chosen : field.Selects functions given number)
    (impossible : asked? functions given target = none ∨ NeedsDisplacement functions given) :
    ∃ message, performAll functions given (operandForm wide field target) =
      .error (.aborted message) := by
  cases set : given.specified "reg_base" with
  | true =>
    obtain missing | ⟨-, unshifted, five⟩ := impossible
    · simp [asked?, set] at missing
    · obtain ⟨first, extended, -⟩ :=
        perform_extensionRoutine_memory numbered legal bit chosen target set
      obtain ⟨base, -⟩ := selected_register numbered legal
        (by decide : "reg_base" ∈ Arch.registerParameters)
      have stopped : (call (formRoutine field target false)).perform functions given =
          .error (.aborted "base register BP or R13 needs a displacement") := by
        rw [perform_formRoutine, if_pos set, performAll_memoryForm _ base, unshifted,
          if_neg Bool.false_ne_true, if_pos five]
      exact ⟨_, performAll_stopped_second extended stopped⟩
  | false =>
    obtain missing | ⟨based, -⟩ := impossible
    · rw [asked?, set, if_neg Bool.false_ne_true, Option.map_eq_none_iff] at missing
      subst missing
      have silent : (call (extensionRoutine (bare (.number wide)) field none)).perform
          functions given = .ok [] := by
        rw [extensionRoutine, perform_routine, performAll_single, perform_isSet, set,
          if_neg Bool.false_ne_true]
        rfl
      have stopped : (call (formRoutine field none false)).perform functions given =
          .error (.aborted "memory operand needs a base register") := by
        rw [perform_formRoutine, set, if_neg Bool.false_ne_true]
      exact ⟨_, performAll_stopped_second silent stopped⟩
    · exact absurd (set.symm.trans based) Bool.false_ne_true

end

/-- A place is named as it is, unless it is in memory with the stack pointer as an index. -/
theorem nameable_asked_iff {target : Option String} {place : Place}
    (asked : asked? functions given target = some place) :
    place.nameable = place ↔
      ¬(given.specified "reg_base" = true ∧ given.specified "reg_index" = true ∧
        selected functions given "reg_index" = stackPointer) := by
  cases set : given.specified "reg_base" with
  | true =>
    rw [asked?, if_pos set, Option.some.injEq] at asked
    rw [← asked]
    cases scaled : given.specified "reg_index" with
    | true =>
      by_cases hidden : selected functions given "reg_index" = stackPointer <;>
        simp [Place.nameable, indexed, scaled, hidden, Option.filter]
    | false => simp [Place.nameable, indexed, scaled]
  | false =>
    rw [asked?, set, if_neg Bool.false_ne_true] at asked
    obtain ⟨parameter, -, rfl⟩ := Option.map_eq_some_iff.mp asked
    simp [Place.nameable]

/-- Extension prefix and form of an operand abort when there is no operand, or one that needs a
displacement and has none. Otherwise a processor reads from their bytes the width, the field and
the place that parameters ask for, whatever stands behind them, exactly when the place has not
the stack pointer as an index. -/
theorem operandForm_read_iff (numbered : NumbersRegisters functions) (legal : given.Legal)
    {wide : Nat} (bit : wide < 2) {field : Field} {number : Nat}
    (chosen : field.Selects functions given number) {target : Option String}
    (selectable : ∀ parameter ∈ target, parameter ∈ Arch.registerParameters) :
    (asked? functions given target = none ∨ NeedsDisplacement functions given →
      ∃ message, performAll functions given (operandForm wide field target) =
        .error (.aborted message)) ∧
    ∀ place, asked? functions given target = some place → ¬NeedsDisplacement functions given →
      ∃ bytes, performAll functions given (operandForm wide field target) = .ok bytes ∧
        ((∀ rest, decode (bytes ++ rest) = some (⟨wide, number, place⟩, rest)) ↔
          ¬(given.specified "reg_base" = true ∧ given.specified "reg_index" = true ∧
            selected functions given "reg_index" = stackPointer)) := by
  refine ⟨operandForm_aborts numbered legal bit chosen, ?_⟩
  intro place asked based
  obtain ⟨bytes, done, reads⟩ :=
    operandForm_reads numbered legal bit chosen selectable asked based
  refine ⟨bytes, done, Iff.trans ?_ (nameable_asked_iff asked)⟩
  constructor
  · intro exact
    have same := (reads []).symm.trans (exact [])
    simpa using same
  · intro same rest
    rw [reads, same]

/-- Register ids themselves number the general purpose registers. -/
theorem numbersRegisters_id : NumbersRegisters fun _ id => id := by
  have places : ∀ position < 16, ∀ register : Arch.Register,
      (Arch.bank "gp")[position]? = some (Arch.registerName register) →
        register.val = position := by
    decide
  intro position register placed
  obtain ⟨low, -⟩ := List.getElem?_eq_some_iff.mp placed
  exact congrArg Nat.cast (places position low register placed)

/-- Only known parameters have a default domain. -/
theorem mem_parameters_of_default {parameter : String} {domain : Domain}
    (found : Domain.default parameter = .ok domain) : parameter ∈ Arch.parameters := by
  have flags : Arch.flagParameters ⊆ Arch.parameters := by decide
  have registers : Arch.registerParameters ⊆ Arch.parameters := by decide
  have fields : Domain.fieldParameters ⊆ Arch.parameters := by decide
  have numbers : ["imm0", "disp", "rel"] ⊆ Arch.parameters := by decide
  unfold Domain.default at found
  split at found
  next listed => exact flags (List.contains_iff_mem.mp listed)
  split at found
  next listed => exact registers (List.contains_iff_mem.mp listed)
  split at found
  next listed => exact fields (List.contains_iff_mem.mp listed)
  split at found
  next listed => exact numbers (List.contains_iff_mem.mp listed)
  split at found
  next named => exact named ▸ (by decide : "imm1" ∈ Arch.parameters)
  split at found
  next named => exact named ▸ (by decide : "moffs" ∈ Arch.parameters)
  exact absurd found nofun

/-- The memory at the register B with the stack pointer as an index. -/
def stackIndexed : Assignment where
  value parameter :=
    if parameter = "reg_base" then 3 else if parameter = "reg_index" then 4 else 0
  specified parameter := parameter = "reg_base" || parameter = "reg_index"

/-- All its values are in the default domains. -/
theorem stackIndexed_legal : stackIndexed.Legal := by
  have checked : ∀ parameter ∈ Arch.parameters,
      Results.passes (fun domain => decide (domain.Admits (stackIndexed.value parameter)))
        (Domain.default parameter) = true := by
    decide +kernel
  intro parameter domain found
  have holds := checked parameter (mem_parameters_of_default found)
  rw [found] at holds
  exact of_decide_eq_true holds

/-- The bytes for the stack pointer as an index are not read as what was asked for. -/
theorem operandForm_of_stackIndexed :
    ∃ bytes, Node.performAll (fun _ id => id) stackIndexed
        (operandForm 0 (.register "reg0") none) = .ok bytes ∧
      ¬∀ rest, decode (bytes ++ rest) =
        some (⟨0, 0, .memory (some 3) (some (4, 0)) none⟩, rest) := by
  have based : ¬NeedsDisplacement (fun _ id => id) stackIndexed := fun lacking => by
    simpa [selected, stackIndexed] using lacking.2.2
  obtain ⟨bytes, done, same⟩ := (operandForm_read_iff numbersRegisters_id stackIndexed_legal
    (by decide : 0 < 2) (Field.Selects.register (by decide : "reg0" ∈ Arch.registerParameters))
    (fun parameter (found : parameter ∈ none) => nomatch found)).2 _ rfl based
  exact ⟨bytes, done, fun reads => same.mp reads ⟨rfl, rfl, rfl⟩⟩

end X64

end EncoderTables
