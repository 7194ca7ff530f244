import EncoderTables.Instruction.Basic
import Mathlib.Data.List.Basic

/-!
# Names of instructions and their constants

The name of an instruction becomes a constant in upper case. Names hold no upper-case
letters, so different names have different constants, and none has the one that counts all
instructions.
-/

namespace EncoderTables

namespace Text

/-- The ASCII characters that are no upper-case letters. -/
def IsPlain (c : Char) : Prop := c.toNat < 128 ∧ ¬ (65 ≤ c.toNat ∧ c.toNat ≤ 90)

instance : DecidablePred IsPlain := fun c =>
  inferInstanceAs (Decidable (c.toNat < 128 ∧ ¬ (65 ≤ c.toNat ∧ c.toNat ≤ 90)))

/-- The lower-case letters by their codes. -/
theorem isLower_iff (c : Char) :
    (c.val ≥ 'a'.val ∧ c.val ≤ 'z'.val) ↔ 97 ≤ c.toNat ∧ c.toNat ≤ 122 := by
  rw [ge_iff_le, UInt32.le_iff_toNat_le, UInt32.le_iff_toNat_le]
  rfl

/-- The code of an upper-case letter is thirty-two below that of its lower-case one. -/
theorem toNat_toUpper (c : Char) :
    c.toUpper.toNat = if 97 ≤ c.toNat ∧ c.toNat ≤ 122 then c.toNat - 32 else c.toNat := by
  unfold Char.toUpper
  simp only [isLower_iff]
  split
  · next lower =>
    have shift : ('A'.val - 'a'.val).toNat = 2 ^ 32 - 32 := by decide
    have code : c.val.toNat = c.toNat := rfl
    show (c.val + ('A'.val - 'a'.val)).toNat = c.toNat - 32
    rw [UInt32.toNat_add, shift, code]
    omega
  · rfl

/-- Plain characters with the same upper case are the same. -/
theorem eq_of_toUpper {first second : Char} (one : IsPlain first) (two : IsPlain second)
    (same : first.toUpper = second.toUpper) : first = second := by
  have codes := congrArg Char.toNat same
  rw [toNat_toUpper, toNat_toUpper] at codes
  obtain ⟨-, noUpper⟩ := one
  obtain ⟨-, noOther⟩ := two
  have equal : first.toNat = second.toNat := by
    split at codes <;> split at codes <;> omega
  exact Char.toNat_inj.mp equal

/-- Each plain character has a single upper case. -/
theorem flatMap_upperChar {letters : List Char} (plain : ∀ c ∈ letters, IsPlain c) :
    letters.flatMap upperChar = letters.map Char.toUpper := by
  induction letters with
  | nil => rfl
  | cons c rest inductionHypothesis =>
    obtain ⟨own, others⟩ := List.forall_mem_cons.mp plain
    have single : upperChar c = [c.toUpper] := if_pos own.1
    rw [List.flatMap_cons, List.map_cons, single, inductionHypothesis others]
    rfl

/-- Plain letters with the same upper case are the same. -/
theorem eq_of_map_toUpper {first second : List Char} (one : ∀ c ∈ first, IsPlain c)
    (two : ∀ c ∈ second, IsPlain c) (same : first.map Char.toUpper = second.map Char.toUpper) :
    first = second := by
  induction first generalizing second with
  | nil => exact (List.map_eq_nil_iff.mp same.symm).symm
  | cons c rest inductionHypothesis =>
    cases second with
    | nil => cases same
    | cons other others =>
      obtain ⟨own, later⟩ := List.forall_mem_cons.mp one
      obtain ⟨alike, behind⟩ := List.forall_mem_cons.mp two
      obtain ⟨head, tail⟩ := List.cons.inj same
      rw [eq_of_toUpper own alike head, inductionHypothesis later behind tail]

/-- Plain texts with the same upper case behind the same leader are the same. -/
theorem eq_of_upper {leader first second : String} (one : ∀ c ∈ first.toList, IsPlain c)
    (two : ∀ c ∈ second.toList, IsPlain c)
    (same : upper (leader ++ first) = upper (leader ++ second)) : first = second := by
  have letters := String.ofList_injective same
  rw [String.toList_append, String.toList_append, List.flatMap_append, List.flatMap_append,
    List.append_cancel_left_eq, flatMap_upperChar one, flatMap_upperChar two] at letters
  exact String.toList_inj.mp (eq_of_map_toUpper one two letters)

end Text

namespace Instruction

/-- The characters of a valid name are plain. -/
theorem isPlain_of_isNamePart {c : Char} (part : isNamePart c = true ∨ c = '\n') :
    Text.IsPlain c := by
  unfold Text.IsPlain
  rcases part with part | rfl
  · simp only [isNamePart, isNameStart, Bool.or_eq_true, Bool.and_eq_true, decide_eq_true_eq,
      Char.le_def, UInt32.le_iff_toNat_le] at part
    have code : c.val.toNat = c.toNat := rfl
    rw [code] at part
    rcases part with (⟨least, greatest⟩ | rfl) | ⟨least, greatest⟩
    · have bounds : 97 ≤ c.toNat ∧ c.toNat ≤ 122 := ⟨least, greatest⟩
      omega
    · decide
    · have bounds : 48 ≤ c.toNat ∧ c.toNat ≤ 57 := ⟨least, greatest⟩
      omega
  · decide

/-- A valid name is made of parts of names, with at most a line feed behind them. -/
theorem isNamePart_of_isValidName {name : String} (valid : isValidName name = true) :
    ∀ c ∈ name.toList, isNamePart c = true ∨ c = '\n' := by
  unfold isValidName at valid
  intro c member
  split at valid
  · next empty => simp [empty] at member
  · next first rest letters =>
    rw [letters] at member
    simp only [Bool.and_eq_true, Bool.or_eq_true, decide_eq_true_eq, List.all_eq_true] at valid
    obtain ⟨start, parts | ⟨last, parts⟩⟩ := valid
    · rcases List.mem_cons.mp member with rfl | later
      · exact Or.inl (by simp [isNamePart, start])
      · exact Or.inl (parts c later)
    · rcases List.mem_cons.mp member with rfl | later
      · exact Or.inl (by simp [isNamePart, start])
      · obtain ⟨former, rfl⟩ := List.getLast?_eq_some_iff.mp last
        rw [List.dropLast_concat] at parts
        rcases List.mem_append.mp later with inside | final
        · exact Or.inl (parts c inside)
        · exact Or.inr (List.mem_singleton.mp final)

/-- Valid names are plain texts. -/
theorem isPlain_of_isValidName {name : String} (valid : isValidName name = true) :
    ∀ c ∈ name.toList, Text.IsPlain c :=
  fun c member => isPlain_of_isNamePart (isNamePart_of_isValidName valid c member)

end Instruction

namespace Naming

/-- Instructions with different names have different constants. -/
theorem eq_of_instruction {first second : String} (one : Instruction.isValidName first = true)
    (two : Instruction.isValidName second = true)
    (same : instruction first = instruction second) : first = second :=
  @Text.eq_of_upper "evoasm_x64_inst_" first second (Instruction.isPlain_of_isValidName one)
    (Instruction.isPlain_of_isValidName two) same

/-- No instruction has the constant that counts all instructions. -/
theorem instruction_ne_count (name : String) : instruction name ≠ count "insts" := by
  intro same
  have letters := congrArg (fun text => text.toList.take 12) same
  have constant : (instruction name).toList.take 12 =
      ("evoasm_x64_i".toList.flatMap Text.upperChar).take 12 := by
    have split : instruction name = Text.upper ("evoasm_x64_inst_" ++ name) := rfl
    rw [split, Text.upper, String.toList_ofList, String.toList_append, List.flatMap_append,
      List.take_append_of_le_length (by decide)]
    decide
  simp only [constant] at letters
  exact absurd letters (by decide)

end Naming

end EncoderTables
