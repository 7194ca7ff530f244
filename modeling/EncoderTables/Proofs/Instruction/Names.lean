import EncoderTables.Proofs.Naming
import EncoderTables.Proofs.Text.Identifiers

/-!
# Valid names in identifiers

A valid name is a row of characters of identifiers, perhaps with a line feed behind it. The
line feed is no part of an identifier, and the name can end one only without it.
-/

namespace EncoderTables

namespace Instruction

/-- The characters of names are characters of identifiers, in upper case as well. -/
theorem isIdentifierPart_of_isNamePart {c : Char} (part : isNamePart c = true) :
    Text.isIdentifierPart c = true ∧ Text.isIdentifierPart c.toUpper = true :=
  Text.of_ascii (P := fun c => isNamePart c = true →
      Text.isIdentifierPart c = true ∧ Text.isIdentifierPart c.toUpper = true)
    (by decide) (isPlain_of_isNamePart (Or.inl part)).1 part

/-- A valid name without the line feed that may stand behind it. -/
structure Core (name : String) (core : List Char) : Prop where
  parts : ∀ c ∈ core, isNamePart c = true
  nonempty : core ≠ []
  letters : name.toList = core ∨ name.toList = core ++ ['\n']

/-- A valid name has a core. -/
theorem exists_core {name : String} (valid : isValidName name = true) :
    ∃ core, Core name core := by
  unfold isValidName at valid
  split at valid
  · cases valid
  · next first rest letters =>
    simp only [Bool.and_eq_true, Bool.or_eq_true, decide_eq_true_eq, List.all_eq_true] at valid
    obtain ⟨start, parts | ⟨last, parts⟩⟩ := valid
    all_goals have head : isNamePart first = true := by simp [isNamePart, start]
    · exact ⟨first :: rest, List.forall_mem_cons.mpr ⟨head, parts⟩, List.cons_ne_nil _ _,
        Or.inl letters⟩
    · obtain ⟨former, rfl⟩ := List.getLast?_eq_some_iff.mp last
      rw [List.dropLast_concat] at parts
      exact ⟨first :: former, List.forall_mem_cons.mpr ⟨head, parts⟩, List.cons_ne_nil _ _,
        Or.inr letters⟩

/-- The core of a name in upper case consists of characters of identifiers. -/
theorem Core.isIdentifierPart_upper {name : String} {core : List Char} (own : Core name core) :
    ∀ c ∈ core.map Char.toUpper, Text.isIdentifierPart c = true := by
  intro c member
  obtain ⟨lower, inside, rfl⟩ := List.mem_map.mp member
  exact (isIdentifierPart_of_isNamePart (own.parts lower inside)).2

end Instruction

namespace Naming

/-- The letters of an instruction's constant. -/
theorem toList_instruction {name : String} (valid : Instruction.isValidName name = true) :
    (instruction name).toList = "EVOASM_X64_INST_".toList ++ name.toList.map Char.toUpper := by
  have split : instruction name = Text.upper ("evoasm_x64_inst_" ++ name) := rfl
  have leader : "evoasm_x64_inst_".toList.flatMap Text.upperChar = "EVOASM_X64_INST_".toList := by
    decide
  rw [split, Text.upper, String.toList_ofList, String.toList_append, List.flatMap_append, leader,
    Text.flatMap_upperChar (Instruction.isPlain_of_isValidName valid)]

/-- The word in an instruction's constant. -/
theorem words_instruction {name : String} (valid : Instruction.isValidName name = true)
    {core : List Char} (own : Instruction.Core name core) :
    Text.words (instruction name).toList =
      ["EVOASM_X64_INST_".toList ++ core.map Char.toUpper] := by
  have parts : ∀ c ∈ "EVOASM_X64_INST_".toList ++ core.map Char.toUpper,
      Text.isIdentifierPart c = true :=
    List.forall_mem_append.mpr ⟨List.all_eq_true.mp (by decide), own.isIdentifierPart_upper⟩
  have word := Text.words_of_parts parts (by simp)
  rw [toList_instruction valid]
  rcases own.letters with plain | ended
  · rw [plain, word]
  · have framed := @Text.words_framed [] ['\n'] (by simp)
      (List.forall_mem_singleton.mpr (by decide)) ("EVOASM_X64_INST_".toList ++ core.map Char.toUpper)
    rw [List.nil_append, word] at framed
    rw [ended, List.map_append, ← List.append_assoc]
    exact framed

end Naming

end EncoderTables
