import EncoderTables.Instruction.Set
import EncoderTables.Proofs.Operand.Binding

/-!
# Filling an instruction set

A set is filled by adding instructions that have been made one after the other. Each gets
the next position and has a name of its own, so the position of an instruction in the list
is also the one that the instruction knows.
-/

namespace EncoderTables

open Results

/-- An instruction of no set, as it is made. -/
def Instruction.Made (instruction : Instruction) : Prop :=
  ∃ name mnemonic specification encoding flags features exceptions overrides,
    Instruction.make name mnemonic specification encoding flags features exceptions overrides =
      .ok instruction

/-- What has been checked of an instruction that has been made: its name, its categories, and its
specification, from which its operands are read. -/
structure Instruction.Checked (instruction : Instruction) : Prop where
  name : isValidName instruction.name = true
  flags : checkMembers "instruction flag" instruction.name Arch.instructionFlags
    instruction.flags = .ok ()
  features : checkMembers "feature" instruction.name Arch.features instruction.features = .ok ()
  exceptions : checkMembers "exception" instruction.name Arch.exceptions
    instruction.exceptions = .ok ()
  operands : Operand.ofText instruction.specification (some instruction.name) =
    .ok instruction.operands
  position : instruction.position = none

/-- An instruction that has been made has been checked. -/
theorem Instruction.Made.checked {instruction : Instruction} (made : instruction.Made) :
    instruction.Checked := by
  obtain ⟨name, mnemonic, specification, encoding, flags, features, exceptions, overrides,
    found⟩ := made
  unfold make at found
  split at found
  · cases found
  · next valid =>
    simp only [bind_ok_iff, pure_ok_iff] at found
    obtain ⟨_, flagged, _, featured, _, excepted, operands, read, rfl⟩ := found
    exact ⟨by simpa using valid, flagged, featured, excepted, read, rfl⟩

namespace InstructionSet

/-- A set whose instructions know their positions, have different names and are made but
for their positions. -/
structure Registered (set : InstructionSet) : Prop where
  numbered : ∀ (position : Nat) (instruction : Instruction),
    set.instructions[position]? = some instruction → instruction.position = some position
  distinct : (set.instructions.map (·.name)).Nodup
  made : ∀ instruction ∈ set.instructions,
    ({ instruction with position := none } : Instruction).Made

/-- A set that has been filled with instructions that have been made. -/
def Filled (set : InstructionSet) : Prop :=
  ∃ instructions : List Instruction, (∀ instruction ∈ instructions, instruction.Made) ∧
    InstructionSet.empty.addAll instructions = .ok set

/-- A set without instructions. -/
theorem Registered.empty : InstructionSet.empty.Registered := by
  refine ⟨?_, ?_, ?_⟩ <;> simp [InstructionSet.empty]

/-- A further instruction gets the next position and has a new name. -/
theorem Registered.add {set after : InstructionSet} {instruction : Instruction}
    (registered : set.Registered) (made : instruction.Made)
    (added : set.add instruction = .ok after) : after.Registered := by
  unfold InstructionSet.add at added
  split at added
  · cases added
  · next new =>
    cases added
    have fresh : instruction.name ∉ set.instructions.map (·.name) := by
      intro member
      obtain ⟨other, listed, same⟩ := List.mem_map.mp member
      apply new
      rw [find?, List.find?_isSome]
      exact ⟨other, listed, by simp [same]⟩
    refine ⟨?_, ?_, ?_⟩
    · intro position other found
      rcases Nat.lt_or_ge position set.instructions.length with inside | outside
      · rw [List.getElem?_append_left inside] at found
        exact registered.numbered position other found
      · rw [List.getElem?_append_right outside] at found
        rw [List.getElem?_singleton] at found
        split at found
        · next here =>
          cases found
          exact congrArg some (by omega)
        · cases found
    · rw [List.map_append, List.map_singleton, List.nodup_append]
      exact ⟨registered.distinct, by simp, by
        intro name listed other single
        rw [List.mem_singleton.mp single]
        exact fun same => fresh (same ▸ listed)⟩
    · intro other member
      rcases List.mem_append.mp member with former | last
      · exact registered.made other former
      · rw [List.mem_singleton.mp last, ← made.checked.position]
        exact made

/-- Adding instructions one after the other keeps a set registered. -/
theorem Registered.addAll {set after : InstructionSet} {instructions : List Instruction}
    (registered : set.Registered) (made : ∀ instruction ∈ instructions, instruction.Made)
    (added : set.addAll instructions = .ok after) : after.Registered := by
  induction instructions generalizing set with
  | nil =>
    cases added
    exact registered
  | cons instruction rest inductionHypothesis =>
    simp only [InstructionSet.addAll, bind_ok_iff] at added
    obtain ⟨middle, first, later⟩ := added
    obtain ⟨own, others⟩ := List.forall_mem_cons.mp made
    exact inductionHypothesis (registered.add own first) others later

/-- A filled set is registered. -/
theorem Filled.registered {set : InstructionSet} (filled : set.Filled) : set.Registered := by
  obtain ⟨instructions, made, added⟩ := filled
  exact Registered.empty.addAll made added

/-- The instructions of a filled set have valid names and bound operands. -/
theorem Filled.sound {set : InstructionSet} (filled : set.Filled) {instruction : Instruction}
    (member : instruction ∈ set.instructions) :
    Instruction.isValidName instruction.name = true ∧
      ∀ operand ∈ instruction.operands, operand.Bound := by
  have checked := (filled.registered.made instruction member).checked
  exact ⟨checked.name, Operand.ofText_bound checked.operands⟩

end InstructionSet

end EncoderTables
