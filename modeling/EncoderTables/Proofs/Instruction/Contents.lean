import EncoderTables.Proofs.Instruction.Filling

/-!
# Contents of instructions

What has been checked while an instruction was made is found in its contents: its flags are
those of the architecture, and the registers of its operands are registers with an id.
-/

namespace EncoderTables

open Results

namespace Operand

/-- An operand that can only be one register, or none, names a register that has an id. -/
def Identified (operand : Operand) : Prop :=
  (operand.shape.kind = .reg ∨ operand.shape.kind = .rm) →
    ∀ register, operand.shape.register = some register → register ∈ Arch.registerNames

/-- The implicit registers that hold no status bits have ids. -/
theorem implicitRegisters_identified : ∀ entry ∈ Arch.implicitRegisters,
    (entry.2.type = .rflags ∨ entry.2.type = .mxcsr) ∨ entry.2.canonical ∈ Arch.registerNames := by
  decide

/-- An implicit operand is a register with an id, unless it is another kind of operand. -/
theorem implicitShape_identified {name : String} {shape : Shape}
    (shaped : implicitShape name = .ok shape) (kind : shape.kind = .reg ∨ shape.kind = .rm) :
    ∀ register, shape.register = some register → register ∈ Arch.registerNames := by
  unfold implicitShape at shaped
  split at shaped
  · cases shaped
    intro register found
    cases found
  · dsimp only at shaped
    split at shaped
    · cases shaped
    · next entry found =>
      cases shaped
      obtain ⟨former, latter, listed, -⟩ := List.lookup_eq_some_iff.mp found
      have member : (_, entry) ∈ Arch.implicitRegisters :=
        listed ▸ List.mem_append_right former List.mem_cons_self
      intro register same
      obtain rfl := Option.some.inj same
      refine (implicitRegisters_identified _ member).resolve_left fun status => ?_
      have marked : (decide (entry.type = .rflags) || decide (entry.type = .mxcsr)) = true := by
        simpa using status
      simp only [Shape.ofKind, marked, if_true] at kind
      split at kind <;> simp at kind

/-- Explicit operands name no register. -/
theorem register_of_form {form : Form} {name : String} {shape : Shape}
    (shaped : form.shape name = .ok shape) : shape.register = none := by
  have general {shape found : Shape} {width : Nat} (without : shape.register = none)
      (made : shape.withGeneral width name = .ok found) : found.register = none := by
    unfold Shape.withGeneral at made
    split at made
    · cases made
      exact without
    · cases made
  cases form with
  | generalOrMemory width memory => exact general rfl shaped
  | generalRegister width => exact general rfl shaped
  | _ =>
    cases shaped
    rfl

/-- The operand of a segment names a register that has an id, or none. -/
theorem ofEntry_identified {numbering next : Numbering} {entry : Entry} {operand : Operand}
    (read : ofEntry numbering entry = .ok (operand, next)) : operand.Identified := by
  unfold ofEntry at read
  split at read
  · simp only [bind_ok_iff, pure_ok_iff, Prod.mk.injEq] at read
    obtain ⟨shape, shaped, rfl, -⟩ := read
    exact implicitShape_identified shaped
  · split at read
    · cases read
    · simp only [bind_ok_iff, pure_ok_iff, Prod.mk.injEq] at read
      obtain ⟨shape, shaped, rfl, -⟩ := read
      intro _ register found
      have missing := (register_of_form shaped).symm.trans found
      cases missing

end Operand

namespace Instruction

/-- Values that have been checked belong to their category. -/
theorem mem_of_checkMembers {what name : String} {valid values : List String}
    (checked : checkMembers what name valid values = .ok ()) : ∀ value ∈ values, value ∈ valid := by
  induction values with
  | nil => simp
  | cons value rest inductionHypothesis =>
    unfold checkMembers at checked
    split at checked
    · next member =>
      exact List.forall_mem_cons.mpr
        ⟨List.contains_iff_mem.mp member, inductionHypothesis checked⟩
    · cases checked

/-- An instruction that has been made has flags of the architecture and operands that name
registers with ids. -/
theorem Made.contents {instruction : Instruction} (made : instruction.Made) :
    (∀ flag ∈ instruction.flags, flag ∈ Arch.instructionFlags) ∧
      ∀ operand ∈ instruction.operands, operand.Identified := by
  have read := made.checked.operands
  simp only [Operand.ofText, bind_ok_iff, mapError_ok_iff] at read
  obtain ⟨entries, -, shaped⟩ := read
  exact ⟨mem_of_checkMembers made.checked.flags,
    Operand.ofEntries_forall Operand.ofEntry_identified shaped⟩

end Instruction

/-- The instructions of a filled set have flags of the architecture and operands that name
registers with ids. -/
theorem InstructionSet.Filled.contents {set : InstructionSet} (filled : set.Filled)
    {instruction : Instruction} (member : instruction ∈ set.instructions) :
    (∀ flag ∈ instruction.flags, flag ∈ Arch.instructionFlags) ∧
      ∀ operand ∈ instruction.operands, operand.Identified :=
  (filled.registered.made instruction member).contents

end EncoderTables
