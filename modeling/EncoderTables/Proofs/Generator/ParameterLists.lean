import EncoderTables.Proofs.Generator.LaterPhases
import EncoderTables.Proofs.Results

/-!
# Parameter lists

After a complete run the list of an instruction's parameters is known from its encoding
alone: it names what the encoding reads, in its body or through shared functions, each
name once, and what the body itself reads stands first. It does not matter which
instructions share a function, which of them asked for it first, or whether the function
had been emitted by then.
-/

namespace EncoderTables.Generator

/-- A complete run lists the instructions of its set in their order. The parameters of each
are those that its encoding reads anywhere, without repetition, and begin with those that
its body reads, in the order of their first use. -/
theorem parameters_of_encoding {set : InstructionSet} {settings : Settings} {final : Session}
    (ran : generate (.start set settings) = .ok () final) :
    final.encoded.map (·.1) = set.instructions ∧
      ∀ entry ∈ final.encoded, entry.2.parameters.Nodup ∧
        (∀ name, name ∈ entry.2.parameters ↔ name ∈ Node.readsAll entry.1.encoding) ∧
        (Node.bodyReadsAll entry.1.encoding).eraseDups <+: entry.2.parameters := by
  obtain ⟨encoded, -⟩ := generate_encodes ran
  refine ⟨encoded.map_fst_encoded, fun entry member => ?_⟩
  obtain ⟨unique, named, first, -⟩ := encoded.entry member
  have body : missingNames [] (Node.bodyReadsAll entry.1.encoding) =
      (Node.bodyReadsAll entry.1.encoding).eraseDups := by
    simp [missingNames_eq_eraseDups]
  exact ⟨unique, named, body ▸ first⟩

/-- A routine that reads an immediate. -/
def immediateRoutine : Node := .routine "immediate" [.write (.param "imm0") 8]

/-- An instruction that selects an order and calls a routine, and one that does nothing
but call the same routine. -/
def sharingSet : Except Failure InstructionSet := do
  let first ← Instruction.make "add_r64_imm8" "add" "r64:rw; imm8:r"
    [.write (.param "reg0") 8, .call immediateRoutine,
     .unordered [.write (.param "rex_b") 8, .write (.param "rex_x") 8]
       (.text Node.defaultOrder)] [] [] [] []
  let second ← Instruction.make "nop" "nop" "" [.call immediateRoutine] [] [] [] []
  InstructionSet.empty.addAll [first, second]

/-- Both instructions read the immediate, one of them behind the parameters of its body. -/
theorem parameters_of_sharing : ∃ set final, sharingSet = .ok set ∧
    generate (.start set .default) = .ok () final ∧
    final.encoded.map (·.1) = set.instructions ∧
      ∀ entry ∈ final.encoded, entry.2.parameters.Nodup ∧
        (∀ name, name ∈ entry.2.parameters ↔ name ∈ Node.readsAll entry.1.encoding) ∧
        (Node.bodyReadsAll entry.1.encoding).eraseDups <+: entry.2.parameters := by
  have evaluated : Results.passes tablesSucceed sharingSet = true := by
    decide +kernel
  obtain ⟨set, made, succeed⟩ := Results.exists_ok evaluated
  obtain ⟨final, ran⟩ := generate_succeeds succeed
  exact ⟨set, final, made, ran, parameters_of_encoding ran⟩

end EncoderTables.Generator
