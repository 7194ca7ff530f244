import EncoderTables.Proofs.Generator.Blocks
import EncoderTables.Proofs.Generator.LaterPhases
import EncoderTables.Proofs.Generator.ParameterTables
import EncoderTables.Proofs.Parameters.Grouping
import EncoderTables.Proofs.Parameters.Fields

/-!
# Parameters that share storage

The parameter structure keeps in one place the fields that a union lists, since they are not
expected to be needed together. Nothing holds an encoding to that: the parameter table of an
instruction lists all that its encoding reads, so it lists two parameters that share storage
exactly when the encoding reads two parameters of a union.
-/

namespace EncoderTables.Generator

open Steps Parameters

/-- In a complete run the full parameter structure is declared as the budget of its settings
allows. -/
theorem generate_layout {set : InstructionSet} {settings : Settings} {final : Session}
    (ran : generate (.start set settings) = .ok () final) :
    ∃ layout further,
      Layout.make Arch.parameters false Arch.sharedFields settings.budget = .ok layout ∧
      final.elements.lookup .parameterStructures = some (layout.declaration :: further) := by
  obtain ⟨before, elements, _, produced, earlier, made, -, -, found, -⟩ :=
    @generate_made _ _ _ ran .parameterStructures tablePhases
      [.accessorStubs, .domains, .enumerations, .accessors] rfl
  have given : before.settings = settings :=
    (runAll_extends earlier).1.trans (start_frame set settings).2.2.2.1
  obtain ⟨_, basic, _, full, -, rfl⟩ := produce_parameterStructures_ok_iff.mp made
  obtain ⟨layout, arranged, rfl, -⟩ := parameterStructure_ok_iff.mp full
  rw [tell_frame] at arranged
  exact ⟨layout, [basic], given ▸ arranged, found⟩

/-- Parameters with a field are the parameters of the full structure. -/
theorem mem_parameters_of_known {parameter : String} (known : isKnown parameter = true) :
    parameter ∈ Arch.parameters := by
  have listed : ∀ field ∈ Arch.fieldWidths, field.1 ∈ Arch.parameters := by decide
  obtain ⟨width, member, -⟩ := fieldWidth_of_known known
  exact listed _ member

/-- The unions of the full structure have no field in common. -/
theorem sharedFields_apart : Arch.sharedFields.Pairwise List.Disjoint := by
  simp [Arch.sharedFields]

/-- Behind a complete run the table of an instruction lists two different parameters that
share storage in the parameter structure exactly when the encoding reads, in its body or
through shared functions, two different parameters of a union: of an immediate, an offset and
a distance, or of the second immediate and the displacement. -/
theorem storage_shared_iff {set : InstructionSet} {settings : Settings} {final : Session}
    (ran : generate (.start set settings) = .ok () final) {entry : Instruction × Emitter}
    (member : entry ∈ final.encoded) :
    ∃ layout further,
      Layout.make Arch.parameters false Arch.sharedFields settings.budget = .ok layout ∧
      final.elements.lookup .parameterStructures = some (layout.declaration :: further) ∧
      ∀ first second, first ≠ second →
        ((first ∈ (tableRows entry).map (·.1) ∧ second ∈ (tableRows entry).map (·.1) ∧
            layout.Shares first second) ↔
          first ∈ Node.readsAll entry.1.encoding ∧ second ∈ Node.readsAll entry.1.encoding ∧
            ∃ union ∈ Arch.sharedFields, first ∈ union ∧ second ∈ union) := by
  obtain ⟨layout, further, arranged, declared⟩ := generate_layout ran
  obtain ⟨-, named, -, -, -, known⟩ := (generate_encodes ran).1.entry member
  refine ⟨layout, further, arranged, declared, fun first second different => ?_⟩
  rw [(generate_tables ran).1 entry member, named, named]
  refine and_congr_right fun one => and_congr_right fun two => ?_
  have listed {name : String} (read : name ∈ Node.readsAll entry.1.encoding) :
      name ∈ Arch.parameters := mem_parameters_of_known (known name ((named name).mpr read))
  exact Layout.shares_iff arranged sharedFields_apart different (listed one) (listed two)

/-- An instruction with an immediate and a distance, both of which its body reads. -/
def immediateAndDistance : Except Failure InstructionSet := do
  let instruction ← Instruction.make "enter_imm8_rel32" "enter" "imm8:r; rel32:r"
    [.write (.param "imm0") 8, .write (.param "rel") 32] [] [] [] []
  InstructionSet.empty.addAll [instruction]

/-- The table of the instruction lists the immediate and the distance, which share storage. -/
theorem storage_of_immediateAndDistance : ∃ (set : InstructionSet) (final : Session)
    (layout : Layout) (further : List Code.Element),
    immediateAndDistance = .ok set ∧ generate (.start set .default) = .ok () final ∧
    final.elements.lookup .parameterStructures = some (layout.declaration :: further) ∧
    ∃ entry ∈ final.encoded, "imm0" ∈ (tableRows entry).map (·.1) ∧
      "rel" ∈ (tableRows entry).map (·.1) ∧ layout.Shares "imm0" "rel" := by
  have evaluated : Results.passes (fun set => tablesSucceed set && set.instructions.any
      fun instruction => Node.readsAll instruction.encoding == ["imm0", "rel"])
      immediateAndDistance = true := by
    decide +kernel
  obtain ⟨set, made, checked⟩ := Results.exists_ok evaluated
  rw [Bool.and_eq_true, List.any_eq_true] at checked
  obtain ⟨succeed, instruction, listed, reads⟩ := checked
  obtain ⟨final, ran⟩ := generate_succeeds succeed
  obtain ⟨entry, member, rfl⟩ :=
    List.mem_map.mp ((generate_encodes ran).1.map_fst_encoded ▸ listed)
  obtain ⟨layout, further, -, declared, shared⟩ := storage_shared_iff ran member
  refine ⟨set, final, layout, further, made, ran, declared, entry, member,
    (shared "imm0" "rel" (by decide)).mpr ?_⟩
  rw [eq_of_beq reads]
  decide

end EncoderTables.Generator
