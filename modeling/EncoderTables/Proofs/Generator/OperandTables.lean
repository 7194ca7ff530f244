import EncoderTables.Proofs.Generator.Runs
import EncoderTables.Proofs.Generator.TableForms
import EncoderTables.Proofs.Results
import Mathlib.Data.List.Basic

/-!
# Operand tables

An operand with a parameter refers to the position at which its instruction lists this
parameter, every other operand to the position behind all of them. The tables are refused
when an operand has a parameter that its instruction does not list, and for nothing else.
-/

namespace EncoderTables.Generator

open Results

/-- The parameter of an operand, if it has one, is one of the given parameters. -/
def IsListed (parameters : List String) (operand : Operand) : Prop :=
  ∀ parameter, operand.parameter = some parameter → parameter ∈ parameters

/-- The position of an operand's parameter, or the number of parameters without one. -/
def operandIndex (parameters : List String) (operand : Operand) : Nat :=
  match operand.parameter with
  | none => parameters.length
  | some parameter => parameters.idxOf parameter

/-- The rows of an instruction's operand table, by their fields. -/
def operandRows (entry : Instruction × Emitter) : List (List String) :=
  entry.1.operands.map fun operand =>
    operandFields operand (operandIndex entry.2.parameters operand)

/-- The operand table of an encoded instruction. -/
def operandElement (entry : Instruction × Emitter) : Code.Element :=
  tableOf "evoasm_x64_operand_t" ("operands_" ++ entry.1.name) (operandRows entry)

/-- The table that is produced for the operands of an encoded instruction. -/
theorem operandTable_eq (entry : Instruction × Emitter) :
    openTable (Naming.operandTable entry.1.name) (.named "evoasm_x64_operand_t")
      (tableValue (entry.1.operands.map fun operand =>
        rowText (operandFields operand (operandIndex entry.2.parameters operand)))) =
      operandElement entry := by
  rw [operandElement, ← openTable_rows, operandRows, List.map_map]
  rfl

/-- What the operand of an encoded instruction is refused with. -/
def unlistedParameter (entry : Instruction × Emitter) (operand : Operand) (parameter : String) :
    Failure :=
  ⟨.parameterNotFound parameter operand.entry.name entry.2.parameters, some entry.1.name⟩

/-- The position of a parameter is found when it is listed. -/
theorem parameterIndex_ok_iff (instruction : Instruction) (parameters : List String)
    (operand : Operand) (index : Nat) :
    parameterIndex instruction parameters operand = .ok index ↔
      IsListed parameters operand ∧ operandIndex parameters operand = index := by
  unfold parameterIndex operandIndex IsListed
  cases operand.parameter with
  | none => simp
  | some parameter =>
    simp only [Option.some.injEq, forall_eq']
    split
    · next position found =>
      obtain ⟨inside, here, first⟩ := List.idxOf?_eq_some_iff.mp found
      have member : parameter ∈ parameters := here ▸ List.getElem_mem inside
      have same : parameters.idxOf parameter = position := by
        rw [List.idxOf_eq_getD_idxOf?, found]
        rfl
      simp [member, same]
    · next found =>
      rw [List.idxOf?_eq_none_iff] at found
      simp [found]

/-- The position of a parameter is refused when it is not listed. -/
theorem parameterIndex_error {entry : Instruction × Emitter} {operand : Operand}
    {failure : Failure}
    (refused : parameterIndex entry.1 entry.2.parameters operand = .error failure) :
    ∃ parameter, operand.parameter = some parameter ∧ parameter ∉ entry.2.parameters ∧
      failure = unlistedParameter entry operand parameter := by
  unfold parameterIndex at refused
  split at refused
  · cases refused
  · next parameter own =>
    split at refused
    · cases refused
    · next absent =>
      cases refused
      exact ⟨parameter, own, List.idxOf?_eq_none_iff.mp absent, rfl⟩

/-- The row of an operand is there when its parameter is listed. -/
theorem operandRow_ok_iff (instruction : Instruction) (parameters : List String)
    (operand : Operand) (row : String) :
    operandRow instruction parameters operand = .ok row ↔
      IsListed parameters operand ∧
        rowText (operandFields operand (operandIndex parameters operand)) = row := by
  simp only [operandRow, bind_ok_iff, pure_ok_iff, parameterIndex_ok_iff]
  constructor
  · rintro ⟨_, ⟨listed, rfl⟩, same⟩
    exact ⟨listed, same⟩
  · rintro ⟨listed, same⟩
    exact ⟨_, ⟨listed, rfl⟩, same⟩

/-- An instruction with operands has a table of them when all their parameters are listed. -/
theorem operandTable_ok_iff (entry : Instruction × Emitter) (tables : List Code.Element) :
    operandTable entry.1 entry.2.parameters = .ok tables ↔
      (∀ operand ∈ entry.1.operands, IsListed entry.2.parameters operand) ∧
        (if entry.1.operands.isEmpty then [] else [operandElement entry]) = tables := by
  unfold operandTable
  split
  · next empty =>
    rw [List.isEmpty_iff] at empty
    simp [empty]
  · next some =>
    simp only [bind_ok_iff, pure_ok_iff, mapM_ok_iff (operandRow_ok_iff entry.1 _)]
    rw [← operandTable_eq]
    constructor
    · rintro ⟨_, ⟨listed, rfl⟩, rfl⟩
      exact ⟨listed, rfl⟩
    · rintro ⟨listed, rfl⟩
      exact ⟨_, ⟨listed, rfl⟩, rfl⟩

/-- The operand tables are there when all operands have listed parameters, one for each
instruction that has operands. -/
theorem operandTables_ok_iff (entries : List (Instruction × Emitter))
    (tables : List Code.Element) :
    operandTables entries = .ok tables ↔
      (∀ entry ∈ entries, ∀ operand ∈ entry.1.operands, IsListed entry.2.parameters operand) ∧
        (entries.filter fun entry => !entry.1.operands.isEmpty).map operandElement = tables := by
  induction entries generalizing tables with
  | nil => simp [operandTables]
  | cons entry rest inductionHypothesis =>
    have tail : ∀ others : List Code.Element,
        (if entry.1.operands.isEmpty then [] else [operandElement entry]) ++ others =
          if entry.1.operands.isEmpty then others else operandElement entry :: others := by
      intro others
      split <;> rfl
    have split : ((entry :: rest).filter fun entry => !entry.1.operands.isEmpty).map
          operandElement =
        (if entry.1.operands.isEmpty then [] else [operandElement entry]) ++
          (rest.filter fun entry => !entry.1.operands.isEmpty).map operandElement := by
      rw [tail, List.filter_cons]
      cases entry.1.operands.isEmpty <;> rfl
    simp only [operandTables, bind_ok_iff, pure_ok_iff, operandTable_ok_iff,
      inductionHypothesis, List.forall_mem_cons, split]
    constructor
    · rintro ⟨_, ⟨own, rfl⟩, _, ⟨others, rfl⟩, same⟩
      exact ⟨⟨own, others⟩, same⟩
    · rintro ⟨⟨own, others⟩, same⟩
      exact ⟨_, ⟨own, rfl⟩, _, ⟨others, rfl⟩, same⟩

/-- The operand table of an instruction is refused for one of its operands. -/
theorem operandTable_error {entry : Instruction × Emitter} {failure : Failure}
    (refused : operandTable entry.1 entry.2.parameters = .error failure) :
    ∃ operand ∈ entry.1.operands, ∃ parameter, operand.parameter = some parameter ∧
      parameter ∉ entry.2.parameters ∧ failure = unlistedParameter entry operand parameter := by
  unfold operandTable at refused
  split at refused
  · simp at refused
  · simp only [bind_error_iff, pure_not_error, and_false, exists_false, or_false] at refused
    obtain ⟨operand, member, own⟩ := mapM_error refused
    simp only [operandRow, bind_error_iff, pure_not_error, and_false, exists_false,
      or_false] at own
    exact ⟨operand, member, parameterIndex_error own⟩

/-- Operand tables are refused for an operand of one of the instructions. -/
theorem operandTables_error {entries : List (Instruction × Emitter)} {failure : Failure}
    (refused : operandTables entries = .error failure) :
    ∃ entry ∈ entries, ∃ operand ∈ entry.1.operands, ∃ parameter,
      operand.parameter = some parameter ∧ parameter ∉ entry.2.parameters ∧
        failure = unlistedParameter entry operand parameter := by
  induction entries with
  | nil => cases refused
  | cons entry rest inductionHypothesis =>
    simp only [operandTables, bind_error_iff, pure_not_error, and_false, exists_false,
      or_false] at refused
    rcases refused with own | ⟨_, -, others⟩
    · exact ⟨entry, List.mem_cons_self, operandTable_error own⟩
    · obtain ⟨other, member, found⟩ := inductionHypothesis others
      exact ⟨other, List.mem_cons_of_mem _ member, found⟩

end EncoderTables.Generator
