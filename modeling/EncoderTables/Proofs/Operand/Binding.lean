import EncoderTables.Operand.Basic
import EncoderTables.Proofs.Results

/-!
# Operands and their parameters

The form of an operand decides what kind of parameter it is bound to: immediates and
registers are numbered, distances and offsets have a parameter of their own. No operand is
bound to a parameter of another kind.
-/

namespace EncoderTables.Operand

open Results

/-- The parameters that an operand of a kind can be bound to. -/
inductive Binding : Kind → String → Prop where
  | immediate (index : Nat) : Binding .imm ("imm" ++ toString index)
  | register (index : Nat) : Binding .reg ("reg" ++ toString index)
  | registerOrMemory (index : Nat) : Binding .rm ("reg" ++ toString index)
  | relative : Binding .imm "rel"
  | offset : Binding .mem "moffs"

/-- An operand whose parameter, if it has one, is of its kind. -/
def Bound (operand : Operand) : Prop :=
  ∀ parameter, operand.parameter = some parameter → Binding operand.shape.kind parameter

/-- A general purpose register does not change the kind of an operand. -/
theorem kind_withGeneral {shape found : Shape} {width : Nat} {name : String}
    (made : shape.withGeneral width name = .ok found) : found.kind = shape.kind := by
  unfold Shape.withGeneral at made
  split at made
  · cases made
    rfl
  · cases made

/-- The kind and the parameter of a form go together. -/
theorem binding_of_form {form : Form} {name parameter : String} {shape : Shape}
    {numbering : Numbering} (shaped : form.shape name = .ok shape)
    (bound : (form.parameter numbering).1 = some parameter) :
    Binding shape.kind parameter := by
  cases form with
  | immediate width =>
    cases shaped
    cases bound
    exact .immediate numbering.immediates
  | relative width =>
    cases shaped
    cases bound
    exact .relative
  | vectorOrMemory family memory =>
    cases shaped
    cases bound
    exact .registerOrMemory numbering.registers
  | generalOrMemory register memory =>
    cases bound
    rw [kind_withGeneral shaped]
    exact .registerOrMemory numbering.registers
  | vectorRegister family =>
    cases shaped
    cases bound
    exact .register numbering.registers
  | generalRegister width =>
    cases bound
    rw [kind_withGeneral shaped]
    exact .register numbering.registers
  | memory width => cases bound
  | offset width =>
    cases shaped
    cases bound
    exact .offset
  | vectorIndexed index memory => cases bound

/-- The operand of a segment is bound to a parameter of its kind. -/
theorem ofEntry_bound {numbering next : Numbering} {entry : Entry} {operand : Operand}
    (read : ofEntry numbering entry = .ok (operand, next)) : operand.Bound := by
  unfold ofEntry at read
  intro parameter bound
  split at read
  · simp only [bind_ok_iff, pure_ok_iff, Prod.mk.injEq] at read
    obtain ⟨_, _, rfl, -⟩ := read
    cases bound
  · split at read
    · cases read
    · simp only [bind_ok_iff, pure_ok_iff, Prod.mk.injEq] at read
      obtain ⟨shape, shaped, rfl, -⟩ := read
      exact binding_of_form shaped bound

/-- The first operand is that of the first segment, and what it leaves is counted on by the
others. -/
theorem ofEntries_cons_ok_iff {numbering : Numbering} {entry : Entry} {rest : List Entry}
    {operands : List Operand} :
    ofEntries numbering (entry :: rest) = .ok operands ↔
      ∃ operand next others, ofEntry numbering entry = .ok (operand, next) ∧
        ofEntries next rest = .ok others ∧ operands = operand :: others := by
  simp only [ofEntries, bind_ok_iff, pure_ok_iff]
  constructor
  · rintro ⟨⟨operand, next⟩, first, others, later, rfl⟩
    exact ⟨operand, next, others, first, later, rfl⟩
  · rintro ⟨operand, next, others, first, later, rfl⟩
    exact ⟨⟨operand, next⟩, first, others, later, rfl⟩

/-- What holds of the operand of every segment holds of all operands of segments. -/
theorem ofEntries_forall {holds : Operand → Prop}
    (each : ∀ {numbering : Numbering} {entry : Entry} {operand : Operand} {next : Numbering},
      ofEntry numbering entry = .ok (operand, next) → holds operand)
    {numbering : Numbering} {entries : List Entry} {operands : List Operand}
    (read : ofEntries numbering entries = .ok operands) : ∀ operand ∈ operands, holds operand := by
  induction entries generalizing numbering operands with
  | nil =>
    cases read
    exact List.forall_mem_nil _
  | cons entry rest inductionHypothesis =>
    obtain ⟨operand, next, others, first, later, rfl⟩ := ofEntries_cons_ok_iff.mp read
    exact List.forall_mem_cons.mpr ⟨each first, inductionHypothesis later⟩

/-- The operands of a specification are bound to parameters of their kinds. -/
theorem ofText_bound {specification : String} {instruction : Option String}
    {operands : List Operand} (read : ofText specification instruction = .ok operands) :
    ∀ operand ∈ operands, operand.Bound := by
  simp only [ofText, bind_ok_iff, mapError_ok_iff] at read
  obtain ⟨entries, -, found⟩ := read
  exact ofEntries_forall ofEntry_bound found

end EncoderTables.Operand
