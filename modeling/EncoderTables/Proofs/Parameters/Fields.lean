import EncoderTables.Proofs.Domain.Values

/-!
# Fields of parameters

The table of field widths is what is known about parameters, so a fact about all of them is
a check of this table.
-/

namespace EncoderTables.Parameters

/-- A known parameter has a field in the table. -/
theorem fieldWidth_of_known {parameter : String} (known : isKnown parameter = true) :
    ∃ width, (parameter, width) ∈ Arch.fieldWidths ∧
      fieldWidth parameter false = .ok width := by
  obtain ⟨width, found⟩ := Option.isSome_iff_exists.mp known
  obtain ⟨former, later, listed, -⟩ := List.lookup_eq_some_iff.mp found
  exact ⟨width, listed ▸ List.mem_append_right former List.mem_cons_self, by
    simp [fieldWidth, found]⟩

/-- A domain that is within the field of its parameter fits it. -/
theorem fits_of_within {parameter : String} {width : Nat} {domain : Domain}
    (field : fieldWidth parameter false = .ok width)
    (checked : domain.within width (holdsSigned parameter) = true) : Fits parameter domain :=
  fun _ admitted => ⟨width, field, Domain.holds_of_within checked admitted⟩

/-- Fields that hold registers. -/
def holdsRegisters (field : String × Nat) : Bool :=
  decide (Arch.registerIdWidth ≤ field.2) && !holdsSigned field.1

/-- A field whose name starts like that of a register and has no further part is the field
of a numbered register. -/
theorem numbered_registers : ∀ field ∈ Arch.fieldWidths,
    ['r', 'e', 'g'] <+: field.1.toList → '_' ∉ field.1.toList → holdsRegisters field = true := by
  decide

/-- There are fields for two immediates. -/
theorem numbered_immediates : ∀ field ∈ Arch.fieldWidths,
    ['i', 'm', 'm'] <+: field.1.toList → field = ("imm0", 64) ∨ field = ("imm1", 8) := by
  decide

/-- The default domain of each parameter fits its field. -/
theorem default_within : ∀ field ∈ Arch.fieldWidths,
    (match Domain.default field.1 with
      | .ok domain => domain.within field.2 (holdsSigned field.1)
      | .error _ => true) = true := by
  decide

end EncoderTables.Parameters
