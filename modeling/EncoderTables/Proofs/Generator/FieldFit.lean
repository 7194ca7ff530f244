import EncoderTables.Proofs.Generator.OrderDomains
import EncoderTables.Proofs.Instruction.Domains
import EncoderTables.Proofs.Instruction.Filling

/-!
# Domains and the fields that hold their values

A setter keeps only the bits that the field of a parameter has. A domain that a body
imposes always fits the field, and so does a domain that comes from the operands or by
default, unless the operand of the second immediate is wider than eight bits. A domain that
an instruction gives a parameter in the place of these is taken as it is.
-/

namespace EncoderTables.Generator

open Parameters Results

/-- The widths of signed fields. -/
def signedWidths : List Nat := [8, 32, 64]

/-- Signed fields have one of these widths. -/
theorem signed_fields : ∀ field ∈ Arch.fieldWidths, holdsSigned field.1 = true →
    field.2 ∈ signedWidths := by
  decide

/-- No factorial lies between the number of values of a signed field and its half, so orders
that such a field can select leave its sign alone. -/
theorem factorial_le_half {items width : Nat} (signed : width ∈ signedWidths)
    (few : items.factorial ≤ 2 ^ width) : items.factorial ≤ 2 ^ (width - 1) := by
  have checked : ∀ width ∈ signedWidths, ∀ items < 21,
      items.factorial ≤ 2 ^ width → items.factorial ≤ 2 ^ (width - 1) := by
    decide
  have widest : ∀ width ∈ signedWidths, 2 ^ width < (21 : Nat).factorial := by
    decide
  rcases Nat.lt_or_ge items 21 with small | great
  · exact checked width signed items small few
  · have more := Nat.factorial_le great
    have bound := widest width signed
    omega

/-- The orders that a body imposes fit the field of the parameter that selects them. -/
theorem orders_fit {order : String} {items width : Nat}
    (field : fieldWidth order false = .ok width) (listed : (order, width) ∈ Arch.fieldWidths)
    (few : Permutation.count items - 1 < Bits.capacity width) :
    Fits order (Effect.orders items) := by
  rw [Permutation.count_eq_factorial, Bits.capacity, Nat.shiftLeft_eq, Nat.one_mul] at few
  have positive := Nat.factorial_pos items
  intro value admitted
  refine ⟨width, field, ?_⟩
  simp only [Effect.orders, Permutation.count_eq_factorial, Domain.Admits] at admitted
  cases signed : holdsSigned order with
  | false =>
    have bound : (items.factorial : Int) ≤ 2 ^ width := by
      exact_mod_cast (by omega : items.factorial ≤ 2 ^ width)
    simp only [Bits.Holds, Bool.false_eq_true, if_false]
    omega
  | true =>
    have half := factorial_le_half (signed_fields _ listed signed)
      (by omega : items.factorial ≤ 2 ^ width)
    have bound : (items.factorial : Int) ≤ 2 ^ (width - 1) := by exact_mod_cast half
    simp only [Bits.Holds, if_true]
    omega

/-- A group of unordered writes in a body imposes all its orders. -/
theorem imposes_of_group {nodes : List Node} {order : String} {items : Nat}
    (group : (order, items) ∈ Node.groupsAll nodes) :
    ∃ number, Effect.impose order number ∈ effectsAll nodes ∧
      Effect.orders number = Effect.orders items := by
  have listed : (order, Effect.orders items) ∈ (effectsAll nodes).filterMap Effect.imposed? := by
    rw [filterMap_imposed_effectsAll]
    exact List.mem_map.mpr ⟨(order, items), group, rfl⟩
  obtain ⟨effect, member, imposed⟩ := List.mem_filterMap.mp listed
  cases effect with
  | impose name number =>
    obtain ⟨rfl, same⟩ := Prod.mk.inj (Option.some.inj imposed)
    exact ⟨number, member, same⟩
  | use _ | fail | ordering _ | routine _ => cases imposed

/-- The table of an instruction gives a parameter a domain that fits its field exactly when
one of the following holds. The body imposes the domain; the instruction overrides it with
one that fits; or it does not override it, and if the parameter is the second immediate,
the operand that is bound to it has eight bits or no width. -/
theorem row_fits_iff {set : InstructionSet} (filled : set.Filled) {settings : Settings}
    {final : Session} (ran : generate (.start set settings) = .ok () final)
    {entry : Instruction × Emitter} (member : entry ∈ final.encoded) {parameter : String}
    {domain : Domain} (row : (parameter, domain) ∈ tableRows entry) :
    (∃ tables, final.elements.lookup .parameters = some tables ∧ tableElement entry ∈ tables) ∧
      (Fits parameter domain ↔
        (∃ items, (parameter, items) ∈ Node.groupsAll entry.1.encoding) ∨
        (∃ given, entry.1.overrides.lookup parameter = some given ∧
          Fits parameter given) ∨
        (entry.1.overrides.lookup parameter = none ∧ (parameter = "imm1" →
          ∀ width, Instruction.secondImmediate? entry.1.operands = some width → width = 8))) := by
  obtain ⟨encoded, -⟩ := generate_encodes ran
  obtain ⟨-, -, -, imposed, admitted, known⟩ := encoded.entry member
  obtain ⟨read, found⟩ := (mem_domainRows ..).mp row
  obtain ⟨width, listed, field⟩ := fieldWidth_of_known (known parameter read)
  refine ⟨generate_table ran member (List.ne_nil_of_mem read), ?_⟩
  rw [rowDomain, imposed, lookup_imposedBy] at found
  cases last : lastItems parameter (Node.groupsAll entry.1.encoding) with
  | some items =>
    have group := mem_of_lastItems last
    obtain ⟨number, effect, same⟩ := imposes_of_group group
    obtain ⟨-, bits, own, few⟩ := admitted _ effect
    have imposes : Effect.orders items = domain := by simpa [last] using found
    cases field.symm.trans own
    rw [← imposes, ← same]
    exact iff_of_true (orders_fit field listed few) (Or.inl ⟨items, group⟩)
  | none =>
    have free : ¬ ∃ items, (parameter, items) ∈ Node.groupsAll entry.1.encoding := by
      rintro ⟨items, group⟩
      obtain ⟨other, some⟩ := lastItems_of_mem group
      cases last.symm.trans some
    rw [last] at found
    cases override : entry.1.overrides.lookup parameter with
    | some given =>
      simp only [Option.map_none, Instruction.domain, override] at found
      cases found
      simp [free]
    | none =>
      have instruction : entry.1 ∈ set.instructions := by
        rw [← encoded.map_fst_encoded]
        exact List.mem_map_of_mem member
      have bound := (filled.sound instruction).2
      simp [free, Instruction.domain_fits_iff bound (known parameter read) override found]

/-- An instruction with two immediates, the second of which is wider than its field. -/
def wideImmediate : Except Failure Instruction :=
  Instruction.make "enter_imm8_imm16" "enter" "imm8:r; imm16:r"
    [.write (.param "imm0") 8, .write (.param "imm1") 16] [] [] [] []

/-- The wide immediate is all that is known about the domain of its parameter. -/
def bindsWide (instruction : Instruction) : Bool :=
  (Node.readsAll instruction.encoding).contains "imm1" &&
    ((Node.groupsAll instruction.encoding).isEmpty && (instruction.overrides.isEmpty &&
      Instruction.secondImmediate? instruction.operands == some 16))

/-- The table of an instruction with a wide second immediate lists values that its field
does not hold. -/
theorem row_of_wideImmediate : ∃ instruction set final, wideImmediate = .ok instruction ∧
    InstructionSet.empty.addAll [instruction] = .ok set ∧ set.Filled ∧
    generate (.start set .default) = .ok () final ∧
    ∃ entry ∈ final.encoded, ∃ domain, ("imm1", domain) ∈ tableRows entry ∧
      ¬ Fits "imm1" domain := by
  have evaluated : passes (fun instruction =>
      passes (fun set => tablesSucceed set && set.instructions.any bindsWide)
        (InstructionSet.empty.addAll [instruction])) wideImmediate = true := by
    decide +kernel
  obtain ⟨instruction, made, checked⟩ := exists_ok evaluated
  obtain ⟨set, added, computed⟩ := exists_ok checked
  rw [Bool.and_eq_true, List.any_eq_true] at computed
  obtain ⟨succeed, bound, listed, binds⟩ := computed
  have filled : set.Filled := ⟨[instruction], by
    simpa using ⟨_, _, _, _, _, _, _, _, made⟩, added⟩
  obtain ⟨final, ran⟩ := generate_succeeds succeed
  obtain ⟨encoded, -⟩ := generate_encodes ran
  obtain ⟨entry, member, rfl⟩ := List.mem_map.mp (encoded.map_fst_encoded ▸ listed)
  simp only [bindsWide, Bool.and_eq_true, List.contains_iff_mem, List.isEmpty_iff,
    beq_iff_eq] at binds
  obtain ⟨read, groups, free, wide⟩ := binds
  obtain ⟨-, named, -⟩ := encoded.entry member
  have parameter : "imm1" ∈ (tableRows entry).map (·.1) := by
    rw [(generate_tables ran).1 entry member]
    exact (named "imm1").mpr read
  obtain ⟨⟨name, domain⟩, row, rfl⟩ := List.mem_map.mp parameter
  refine ⟨instruction, set, final, made, added, filled, ran, entry, member, domain, row, ?_⟩
  rw [(row_fits_iff filled ran member row).2]
  simp [groups, free, wide]

end EncoderTables.Generator
