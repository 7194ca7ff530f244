import EncoderTables.Instruction.Basic
import EncoderTables.Proofs.Operand.Binding
import EncoderTables.Proofs.Parameters.Fields

/-!
# Domains that instructions give their parameters

Unless an instruction overrides it, the domain of a parameter is the one that an operand
implies or the default of its kind. Both fit the parameter's field, with one exception: the
field of the second immediate has eight bits, while its operand may be wider.
-/

namespace EncoderTables

open Results Parameters

namespace Domain

/-- The registers that can be selected are within the width of register ids. -/
theorem banks_within : ∀ bank ∈ Arch.selectableBanks,
    (match enumeration? (bank.2.map Member.Given.register) with
      | .ok domain => domain.within Arch.registerIdWidth false
      | .error _ => true) = true := by
  decide

/-- The registers of a type are within the width of register ids. -/
theorem within_of_registerType {type : String} {domain : Domain}
    (found : ofRegisterType type = .ok domain) :
    domain.within Arch.registerIdWidth false = true := by
  unfold ofRegisterType at found
  split at found
  · next names listed =>
    obtain ⟨former, later, banks, -⟩ := List.lookup_eq_some_iff.mp listed
    have checked := banks_within (type, names)
      (banks ▸ List.mem_append_right former List.mem_cons_self)
    simpa only [found] using checked
  · cases found

/-- The integers of a width that machines have are those of this width. -/
theorem integers_of_width {width : Nat} {signed : Bool} {domain : Domain}
    (found : integers? (.number width) signed = .ok domain) :
    ∃ kind : Width, domain = .integers kind signed ∧ kind.bits = width := by
  unfold integers? at found
  split at found
  · next kind chosen =>
    cases found
    refine ⟨kind, rfl, ?_⟩
    have same := List.find?_some chosen
    simp only [Scalar.same, Scalar.ratio?, Scalar.whole?, Scalar.shifted, Option.map_some,
      beq_iff_eq, Int.natCast_inj] at same
    exact same.symm
  · cases found

end Domain

namespace Parameters

/-- Registers fit fields that hold registers. -/
theorem fits_of_registerType {parameter type : String} {width : Nat} {domain : Domain}
    (field : fieldWidth parameter false = .ok width)
    (holds : holdsRegisters (parameter, width) = true)
    (found : Domain.ofRegisterType type = .ok domain) : Fits parameter domain := by
  simp only [holdsRegisters, Bool.and_eq_true, decide_eq_true_eq, Bool.not_eq_true'] at holds
  intro value admitted
  have held := Domain.holds_of_within (Domain.within_of_registerType found) admitted
  exact ⟨width, field, by simpa only [holds.2] using held.widen holds.1⟩

/-- Signed integers of any width fit the signed fields of sixty-four bits. -/
theorem fits_widest {parameter : String} (field : fieldWidth parameter false = .ok 64)
    (signed : holdsSigned parameter = true) (kind : Width) :
    Fits parameter (.integers kind true) := by
  apply fits_of_within field
  rw [signed]
  cases kind <;> decide

/-- Of the signed integers only those of eight bits fit the field of the second
immediate. -/
theorem fits_second_immediate_iff (kind : Width) :
    Fits "imm1" (.integers kind true) ↔ kind = .bits8 := by
  have field : fieldWidth "imm1" false = .ok 8 := by decide
  have signed : holdsSigned "imm1" = true := by decide
  constructor
  · intro fits
    by_contra wider
    have admitted : (Domain.integers kind true).Admits 128 := by
      cases kind with
      | bits8 => exact absurd rfl wider
      | bits16 | bits32 | bits64 => decide
    obtain ⟨width, found, held⟩ := fits 128 admitted
    cases field.symm.trans found
    rw [signed] at held
    exact absurd held (by decide)
  · rintro rfl
    apply fits_of_within field
    rw [signed]
    decide

end Parameters

namespace Operand

/-- The letters of a numbered name are those of its leader and digits. -/
theorem toList_numbered (leader : String) (index : Nat) :
    (leader ++ toString index).toList = leader.toList ++ Nat.toDigits 10 index := by
  rw [String.toList_append, Nat.toString_eq_repr, Nat.toList_repr]

/-- A numbered register that is known has a field that holds registers. -/
theorem register_field {index width : Nat}
    (listed : ("reg" ++ toString index, width) ∈ Arch.fieldWidths) :
    holdsRegisters ("reg" ++ toString index, width) = true := by
  have letters := toList_numbered "reg" index
  refine numbered_registers _ listed ?_ ?_
  · rw [letters]
    exact List.prefix_append _ _
  · rw [letters, List.mem_append, not_or]
    exact ⟨by decide, Nat.underscore_not_in_toDigits⟩

/-- A numbered immediate that is known is the first or the second. -/
theorem immediate_field {index width : Nat}
    (listed : ("imm" ++ toString index, width) ∈ Arch.fieldWidths) :
    ("imm" ++ toString index, width) = ("imm0", 64) ∨
      ("imm" ++ toString index, width) = ("imm1", 8) := by
  refine numbered_immediates _ listed ?_
  rw [toList_numbered "imm" index]
  exact List.prefix_append _ _

/-- What an operand of a kind implies: registers of a type, or the integers of a width. -/
def Implies (operand : Operand) (domain : Domain) : Kind → Prop
  | .reg | .rm => ∃ type : String, Domain.ofRegisterType type = .ok domain
  | .imm => ∃ width : Nat, operand.shape.immediateSize = some width ∧
      Domain.integers? (.number width) true = .ok domain
  | .mem => ∃ width : Nat, Domain.integers? (.number width) true = .ok domain
  | .vsib | .flags => False

/-- The domain of an operand is what its kind implies. -/
theorem implies_of_domain? {operand : Operand} {domain : Domain}
    (found : operand.domain? = .ok (some domain)) :
    operand.Implies domain operand.shape.kind := by
  unfold domain? at found
  cases kind : operand.shape.kind with
  | reg | rm =>
    cases family : operand.shape.registerType with
    | none => simp [kind, family] at found
    | some type =>
      simp_all only [map_ok_iff, Option.some.injEq, exists_eq_right]
      exact ⟨type.name, found⟩
  | imm =>
    cases size : operand.shape.immediateSize with
    | none => simp [kind, size] at found
    | some width =>
      simp_all only [map_ok_iff, Option.some.injEq, exists_eq_right]
      exact ⟨width, size, found⟩
  | mem =>
    simp only [kind] at found
    split at found
    · cases size : operand.shape.memorySize with
      | none => simp [size] at found
      | some width =>
        simp only [size, map_ok_iff, Option.some.injEq, exists_eq_right] at found
        exact ⟨width, found⟩
    · simp at found
  | vsib | flags => simp [kind] at found

/-- The domain that an operand implies fits the field of its parameter, unless this is the
second immediate. -/
theorem domain_fits {operand : Operand} {parameter : String} {domain : Domain}
    (bound : Binding operand.shape.kind parameter) (known : isKnown parameter = true)
    (other : parameter ≠ "imm1") (found : operand.domain? = .ok (some domain)) :
    Fits parameter domain := by
  obtain ⟨width, listed, field⟩ := fieldWidth_of_known known
  have implied := implies_of_domain? found
  generalize operand.shape.kind = kind at bound implied
  cases bound with
  | immediate index =>
    obtain ⟨width, -, integers⟩ := implied
    obtain ⟨kind, rfl, -⟩ := Domain.integers_of_width integers
    rcases immediate_field listed with first | second
    · rw [(Prod.mk.inj first).1]
      exact fits_widest (by decide) (by decide) kind
    · exact absurd (Prod.mk.inj second).1 other
  | register index | registerOrMemory index =>
    obtain ⟨type, registers⟩ := implied
    exact fits_of_registerType field (register_field listed) registers
  | relative =>
    obtain ⟨width, -, integers⟩ := implied
    obtain ⟨kind, rfl, -⟩ := Domain.integers_of_width integers
    exact fits_widest (by decide) (by decide) kind
  | offset =>
    obtain ⟨width, integers⟩ := implied
    obtain ⟨kind, rfl, -⟩ := Domain.integers_of_width integers
    exact fits_widest (by decide) (by decide) kind

end Operand

namespace Instruction

/-- The domain that the first operand implies for a parameter comes first, then that of its
index vector, then those of the others. -/
theorem impliedDomain?_cons (parameter : String) (operand : Operand) (rest : List Operand) :
    impliedDomain? parameter (operand :: rest) =
      (if operand.parameter = some parameter then operand.domain? else .ok none) >>= fun own =>
        match own with
        | some domain => .ok (some domain)
        | none =>
          if parameter = "reg_index" && operand.shape.kind = .vsib then
            (Domain.ofIndexSize ((operand.shape.indexSize.getD 0 : Nat) : Int)).map some
          else impliedDomain? parameter rest := by
  have indexed : ∀ found : Except Failure Domain,
      (found >>= fun domain => pure (some domain)) = found.map some := by
    intro found
    cases found <;> rfl
  rw [impliedDomain?]
  simp only [indexed]
  split <;> rfl

/-- The domain that operands imply for a parameter comes from one that is bound to it, or
holds the registers of an index vector. -/
theorem impliedDomain?_cases {parameter : String} {operands : List Operand} {domain : Domain}
    (found : impliedDomain? parameter operands = .ok (some domain)) :
    (∃ operand ∈ operands, operand.parameter = some parameter ∧
        operand.domain? = .ok (some domain)) ∨
      parameter = "reg_index" ∧ ∃ type : String, Domain.ofRegisterType type = .ok domain := by
  induction operands with
  | nil => cases found
  | cons operand rest inductionHypothesis =>
    simp only [impliedDomain?_cons, bind_ok_iff] at found
    obtain ⟨implied, own, found⟩ := found
    cases implied with
    | some other =>
      cases found
      split at own
      · next bound => exact Or.inl ⟨operand, List.mem_cons_self, bound, own⟩
      · cases own
    | none =>
      simp only at found
      split at found
      · next indexed =>
        simp only [Bool.and_eq_true, decide_eq_true_eq] at indexed
        simp only [map_ok_iff, Option.some.injEq, exists_eq_right] at found
        exact Or.inr ⟨indexed.1, _, found⟩
      · rcases inductionHypothesis found with ⟨other, member, bound, implied⟩ | vector
        · exact Or.inl ⟨other, List.mem_cons_of_mem _ member, bound, implied⟩
        · exact Or.inr vector

/-- The width of the operand that is bound to the second immediate. -/
def secondImmediate? (operands : List Operand) : Option Nat :=
  operands.findSome? fun operand =>
    if operand.parameter = some "imm1" then operand.shape.immediateSize else none

/-- An operand that is bound to the second immediate implies the integers of its width. -/
theorem domain?_of_second_immediate {operand : Operand} (bound : operand.Bound)
    (second : operand.parameter = some "imm1") :
    operand.domain? = match operand.shape.immediateSize with
      | some width => (Domain.integers? (.number width) true).map some
      | none => .ok none := by
  have kind : operand.shape.kind = .imm := by
    have binding := bound "imm1" second
    generalize operand.shape.kind = kind at binding
    generalize name : "imm1" = parameter at binding
    cases binding with
    | immediate index => rfl
    | register index | registerOrMemory index =>
      have letters := congrArg String.toList name
      rw [Operand.toList_numbered] at letters
      exact absurd (List.cons.inj letters).1 (by decide)
    | relative => rfl
    | offset => exact absurd name (by decide)
  cases size : operand.shape.immediateSize <;> simp only [Operand.domain?, kind, size]

/-- The domain that operands imply for the second immediate has the width of its operand. -/
theorem impliedDomain?_second {operands : List Operand}
    (bound : ∀ operand ∈ operands, operand.Bound) :
    impliedDomain? "imm1" operands = match secondImmediate? operands with
      | some width => (Domain.integers? (.number width) true).map some
      | none => .ok none := by
  induction operands with
  | nil => rfl
  | cons operand rest inductionHypothesis =>
    obtain ⟨own, others⟩ := List.forall_mem_cons.mp bound
    rw [impliedDomain?_cons, secondImmediate?, List.findSome?_cons]
    by_cases second : operand.parameter = some "imm1"
    · rw [if_pos second, if_pos second, domain?_of_second_immediate own second]
      cases operand.shape.immediateSize with
      | none => exact inductionHypothesis others
      | some width =>
        simp only
        cases Domain.integers? (.number width) true <;> rfl
    · rw [if_neg second, if_neg second]
      exact inductionHypothesis others

/-- A parameter that no operand restricts has a domain that fits its field. -/
theorem default_fits {parameter : String} {domain : Domain} (known : isKnown parameter = true)
    (found : Domain.default parameter = .ok domain) : Fits parameter domain := by
  obtain ⟨width, listed, field⟩ := fieldWidth_of_known known
  have checked := default_within (parameter, width) listed
  simp only [found] at checked
  exact fits_of_within field checked

/-- A parameter without an override has a domain that fits its field, unless it is the
second immediate and its operand is wider than the field. -/
theorem domain_fits_iff {instruction : Instruction} {parameter : String} {domain : Domain}
    (bound : ∀ operand ∈ instruction.operands, operand.Bound)
    (known : isKnown parameter = true) (free : instruction.overrides.lookup parameter = none)
    (found : instruction.domain parameter = .ok domain) :
    Fits parameter domain ↔
      (parameter = "imm1" → ∀ width, secondImmediate? instruction.operands = some width →
        width = 8) := by
  simp only [Instruction.domain, free, bind_ok_iff] at found
  obtain ⟨implied, operands, found⟩ := found
  by_cases second : parameter = "imm1"
  · subst second
    rw [impliedDomain?_second bound] at operands
    cases size : secondImmediate? instruction.operands with
    | none =>
      rw [size] at operands
      cases operands
      exact iff_of_true (default_fits known found) (by simp)
    | some width =>
      simp only [size, map_ok_iff] at operands
      obtain ⟨_, integers, rfl⟩ := operands
      cases found
      obtain ⟨kind, rfl, bits⟩ := Domain.integers_of_width integers
      rw [fits_second_immediate_iff]
      cases kind <;> simp [← bits, Width.bits]
  · refine iff_of_true ?_ fun same => absurd same second
    cases implied with
    | none => exact default_fits known found
    | some other =>
      cases found
      rcases impliedDomain?_cases operands with ⟨operand, member, own, implied⟩ | indexed
      · exact Operand.domain_fits (bound operand member parameter own) known second implied
      · obtain ⟨rfl, type, registers⟩ := indexed
        have field : fieldWidth "reg_index" false = .ok Arch.registerIdWidth := by decide
        exact fits_of_registerType field (by decide) registers

end Instruction

end EncoderTables
