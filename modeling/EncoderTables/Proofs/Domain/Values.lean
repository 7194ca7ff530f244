import EncoderTables.Domain.Default
import EncoderTables.Parameters.Kind
import Mathlib.Algebra.Order.GroupWithZero.Basic
import Mathlib.Algebra.Order.Ring.Int

/-!
# Values of domains and fields

What a domain means: the numbers that a caller may give its parameter. Members that are
registers stand for their ids. A field of some bits holds numbers of its own range, which
need not be that of the domain; a domain fits a field when all its numbers do.
-/

namespace EncoderTables

/-- The numbers that some bits hold, in two's complement or without a sign. -/
def Bits.Holds (width : Nat) (signed : Bool) (value : Int) : Prop :=
  if signed then -2 ^ (width - 1) ≤ value ∧ value < 2 ^ (width - 1)
  else 0 ≤ value ∧ value < 2 ^ width

instance (width : Nat) (signed : Bool) : DecidablePred (Bits.Holds width signed) := by
  intro value
  unfold Bits.Holds
  infer_instance

/-- Wider fields hold more numbers of the same kind. -/
theorem Bits.Holds.widen {narrow wide : Nat} {signed : Bool} {value : Int}
    (held : Bits.Holds narrow signed value) (wider : narrow ≤ wide) :
    Bits.Holds wide signed value := by
  cases signed with
  | false =>
    have more : (2 : Int) ^ narrow ≤ 2 ^ wide := pow_le_pow_right₀ (by decide) wider
    simp only [Bits.Holds, Bool.false_eq_true, if_false] at held ⊢
    omega
  | true =>
    have more : (2 : Int) ^ (narrow - 1) ≤ 2 ^ (wide - 1) :=
      pow_le_pow_right₀ (by decide) (Nat.sub_le_sub_right wider 1)
    simp only [Bits.Holds, if_true] at held ⊢
    omega

/-- The number that a member of an enumeration stands for. -/
def Member.value : Member → Int
  | .number value => value
  | .register id => id.val

namespace Domain

/-- The numbers that a domain admits. -/
def Admits : Domain → Int → Prop
  | interval least greatest, value => least ≤ value ∧ value ≤ greatest
  | enumeration members, value => ∃ member ∈ members, member.value = value
  | integers width signed, value => Bits.Holds width.bits signed value

instance (domain : Domain) : DecidablePred domain.Admits := by
  intro value
  cases domain <;> unfold Admits <;> infer_instance

/-- Whether the numbers of a domain are among those that some bits hold, by its bounds. -/
def within (width : Nat) (signed : Bool) : Domain → Bool
  | interval least greatest =>
    decide (greatest < least) ||
      (decide (Bits.Holds width signed least) && decide (Bits.Holds width signed greatest))
  | enumeration members => members.all fun member => decide (Bits.Holds width signed member.value)
  | integers kind signs => signs == signed && decide (kind.bits ≤ width)

/-- A domain whose bounds are held is held as a whole. -/
theorem holds_of_within {width : Nat} {signed : Bool} {domain : Domain} {value : Int}
    (checked : domain.within width signed = true) (admitted : domain.Admits value) :
    Bits.Holds width signed value := by
  cases domain with
  | interval least greatest =>
    obtain ⟨above, below⟩ := admitted
    simp only [within, Bool.or_eq_true, Bool.and_eq_true, decide_eq_true_eq] at checked
    rcases checked with empty | ⟨first, last⟩
    · omega
    · cases signed with
      | false =>
        simp only [Bits.Holds, Bool.false_eq_true, if_false] at first last ⊢
        omega
      | true =>
        simp only [Bits.Holds, if_true] at first last ⊢
        omega
  | enumeration members =>
    obtain ⟨member, listed, rfl⟩ := admitted
    exact of_decide_eq_true (List.all_eq_true.mp checked member listed)
  | integers kind signs =>
    simp only [within, Bool.and_eq_true, beq_iff_eq, decide_eq_true_eq] at checked
    obtain ⟨rfl, wider⟩ := checked
    exact Bits.Holds.widen admitted wider

end Domain

namespace Parameters

/-- The numbers that the field of a parameter holds. -/
def Holds (parameter : String) (value : Int) : Prop :=
  ∃ width, fieldWidth parameter false = .ok width ∧
    Bits.Holds width (holdsSigned parameter) value

/-- A domain fits the field of a parameter when the field holds all its numbers. -/
def Fits (parameter : String) (domain : Domain) : Prop :=
  ∀ value, domain.Admits value → Holds parameter value

end Parameters

end EncoderTables
