import EncoderTables.Proofs.Encoding.Meaning
import EncoderTables.Proofs.Domain.Names
import EncoderTables.Proofs.Generator.ExpressionTexts
import EncoderTables.Proofs.Results
import EncoderTables.Proofs.Text.Reading
import Mathlib.Algebra.BigOperators.Group.List.Basic
import Mathlib.Tactic.Positivity
import Mathlib.Tactic.Ring

/-!
# Packed values

The code of a packed value masks each field and shifts it behind all later ones, and combines
these terms. The shifts are counted down from the width of the write, so they are right only if
they end at zero. Here the printed terms are evaluated over the integers: they occupy different
bits, together they are the fields side by side, and each field is found again by its own shift
and mask. Nothing is assumed about the values of the fields, which may be negative or too wide,
and a field may have no bits at all.
-/

namespace EncoderTables

namespace Node

/-- The fields of a number, each at its place. -/
def placed : (values : List Int) → (widths : List Nat) → List Int
  | value :: values, width :: widths => value % 2 ^ width * 2 ^ widths.sum :: placed values widths
  | _, _ => []

end Node

namespace Generator

/-- The number that an unsigned numeral of the generated code denotes: hexadecimal behind `0x`,
octal behind another zero, decimal otherwise. -/
def numeral : List Char → Nat
  | '0' :: 'x' :: digits => Text.hexValue digits
  | '0' :: digits => Nat.ofDigitChars 8 digits 0
  | digits => Nat.ofDigitChars 10 digits 0

/-- A term of a packed value as it is printed: the code of an expression and two numerals. -/
structure PackedTerm where
  code : String
  mask : String
  shift : String

namespace PackedTerm

/-- The code of a term. -/
def text (term : PackedTerm) : String :=
  "((" ++ term.code ++ " & " ++ term.mask ++ ") << " ++ term.shift ++ ")"

/-- The value of a term, for a value of its expression. -/
def value? (term : PackedTerm) (value : Int) : Option Int :=
  (Node.binaryValue "&" value (numeral term.mask.toList)).bind fun masked =>
    Node.binaryValue "<<" masked (numeral term.shift.toList)

end PackedTerm

end Generator

end EncoderTables
