import EncoderTables.Failure
import EncoderTables.Scalar

/-!
# Settings of a generator

How the generated code is laid out, how many words the parameter structures may use and
whether the generator tells what it does. Limits arrive as plain values and must be
whole numbers that are large enough.
-/

namespace EncoderTables.Generator

/-- The settings of a generator. -/
structure Settings where
  verbose : Bool
  indent : Nat
  width : Nat
  budget : Scalar
  basicBudget : Scalar
  deriving DecidableEq, Repr

namespace Settings

/-- A whole number that is not below a limit. -/
def atLeast (least : Int) (cause : String → Cause) (value : Scalar) : Except Failure Nat :=
  match value.whole? with
  | some number => if number < least then refuse (cause value.plain) else .ok number.toNat
  | none => refuse (cause value.plain)

/-- The number of words that a parameter structure may use, as it was given. -/
def checkBudget (words : Scalar) : Except Failure Scalar := do
  let _ ← atLeast 1 .invalidBudget words
  return words

/-- Settings of given limits, which are checked in their order. -/
def make (verbose : Bool) (indent width budget basicBudget : Scalar) : Except Failure Settings := do
  let indent ← atLeast 1 .invalidIndent indent
  let width ← atLeast 20 .invalidLineWidth width
  let budget ← checkBudget budget
  let basicBudget ← checkBudget basicBudget
  return ⟨verbose, indent, width, budget, basicBudget⟩

/-- The settings that are used unless others are given. -/
def default : Settings := ⟨false, 2, 100, .number 4, .number 1⟩

/-- Change the budget of one of the parameter structures. -/
def withBudget (settings : Settings) (words : Scalar) (basic : Bool) : Settings :=
  if basic then { settings with basicBudget := words } else { settings with budget := words }

end Settings

end EncoderTables.Generator
