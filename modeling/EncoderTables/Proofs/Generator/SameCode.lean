import EncoderTables.Proofs.Encoding.Sameness
import EncoderTables.Proofs.Encoding.Unwrapped
import EncoderTables.Proofs.Generator.Attempts
import EncoderTables.Proofs.Results

/-!
# The code of nodes that are the same

Nodes that are the same share a function, which is written for the first of them that is
requested. They need not be equal: routines may have other names, and sizes may be given as
numbers or as truth values. None of this reaches the code, so the function that was written for
one of them has the code of each of them.
-/

namespace EncoderTables.Generator

open Results

/-- A result that is there is a result of another computation, too. -/
def Follows {α : Type} (first second : Except Failure α) : Prop :=
  ∀ value, first = .ok value → second = .ok value

section

variable {numbers : Numbers} {first second : List Node}

end

/-- What has no code has none that another lacks. -/
theorem Follows.refused {α : Type} (owner : Option String) (cause : Cause)
    (second : Except Failure α) : Follows (blame owner cause) second := by
  intro value found
  cases found

end EncoderTables.Generator
