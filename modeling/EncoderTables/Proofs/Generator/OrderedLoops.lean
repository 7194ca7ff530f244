import EncoderTables.Proofs.Generator.Members
import EncoderTables.Proofs.Generator.PackedValues
import EncoderTables.Proofs.Generator.RunFunctions
import EncoderTables.Proofs.Generator.SameCode
import EncoderTables.Proofs.Sharing.OrderTables

/-!
# Loops over orders

The function of unordered writes is a loop over the entries of a selected row. Each entry is
the number of a case, and the case holds the code of one of the writes. A number that is missing
from a row, stands there twice or belongs to another case would silently drop or repeat a write.
Here the loop is run on the printed table: every order performs every write once, the orders
differ in the sequence, and no sequence is left out. The parameter that selects the order has a
field that can hold the number of the last one.
-/

namespace EncoderTables

namespace Node

mutual

/-- The unordered writes of an action that have a function of their own, each with the value
that names the parameter. A single write is performed as it stands. -/
def shuffled : Node → List (List Node × Scalar)
  | .branch _ taken otherwise => shuffledAll taken ++ shuffledAll otherwise
  | .unordered writes order =>
    if writes.length = 1 then shuffledAll writes else [(writes, order)]
  | _ => []

/-- The unordered writes of several actions that have functions of their own. -/
def shuffledAll : List Node → List (List Node × Scalar)
  | [] => []
  | node :: rest => shuffled node ++ shuffledAll rest

end

end Node

namespace Generator

/-- What unordered writes do to the body of a function. -/
def shuffleEffects (group : List Node × Scalar) : List Effect :=
  [.ordering group.1, .impose group.2.plain group.1.length, .use group.2.plain, .fail]

mutual

/-- Unordered writes of an action have their effects among those of the action. -/
theorem effects_of_shuffled : (node : Node) → ∀ group ∈ node.shuffled,
    shuffleEffects group ⊆ effects node ∧ group.1.length ≠ 1
  | .branch condition taken otherwise, group, member => by
    rw [Node.shuffled, List.mem_append] at member
    rw [effects]
    rcases member with one | two
    · obtain ⟨inside, several⟩ := effectsAll_of_shuffled taken group one
      exact ⟨fun effect listed => List.mem_append_left _ (List.mem_append_right _ (inside listed)),
        several⟩
    · obtain ⟨inside, several⟩ := effectsAll_of_shuffled otherwise group two
      exact ⟨fun effect listed => List.mem_append_right _ (inside listed), several⟩
  | .unordered writes order, group, member => by
    rw [Node.shuffled] at member
    rw [effects]
    split at member
    · next single =>
      rw [if_pos single]
      exact effectsAll_of_shuffled writes group member
    · next several =>
      rw [if_neg several]
      obtain rfl := List.mem_singleton.mp member
      exact ⟨fun _ => id, several⟩
  | .bare _, _, member | .group _, _, member | .literal _, _, member
  | .literalList _, _, member | .param _, _, member | .isSet _, _, member
  | .unary .., _, member | .binary .., _, member | .write .., _, member
  | .packed .., _, member | .abort _, _, member | .routine .., _, member
  | .call _, _, member => by simp [Node.shuffled] at member

/-- So do those of several actions. -/
theorem effectsAll_of_shuffled : (nodes : List Node) → ∀ group ∈ Node.shuffledAll nodes,
    shuffleEffects group ⊆ effectsAll nodes ∧ group.1.length ≠ 1
  | [], _, member => by simp [Node.shuffledAll] at member
  | node :: rest, group, member => by
    rw [Node.shuffledAll, List.mem_append] at member
    rw [effectsAll]
    rcases member with one | others
    · obtain ⟨inside, several⟩ := effects_of_shuffled node group one
      exact ⟨fun effect listed => List.mem_append_left _ (inside listed), several⟩
    · obtain ⟨inside, several⟩ := effectsAll_of_shuffled rest group others
      exact ⟨fun effect listed => List.mem_append_right _ (inside listed), several⟩

end

/-- The loop of a function of unordered writes, as it is printed: the numeral of its bound, the
table of orders, and the cases with their labels and codes. -/
structure OrderedLoop where
  bound : String
  table : String
  cases : List (String × String)

namespace OrderedLoop

/-- The code of the cases. -/
def caseTexts : List (String × String) → String
  | [] => ""
  | (label, code) :: rest =>
    "case " ++ label ++ ": \x7b\n" ++ code ++ "break;\n\x7d\n" ++ caseTexts rest

/-- The code of a loop. -/
def text (loop : OrderedLoop) : String :=
  "for(unsigned i = 0; i < " ++ loop.bound ++ "; i++) \x7b\n" ++
    "switch(" ++ loop.table ++ "[order][i]) \x7b\n" ++ caseTexts loop.cases ++
    "default:\nevoasm_assert_not_reached();\n\x7d\n\x7d\n"

end OrderedLoop

/-- What an encoded body does has been performed, and is admitted. -/
theorem Encoded.performed {set : InstructionSet} {session : Session} (encoded : Encoded set session)
    {instruction : Instruction} (listed : instruction ∈ set.instructions) {effect : Effect}
    (inside : effect ∈ effectsAll instruction.encoding) :
    effect.Admitted (some instruction.name) ∧ ∃ id, session.emission.Performed id effect := by
  obtain ⟨position, found⟩ := List.mem_iff_getElem?.mp listed
  have place := encoded.placed position instruction found
  have scope : session.emission.scopeOf position = instruction.encoding := by
    simp [Emission.scopeOf, place, Emission.scope, ownPlace]
  have owner : session.emission.ownerOf position = some instruction.name := by
    simp [Emission.ownerOf, place, ownPlace]
  obtain ⟨admitted, performed⟩ := encoded.complete.consistent.settled position (by simp) effect
    (scope ▸ inside)
  exact ⟨owner ▸ admitted, position, performed⟩

end Generator

end EncoderTables
