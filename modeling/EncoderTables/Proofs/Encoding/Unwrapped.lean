import EncoderTables.Proofs.Encoding.Sameness

/-!
# Nodes without single unordered writes

A single action has one order only, so it is performed as it stands when it is given as
unordered writes. Here every such wrapping is taken away, at any depth of a node. Nodes
that are the same remain the same.
-/

namespace EncoderTables.Node

mutual

/-- A node in which each single unordered write is replaced by the write. -/
def unwrapped : Node → Node
  | .group items => .group (unwrappedAll items)
  | .literalList items => .literalList (unwrappedAll items)
  | .unary symbol inner => .unary symbol (unwrapped inner)
  | .binary symbol left right => .binary symbol (unwrapped left) (unwrapped right)
  | .write value size => .write (unwrapped value) size
  | .packed values sizes => .packed (unwrappedAll values) sizes
  | .branch condition taken otherwise =>
    .branch (unwrapped condition) (unwrappedAll taken) (unwrappedAll otherwise)
  | .routine name members => .routine name (unwrappedAll members)
  | .call target => .call (unwrapped target)
  | .unordered [single] _ => unwrapped single
  | .unordered writes order => .unordered (unwrappedAll writes) order
  | .bare value => .bare value
  | .literal value => .literal value
  | .param name => .param name
  | .isSet name => .isSet name
  | .abort message => .abort message

/-- Nodes in which each single unordered write is replaced by the write. -/
def unwrappedAll : List Node → List Node
  | [] => []
  | node :: rest => unwrapped node :: unwrappedAll rest

end

/-- Several unordered writes stay unordered. -/
theorem unwrapped_unordered {writes : List Node} {order : Scalar} (several : writes.length ≠ 1) :
    unwrapped (.unordered writes order) = .unordered (unwrappedAll writes) order := by
  match writes with
  | [] => rfl
  | [_] => exact absurd rfl several
  | _ :: _ :: _ => rfl

/-- Nodes that are the same are as many. -/
theorem length_of_sameAll {first second : List Node} (equal : sameAll first second = true) :
    first.length = second.length := by
  induction first generalizing second with
  | nil =>
    cases second with
    | nil => rfl
    | cons other later => cases equal
  | cons node rest inductionHypothesis =>
    cases second with
    | nil => cases equal
    | cons other later =>
      rw [sameAll, Bool.and_eq_true] at equal
      simp [inductionHypothesis equal.2]

/-- Unwrapping leaves as many nodes. -/
@[simp]
theorem length_unwrappedAll (nodes : List Node) : (unwrappedAll nodes).length = nodes.length := by
  induction nodes with
  | nil => rfl
  | cons node rest inductionHypothesis => simp [unwrappedAll, inductionHypothesis]

/-- Nodes that are the same are the same without wrappings. -/
theorem same_unwrapped :
    (∀ first second, same first second = true →
      same (unwrapped first) (unwrapped second) = true) ∧
    (∀ first second, sameAll first second = true →
      sameAll (unwrappedAll first) (unwrappedAll second) = true) := by
  apply same_induction
  case bare => exact fun _ _ equal => equal
  case unordered =>
    intro order first second equal
    have lengths := length_of_sameAll equal
    simp only [length_unwrappedAll] at lengths
    by_cases single : first.length = 1
    · obtain ⟨one, rfl⟩ := List.length_eq_one_iff.mp single
      obtain ⟨two, rfl⟩ := List.length_eq_one_iff.mp (lengths.symm.trans single)
      simpa [unwrappedAll, sameAll, unwrapped] using equal
    · rw [unwrapped_unordered single, unwrapped_unordered (lengths ▸ single)]
      simp [same, equal]
  all_goals
    intros
    simp_all [same, sameAll, unwrapped, unwrappedAll]

end EncoderTables.Node
